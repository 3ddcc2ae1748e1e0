import PowRules.Header
import PowRules.RuleError

/-! The rules read headers of one branch through a view, by height, and never own them. -/
namespace PowRules

def maxHeight : Nat := 0xffffffff

/-- Some of the headers of one branch, by height. -/
structure View where
  headerAt : Nat → Option Header

/-- The headers of a list, the first of them at genesis. -/
def View.ofArray (headers : Array Header) : View where
  headerAt height := if height ≤ maxHeight then headers[height]? else none

/-- A header that a view holds, with its height. -/
structure Cursor where
  view : View
  height : Nat
  header : Header
  held : view.headerAt height = some header

def View.at? (view : View) (height : Nat) : Option Cursor :=
  match h : view.headerAt height with
  | some header => some ⟨view, height, header, h⟩
  | none => none

namespace Cursor

def time (cursor : Cursor) : UInt32 :=
  cursor.header.time

def bits (cursor : Cursor) : UInt32 :=
  cursor.header.bits

/-- The predecessor. There is none at genesis, nor where the view ends. -/
def previous? (cursor : Cursor) : Option Cursor :=
  match cursor.height with
  | 0 => none
  | height + 1 => cursor.view.at? height

/-- The predecessor, which only genesis may lack. -/
def previous (cursor : Cursor) : Except RuleError (Option Cursor) :=
  match cursor.height with
  | 0 => .ok none
  | height + 1 =>
      match cursor.view.at? height with
      | some previous => .ok (some previous)
      | none => .error (.missingAncestor height)

/-- The header at a height of the branch up to the cursor. -/
def ancestor? (cursor : Cursor) (height : Nat) : Option Cursor :=
  if height ≤ cursor.height then cursor.view.at? height else none

/-- The header at a height of the branch up to the cursor, which has to be held. -/
def ancestor (cursor : Cursor) (height : Nat) : Except RuleError Cursor :=
  match cursor.ancestor? height with
  | some found => .ok found
  | none => .error (.missingAncestor height)

def inspect (cursor : Cursor) : String :=
  s!"HeaderCursor \x7b height: {cursor.height}, time: {cursor.time}, " ++
    s!"bits: 0x{Compact.text cursor.bits} \x7d"

end Cursor

namespace View

theorem at?_eq_none_iff {view : View} {height : Nat} :
    view.at? height = none ↔ view.headerAt height = none := by
  unfold at?
  split <;> simp_all

theorem at?_of_headerAt {view : View} {height : Nat} {header : Header}
    (h : view.headerAt height = some header) :
    view.at? height = some ⟨view, height, header, h⟩ := by
  unfold at?
  split
  next found hFound =>
    cases h.symm.trans hFound
    rfl
  next hMissing =>
    cases h.symm.trans hMissing

/-- A view and a height determine the cursor, since the header is the one held there. -/
theorem at?_eq_some_iff {view : View} {height : Nat} {cursor : Cursor} :
    view.at? height = some cursor ↔ cursor.view = view ∧ cursor.height = height := by
  constructor
  · intro h
    unfold at? at h
    split at h
    · cases h
      exact ⟨rfl, rfl⟩
    · cases h
  · rintro ⟨rfl, rfl⟩
    exact at?_of_headerAt cursor.held

end View

end PowRules

/-! The time of a window of headers is halfway between the earliest and the latest of their times.
It is no median. -/
namespace PowRules.Cursor

/-- The times of up to `count` predecessors, nearest first. Only genesis may end them early. -/
def earlierTimes : Nat → Cursor → Except RuleError (List Nat)
  | 0, _ => .ok []
  | count + 1, cursor =>
      match cursor.previous with
      | .error error => .error error
      | .ok none => .ok []
      | .ok (some previous) => (earlierTimes count previous).map (previous.time.toNat :: ·)

/-- The number halfway between the least and the greatest of some numbers, rounded down. -/
def midpoint (first : Nat) (others : List Nat) : Nat :=
  let least := others.foldl min first
  let greatest := others.foldl max first
  least + (greatest - least) / 2

/-- The time of the window of `window` headers that ends here. An empty window counts as one header. -/
def windowTime (cursor : Cursor) (window : Nat) : Except RuleError Nat :=
  (cursor.earlierTimes (max window 1 - 1)).map (midpoint cursor.time.toNat)

end PowRules.Cursor

/-! A segment owns its headers and gives a view of them. It grows at its upper end. -/
namespace PowRules

/-- Headers of consecutive heights, the first of them at `base`. -/
structure Segment where
  base : UInt32 := 0
  headers : Array Header := #[]
deriving DecidableEq

namespace Segment

/-- The header at a height, which must not exceed the last one. -/
def headerAt (segment : Segment) (height : Nat) : Option Header :=
  if height ≤ maxHeight ∧ segment.base.toNat ≤ height then
    segment.headers[height - segment.base.toNat]?
  else none

def view (segment : Segment) : View where
  headerAt := segment.headerAt

def push (segment : Segment) (header : Header) : Segment :=
  { segment with headers := segment.headers.push header }

/-- The height of the last header. There is none for an empty segment, nor where the number of
headers or the height itself would exceed the last height. -/
def tipHeight (segment : Segment) : Option Nat :=
  if segment.headers.size = 0 ∨ maxHeight < segment.headers.size ∨
      maxHeight < segment.base.toNat + (segment.headers.size - 1) then none
  else some (segment.base.toNat + (segment.headers.size - 1))

def at? (segment : Segment) (height : Nat) : Option Cursor :=
  segment.view.at? height

def tip (segment : Segment) : Option Cursor :=
  segment.tipHeight.bind segment.at?

/-- A push adds one height on top, unless that exceeds the last one, and changes no other. -/
theorem headerAt_push (segment : Segment) (header : Header) (height : Nat) :
    (segment.push header).headerAt height =
      if height ≤ maxHeight ∧ height = segment.base.toNat + segment.headers.size then some header
      else segment.headerAt height := by
  simp only [headerAt, push, Array.getElem?_push]
  by_cases hHeld : height ≤ maxHeight ∧ segment.base.toNat ≤ height
  · have hTop : height - segment.base.toNat = segment.headers.size ↔
        height = segment.base.toNat + segment.headers.size := by omega
    simp [hHeld, hTop]
  · have hTop : ¬(height ≤ maxHeight ∧ height = segment.base.toNat + segment.headers.size) := by
      omega
    simp [hHeld, hTop]

/-- A segment with a tip ends at the last height or below, so heights in it never wrap. -/
theorem tipHeight_le {segment : Segment} {tip : Nat} (h : segment.tipHeight = some tip) :
    tip ≤ maxHeight := by
  unfold tipHeight at h
  split at h
  · cases h
  · cases h
    omega

end Segment

end PowRules

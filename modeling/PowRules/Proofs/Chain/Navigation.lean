import PowRules.Proofs.Chain.Coverage
import PowRules.Proofs.Chain.LowerEdge

/-! A segment as a store of headers by height, and its cursors as ways through it. Pushes only ever add the height
on top, and going back step by step comes to the same header as a single look-up, as far as the base. -/
namespace PowRules

namespace Cursor

/-- The header so many steps back, one predecessor at a time. -/
def back? : Nat → Cursor → Option Cursor
  | 0, cursor => some cursor
  | count + 1, cursor => cursor.previous?.bind (back? count)

variable {cursor found : Cursor} {height : Nat}

theorem previous?_eq_some_iff :
    cursor.previous? = some found ↔ found.view = cursor.view ∧ found.height + 1 = cursor.height := by
  unfold previous?
  cases cursor.height with
  | zero => simp
  | succ height => rw [View.at?_eq_some_iff, Nat.add_right_cancel_iff]

/-- A look-up by height finds the header in the same view, and finds nothing above the cursor. -/
theorem ancestor?_eq_some_iff :
    cursor.ancestor? height = some found ↔
      height ≤ cursor.height ∧ found.view = cursor.view ∧ found.height = height := by
  unfold ancestor?
  by_cases hHeight : height ≤ cursor.height
  · rw [if_pos hHeight, View.at?_eq_some_iff, and_iff_right hHeight]
  · simp [hHeight]

/-- Only a missing header is an error. Genesis has no predecessor and no error. -/
theorem previous_eq_error_iff {error : RuleError} :
    cursor.previous = .error error ↔ ∃ height, cursor.height = height + 1 ∧
      cursor.view.headerAt height = none ∧ error = .missingAncestor height := by
  unfold previous
  cases cursor.height with
  | zero => simp
  | succ below =>
      cases hHeader : cursor.view.headerAt below with
      | none => simp [View.at?_eq_none_iff.mpr hHeader, hHeader, eq_comm]
      | some header => simp [View.at?_of_headerAt hHeader, hHeader]

theorem ancestor?_of_lt (h : cursor.height < height) : cursor.ancestor? height = none :=
  if_neg (Nat.not_le_of_lt h)

end Cursor

namespace Segment

/-- The segment holds just these headers, from its base on, and its tip is the last of them. -/
structure Stores (segment : Segment) (held : List Header) : Prop where
  headerAt : ∀ height : UInt32, segment.headerAt height.toNat =
    if segment.base.toNat ≤ height.toNat ∧ height.toNat < segment.base.toNat + held.length then
      held[height.toNat - segment.base.toNat]?
    else none
  push : ∀ (header : Header) (height : UInt32), (segment.push header).headerAt height.toNat =
    if height.toNat = segment.base.toNat + held.length then some header
    else segment.headerAt height.toNat
  tipHeight : ∀ tip, segment.tipHeight = some tip ↔
    held ≠ [] ∧ held.length < 2 ^ 32 ∧ segment.base.toNat + (held.length - 1) < 2 ^ 32 ∧
      tip = segment.base.toNat + (held.length - 1)
  tip : ∀ tip, segment.tipHeight = some tip →
    ∃ top, segment.tip = some top ∧ top.height = tip ∧ held.getLast? = some top.header
  no_tip : segment.tipHeight = none → segment.tip = none

/-- Where the look-ups from a cursor lead. Those by height see nothing above it, those by steps end at the base,
and only where the base is genesis do they end without a fault. -/
structure Navigates (segment : Segment) (cursor : Cursor) : Prop where
  back : ∀ count, segment.base.toNat + count ≤ cursor.height → ∃ found,
    cursor.back? count = some found ∧ cursor.ancestor? (cursor.height - count) = some found
  back_none : ∀ count, cursor.back? count = none ↔ cursor.height < segment.base.toNat + count
  above : ∀ height, cursor.height < height → cursor.ancestor? height = none
  previous_some : ∀ found, cursor.previous = .ok (some found) ↔ cursor.previous? = some found
  previous_none : cursor.previous = .ok none ↔ cursor.height = 0
  previous_error : ∀ error, cursor.previous = .error error ↔
    cursor.height = segment.base.toNat ∧ 0 < segment.base.toNat ∧
      error = .missingAncestor (cursor.height - 1)

variable {segment : Segment} {cursor found : Cursor} {height count : Nat} {header : Header}

section Store

/-- A push changes nothing at the heights that are held. -/
theorem headerAt_push_of_held (next : Header) (h : segment.headerAt height = some header) :
    (segment.push next).headerAt height = some header := by
  have hBelow : height < segment.base.toNat + segment.headers.size := by
    unfold headerAt at h
    split at h
    next hHeld =>
      obtain ⟨hIndex, _⟩ := Array.getElem?_eq_some_iff.mp h
      omega
    next => cases h
  rw [headerAt_push, if_neg (by omega)]
  exact h

/-- Nor do any number of pushes. -/
theorem headerAt_foldl_push_of_held (pushed : List Header) (h : segment.headerAt height = some header) :
    (pushed.foldl push segment).headerAt height = some header := by
  induction pushed generalizing segment with
  | nil => exact h
  | cons next rest ih => exact ih (headerAt_push_of_held next h)

/-- A segment stores the headers of its array. Its look-up does not go by the array alone, since a
height may be above the last one or below the base. -/
theorem stores_toList (segment : Segment) : segment.Stores segment.headers.toList where
  headerAt height := by
    have hHeight : height.toNat ≤ maxHeight := Nat.le_of_lt_succ height.toNat_lt
    rw [Segment.headerAt, Array.getElem?_toList, Array.length_toList]
    by_cases hBase : segment.base.toNat ≤ height.toNat
    · by_cases hSize : height.toNat < segment.base.toNat + segment.headers.size
      · rw [if_pos ⟨hHeight, hBase⟩, if_pos ⟨hBase, hSize⟩]
      · rw [if_pos ⟨hHeight, hBase⟩, if_neg (fun hHeld => hSize hHeld.2), Array.getElem?_eq_none]
        omega
    · rw [if_neg (fun hHeld => hBase hHeld.2), if_neg (fun hHeld => hBase hHeld.1)]
  push header height := by
    have hHeight : height.toNat ≤ maxHeight := Nat.le_of_lt_succ height.toNat_lt
    rw [headerAt_push, Array.length_toList]
    simp only [hHeight, true_and]
  tipHeight tip := by
    have hHeld : segment.headers.toList ≠ [] ↔ 0 < segment.headers.size := by
      rw [← Array.length_toList, List.length_pos_iff]
    rw [tipHeight_eq_some_iff, hHeld, Array.length_toList, maxHeight]
    omega
  tip tip hTip := by
    obtain ⟨top, hTop, rfl⟩ := exists_tip hTip
    obtain ⟨_, hMax, hSize, hBase⟩ := tipHeight_eq_some_iff.mp hTip
    have hHeader := headerAt_cursor (tip_eq_some_iff.mp hTop).2
    rw [headerAt_eq_getElem? hBase hMax] at hHeader
    have hLast : top.height - segment.base.toNat = segment.headers.size - 1 := by omega
    rw [hLast] at hHeader
    refine ⟨top, hTop, rfl, ?_⟩
    rw [List.getLast?_eq_getElem?, Array.getElem?_toList, Array.length_toList]
    exact hHeader
  no_tip hTip := by
    rw [tip, hTip]
    rfl

end Store

section Steps

/-- So many steps back lead to the header of that much lower height, if the segment reaches down to it. -/
theorem back?_eq_some_iff (hView : cursor.view = segment.view) :
    cursor.back? count = some found ↔
      found.view = segment.view ∧ found.height + count = cursor.height := by
  induction count generalizing cursor with
  | zero =>
      rw [Cursor.back?, Option.some.injEq]
      constructor
      · rintro rfl
        exact ⟨hView, rfl⟩
      · rintro ⟨hFound, hHeight⟩
        exact at?_unique hView hFound hHeight.symm
  | succ count ih =>
      rw [Cursor.back?, Option.bind_eq_some_iff]
      constructor
      · rintro ⟨previous, hPrevious, hBack⟩
        obtain ⟨hSame, hBelow⟩ := Cursor.previous?_eq_some_iff.mp hPrevious
        obtain ⟨hFound, hHeight⟩ := (ih (hSame.trans hView)).mp hBack
        exact ⟨hFound, by omega⟩
      · rintro ⟨hFound, hHeight⟩
        have hBase := base_le_cursor hFound
        -- What is found lies lower still, so the predecessor is held.
        obtain ⟨header, hHeader⟩ := exists_headerAt_below hView
          (show segment.base.toNat ≤ found.height + count by omega) (by omega)
        have hPrevious : (⟨segment.view, found.height + count, header, hHeader⟩ : Cursor).view =
            segment.view := rfl
        exact ⟨_, Cursor.previous?_eq_some_iff.mpr ⟨hView.symm, hHeight⟩, (ih hPrevious).mpr ⟨hFound, rfl⟩⟩

/-- Going back one by one ends at the base. -/
theorem back?_eq_none_iff (hView : cursor.view = segment.view) :
    cursor.back? count = none ↔ cursor.height < segment.base.toNat + count := by
  rw [Option.eq_none_iff_forall_ne_some]
  constructor
  · intro hNone
    by_contra hReach
    obtain ⟨header, hHeader⟩ := exists_headerAt_below hView
      (show segment.base.toNat ≤ cursor.height - count by omega) (Nat.sub_le _ _)
    refine hNone ⟨segment.view, cursor.height - count, header, hHeader⟩ ?_
    exact (back?_eq_some_iff hView).mpr ⟨rfl, Nat.sub_add_cancel (by omega)⟩
  · intro hShort found hBack
    obtain ⟨hFound, hHeight⟩ := (back?_eq_some_iff hView).mp hBack
    have hBase := base_le_cursor hFound
    omega

/-- Look-ups by height and by steps lead to the same cursors within the segment. -/
theorem navigates_of_view (hView : cursor.view = segment.view) : segment.Navigates cursor where
  back count hReach := by
    obtain ⟨found, hBack⟩ := Option.ne_none_iff_exists'.mp
      fun hNone => Nat.not_le_of_lt ((back?_eq_none_iff hView).mp hNone) hReach
    obtain ⟨hFound, hHeight⟩ := (back?_eq_some_iff hView).mp hBack
    refine ⟨found, hBack, Cursor.ancestor?_eq_some_iff.mpr ⟨Nat.sub_le _ _, ?_, ?_⟩⟩
    · exact hFound.trans hView.symm
    · exact (Nat.sub_eq_of_eq_add hHeight.symm).symm
  back_none _ := back?_eq_none_iff hView
  above _ h := Cursor.ancestor?_of_lt h
  previous_some _ := Cursor.previous_eq_some_iff.trans Cursor.previous?_eq_some_iff.symm
  previous_none := Cursor.previous_eq_none_iff
  previous_error error := by
    have hBase := base_le_cursor hView
    rw [Cursor.previous_eq_error_iff, hView]
    constructor
    · rintro ⟨height, hHeight, hMissing, rfl⟩
      have hUnder := (headerAt_eq_none_iff hView (by omega)).mp hMissing
      refine ⟨by omega, by omega, ?_⟩
      rw [hHeight, Nat.add_sub_cancel]
    · rintro ⟨hHeight, hPositive, rfl⟩
      exact ⟨cursor.height - 1, by omega, headerAt_of_lt_base (by omega), rfl⟩

end Steps

theorem view_eq_ofArray (hBase : segment.base = 0) : segment.view = View.ofArray segment.headers := by
  rw [view, View.ofArray]
  congr 1
  funext height
  simp [headerAt, hBase]

/-- However a segment was put together, it is a store of all headers it was given, and its cursors lead through
them. From genesis on it is the view of a plain list. -/
theorem stores_foldl_push (base : UInt32) (headers : Array Header) (pushed : List Header) :
    (pushed.foldl push ⟨base, headers⟩).base = base ∧
    (pushed.foldl push ⟨base, headers⟩).Stores (headers.toList ++ pushed) ∧
    (∀ height header, headerAt ⟨base, headers⟩ height = some header →
      (pushed.foldl push ⟨base, headers⟩).headerAt height = some header) ∧
    (∀ height cursor, (pushed.foldl push ⟨base, headers⟩).at? height = some cursor →
      cursor.height = height ∧ (pushed.foldl push ⟨base, headers⟩).Navigates cursor) ∧
    (base = 0 → (pushed.foldl push ⟨base, headers⟩).view =
      View.ofArray (headers.toList ++ pushed).toArray) := by
  have hAppend := foldl_push ⟨base, headers⟩ pushed
  have hHeaders : (pushed.foldl push ⟨base, headers⟩).headers.toList = headers.toList ++ pushed := by
    rw [hAppend, append, Array.toList_append]
  have hBase : (pushed.foldl push ⟨base, headers⟩).base = base := by
    rw [hAppend, append]
  refine ⟨hBase, ?_, ?_, ?_, ?_⟩
  · rw [← hHeaders]
    exact stores_toList _
  · intro height header hHeld
    exact headerAt_foldl_push_of_held pushed hHeld
  · intro height cursor hCursor
    obtain ⟨hView, hHeight⟩ := View.at?_eq_some_iff.mp hCursor
    exact ⟨hHeight, navigates_of_view hView⟩
  · intro hGenesis
    rw [← hHeaders, view_eq_ofArray (hBase.trans hGenesis)]

def threeFromTen : Segment :=
  [{ time := 1 }, { time := 2 }].foldl push ⟨10, #[{ time := 0 }]⟩

def threeFromTenTop : Cursor where
  view := threeFromTen.view
  height := 12
  header := { time := 2 }
  held := rfl

/-- From the third header one can go back two steps, and no third. -/
theorem stores_foldl_push_threeFromTen :
    threeFromTen.at? 12 = some threeFromTenTop ∧
      (∃ found, threeFromTenTop.back? 2 = some found ∧ threeFromTenTop.ancestor? 10 = some found) ∧
      threeFromTenTop.back? 3 = none := by
  have hTop : threeFromTen.at? 12 = some threeFromTenTop := by rfl
  obtain ⟨_, _, _, hCursors, _⟩ := stores_foldl_push 10 #[{ time := 0 }] [{ time := 1 }, { time := 2 }]
  have hNavigates := (hCursors 12 threeFromTenTop hTop).2
  exact ⟨hTop, hNavigates.back 2 (by decide), (hNavigates.back_none 3).mpr (by decide)⟩

end Segment

end PowRules

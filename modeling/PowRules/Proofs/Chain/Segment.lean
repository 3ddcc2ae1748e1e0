import PowRules.Chain
import PowRules.Proofs.Chain.View

/-! A segment with a tip holds exactly the heights from its base to its tip. A push adds one height and
is not seen from the headers below it. -/
namespace PowRules.Segment

variable {segment : Segment} {tip height : Nat}

/-- A segment has a tip when it holds a header, when its headers can be counted by a word and when the
last one is no higher than the last height. -/
theorem tipHeight_eq_some_iff :
    segment.tipHeight = some tip ↔
      segment.headers.size ≤ maxHeight ∧ tip ≤ maxHeight ∧
        tip + 1 = segment.base.toNat + segment.headers.size ∧ segment.base.toNat ≤ tip := by
  unfold tipHeight
  split
  next hNone =>
    constructor
    · intro h
      cases h
    · omega
  next hSome =>
    rw [Option.some.injEq]
    omega

theorem headerAt_cursor {cursor : Cursor} (hView : cursor.view = segment.view) :
    segment.headerAt cursor.height = some cursor.header := by
  have hHeld := cursor.held
  rw [hView] at hHeld
  exact hHeld

theorem headerAt_eq_getElem? (hBase : segment.base.toNat ≤ height) (hHeight : height ≤ maxHeight) :
    segment.headerAt height = segment.headers[height - segment.base.toNat]? :=
  if_pos ⟨hHeight, hBase⟩

/-- The held heights go from the base to the tip without a gap. -/
theorem exists_headerAt_iff (hTip : segment.tipHeight = some tip) :
    (∃ header, segment.headerAt height = some header) ↔
      segment.base.toNat ≤ height ∧ height ≤ tip := by
  obtain ⟨_, hMax, hSize, _⟩ := tipHeight_eq_some_iff.mp hTip
  by_cases hHeld : height ≤ maxHeight ∧ segment.base.toNat ≤ height
  · rw [headerAt_eq_getElem? hHeld.2 hHeld.1, ← Option.isSome_iff_exists, isSome_getElem?]
    omega
  · rw [headerAt, if_neg hHeld]
    constructor
    · rintro ⟨_, h⟩
      cases h
    · omega

theorem exists_at?_iff (hTip : segment.tipHeight = some tip) :
    (∃ cursor, segment.at? height = some cursor) ↔ segment.base.toNat ≤ height ∧ height ≤ tip := by
  rw [← exists_headerAt_iff hTip]
  constructor
  · rintro ⟨cursor, hCursor⟩
    obtain ⟨hView, rfl⟩ := View.at?_eq_some_iff.mp hCursor
    exact ⟨cursor.header, headerAt_cursor hView⟩
  · rintro ⟨header, hHeader⟩
    exact ⟨_, View.at?_of_headerAt (show segment.view.headerAt height = some header from hHeader)⟩

/-- A cursor of a segment is determined by its height. -/
theorem at?_unique {first second : Cursor} (hFirst : first.view = segment.view)
    (hSecond : second.view = segment.view) (hHeight : first.height = second.height) :
    first = second := by
  have hAt : segment.at? first.height = some first := View.at?_eq_some_iff.mpr ⟨hFirst, rfl⟩
  have hOther : segment.at? first.height = some second :=
    View.at?_eq_some_iff.mpr ⟨hSecond, hHeight.symm⟩
  exact Option.some.inj (hAt.symm.trans hOther)

theorem tip_eq_some_iff {cursor : Cursor} :
    segment.tip = some cursor ↔
      segment.tipHeight = some cursor.height ∧ cursor.view = segment.view := by
  unfold tip
  rw [Option.bind_eq_some_iff]
  constructor
  · rintro ⟨tip, hTip, hCursor⟩
    obtain ⟨hView, rfl⟩ := View.at?_eq_some_iff.mp hCursor
    exact ⟨hTip, hView⟩
  · rintro ⟨hTip, hView⟩
    exact ⟨cursor.height, hTip, View.at?_eq_some_iff.mpr ⟨hView, rfl⟩⟩

theorem exists_tip (hTip : segment.tipHeight = some tip) :
    ∃ cursor, segment.tip = some cursor ∧ cursor.height = tip := by
  obtain ⟨_, _, hSize, hBase⟩ := tipHeight_eq_some_iff.mp hTip
  obtain ⟨cursor, hCursor⟩ := (exists_at?_iff hTip).mpr ⟨hBase, Nat.le_refl tip⟩
  obtain ⟨hView, rfl⟩ := View.at?_eq_some_iff.mp hCursor
  exact ⟨cursor, tip_eq_some_iff.mpr ⟨hTip, hView⟩, rfl⟩

section Push

variable (header : Header)

/-- A header on top moves the tip up by one, as long as both its height and the count still fit. -/
theorem tipHeight_push (hTip : segment.tipHeight = some tip) (hHeight : tip < maxHeight)
    (hSize : segment.headers.size < maxHeight) :
    (segment.push header).tipHeight = some (tip + 1) := by
  obtain ⟨_, _, hLength, hBase⟩ := tipHeight_eq_some_iff.mp hTip
  rw [tipHeight_eq_some_iff]
  simp only [push, Array.size_push]
  omega

theorem headerAt_push_of_le (hTip : segment.tipHeight = some tip) (hHeight : height ≤ tip) :
    (segment.push header).headerAt height = segment.headerAt height := by
  obtain ⟨_, _, hSize, _⟩ := tipHeight_eq_some_iff.mp hTip
  rw [headerAt_push, if_neg]
  omega

theorem headerAt_push_top (hTip : segment.tipHeight = some tip) (hHeight : tip < maxHeight) :
    (segment.push header).headerAt (tip + 1) = some header := by
  obtain ⟨_, _, hSize, _⟩ := tipHeight_eq_some_iff.mp hTip
  rw [headerAt_push, if_pos]
  omega

/-- What is below the new header looks the same before and after. -/
theorem agreesUpTo_push (hTip : segment.tipHeight = some tip) (hHeight : height ≤ tip) :
    segment.view.AgreesUpTo (segment.push header).view height := by
  apply View.agreesUpTo_of_eq
  intro k hk
  exact (headerAt_push_of_le header hTip (Nat.le_trans hk hHeight)).symm

/-- A push leaves each cursor in place, now with the view of the longer segment. -/
theorem exists_at?_push (hTip : segment.tipHeight = some tip) {cursor : Cursor}
    (hCursor : segment.at? height = some cursor) :
    ∃ lifted, (segment.push header).at? height = some lifted ∧ cursor.Alike lifted ∧
      lifted.header = cursor.header := by
  have hHeight := ((exists_at?_iff hTip).mp ⟨cursor, hCursor⟩).2
  obtain ⟨hView, rfl⟩ := View.at?_eq_some_iff.mp hCursor
  have hHeld : (segment.push header).view.headerAt cursor.height = some cursor.header :=
    (headerAt_push_of_le header hTip hHeight).trans (headerAt_cursor hView)
  refine ⟨_, View.at?_of_headerAt hHeld, ⟨rfl, ?_⟩, rfl⟩
  rw [hView]
  exact agreesUpTo_push header hTip hHeight

end Push

end PowRules.Segment

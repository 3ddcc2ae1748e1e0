import PowRules.Proofs.Chain.Extend

/-! Which headers the count of an audit speaks for. Where all headers lie at heights, it speaks for each of them
above the first. Where headers lie above the last height the segment has no tip, and its audit is good without
looking at any header, those at proper heights included. -/
namespace PowRules.Segment

open Rules

/-- The count is that of all headers above the first, and each of these carries what is required on top of its
predecessor and comes late enough. -/
structure Covers (params : Params) (segment : Segment) (count : Nat) : Prop where
  size : segment.headers.size = 0 ∧ count = 0 ∨ segment.headers.size = count + 1
  follows : ∀ index header, segment.headers[index + 1]? = some header →
    ∃ prev : Cursor, prev.view = segment.view ∧ prev.height = segment.base.toNat + index ∧
      segment.headers[index]? = some prev.header ∧ Follows params prev header

/-- This many headers from the base on lie at heights, and their number is none above the last height
either. -/
def FitsHeights (base : UInt32) (size : Nat) : Prop :=
  size ≤ maxHeight ∧ base.toNat + size ≤ maxHeight + 1

variable {params : Params} {segment : Segment} {tip count : Nat}

/-- The base itself is a height, so it takes two headers to lie above the last one. -/
theorem fitsHeights_of_le_one {base : UInt32} {size : Nat} (h : size ≤ 1) : FitsHeights base size := by
  have hBase := base.toNat_lt
  unfold FitsHeights maxHeight
  omega

theorem fitsHeights_of_tipHeight (hTip : segment.tipHeight = some tip) :
    FitsHeights segment.base segment.headers.size := by
  obtain ⟨hSize, hMax, hLength, _⟩ := tipHeight_eq_some_iff.mp hTip
  exact ⟨hSize, by omega⟩

/-- Headers whose heights fit have a tip, unless there are none. -/
theorem exists_tipHeight (hFits : FitsHeights segment.base segment.headers.size)
    (hSize : 0 < segment.headers.size) : ∃ tip, segment.tipHeight = some tip := by
  obtain ⟨hNumber, hLast⟩ := hFits
  refine ⟨segment.base.toNat + (segment.headers.size - 1), ?_⟩
  rw [tipHeight_eq_some_iff]
  omega

theorem covers_zero_of_empty (h : segment.headers.size = 0) : segment.Covers params 0 := by
  refine ⟨.inl ⟨h, rfl⟩, ?_⟩
  intro index header hHeader
  obtain ⟨hIndex, _⟩ := Array.getElem?_eq_some_iff.mp hHeader
  omega

theorem audit_of_tipless (hTip : segment.tipHeight = none) : segment.audit params = .ok 0 := by
  rw [audit, hTip]

/-- An accepted segment with a tip is covered as a whole, with all headers but the first one counted. -/
theorem Accepted.covers (h : segment.Accepted params) (hTip : segment.tipHeight = some tip) :
    segment.Covers params (tip - segment.base.toNat) := by
  obtain ⟨_, hMax, hLength, hBase⟩ := tipHeight_eq_some_iff.mp hTip
  refine ⟨.inr (by omega), ?_⟩
  intro index header hHeader
  obtain ⟨hIndex, _⟩ := Array.getElem?_eq_some_iff.mp hHeader
  have hPlace : segment.base.toNat + index + 1 - segment.base.toNat = index + 1 := by omega
  have hHeld : segment.headerAt (segment.base.toNat + index + 1) = some header := by
    rw [headerAt_eq_getElem? (by omega) (by omega), hPlace]
    exact hHeader
  obtain ⟨prev, hView, hHeight, hFollows⟩ := h.exists_prev hTip hHeld (Nat.le_add_right _ _)
  refine ⟨prev, hView, hHeight, ?_, hFollows⟩
  have hPrev := headerAt_cursor hView
  rw [hHeight, headerAt_eq_getElem? (by omega) (by omega), Nat.add_sub_cancel_left] at hPrev
  exact hPrev

/-- The audit of a segment speaks for all its headers exactly when all of them lie at heights. -/
theorem covers_audit_iff (hAudit : segment.audit params = .ok count) :
    segment.Covers params count ↔ FitsHeights segment.base segment.headers.size := by
  cases hTip : segment.tipHeight with
  | some tip =>
      obtain ⟨rfl, hAccepted⟩ := (audit_eq_ok_iff hTip).mp hAudit
      exact iff_of_true (hAccepted.covers hTip) (fitsHeights_of_tipHeight hTip)
  | none =>
      obtain rfl := Except.ok.inj ((audit_of_tipless hTip).symm.trans hAudit)
      rcases Nat.eq_zero_or_pos segment.headers.size with hEmpty | hHeld
      · exact iff_of_true (covers_zero_of_empty hEmpty) (fitsHeights_of_le_one (by omega))
      · have hOver : ¬FitsHeights segment.base segment.headers.size := by
          intro hFits
          obtain ⟨tip, hSome⟩ := exists_tipHeight hFits hHeld
          cases hTip.symm.trans hSome
        refine iff_of_false ?_ hOver
        intro hCovers
        have hSize := hCovers.size
        exact hOver (fitsHeights_of_le_one (by omega))

/-- Pushing headers one by one puts them all on top. -/
theorem foldl_push (segment : Segment) (pushed : List Header) :
    pushed.foldl push segment = segment.append pushed := by
  induction pushed generalizing segment with
  | nil => exact (append_nil segment).symm
  | cons header rest ih => rw [List.foldl_cons, ih, append_cons]

/-- A good audit of a segment, however it was put together, speaks for all its headers exactly when all of them
lie at heights. Otherwise it has looked at none. -/
theorem covers_foldl_push_iff (params : Params) (base : UInt32) (headers : Array Header)
    (pushed : List Header) {count : Nat}
    (hAudit : (pushed.foldl push ⟨base, headers⟩).audit params = .ok count) :
    ((pushed.foldl push ⟨base, headers⟩).Covers params count ↔
      FitsHeights base (headers.size + pushed.length)) ∧
    (¬FitsHeights base (headers.size + pushed.length) → count = 0) := by
  have hSize : (pushed.foldl push ⟨base, headers⟩).headers.size = headers.size + pushed.length := by
    simp [foldl_push, append]
  have hBase : (pushed.foldl push ⟨base, headers⟩).base = base := by
    rw [foldl_push]
    rfl
  have hCovers := covers_audit_iff hAudit
  rw [hSize, hBase] at hCovers
  refine ⟨hCovers, ?_⟩
  intro hOver
  cases hTip : (pushed.foldl push ⟨base, headers⟩).tipHeight with
  | some tip =>
      have hFits := fitsHeights_of_tipHeight hTip
      rw [hSize, hBase] at hFits
      exact absurd hFits hOver
  | none => exact (Except.ok.inj ((audit_of_tipless hTip).symm.trans hAudit)).symm

def lateStep : Params :=
  { Params.regtest with earlyEnd := 0xfffffffe }

/-- The last two heights, ten minutes apart. -/
theorem covers_foldl_push_iff_lastHeights :
    ([{ time := 1540000600, bits := 0x207fffff }].foldl push
      ⟨0xfffffffe, #[{ time := 1540000000, bits := 0x207fffff }]⟩).audit lateStep = .ok 1 ∧
    ([{ time := 1540000600, bits := 0x207fffff }].foldl push
      ⟨0xfffffffe, #[{ time := 1540000000, bits := 0x207fffff }]⟩).Covers lateStep 1 := by
  have hAudit : ([{ time := 1540000600, bits := 0x207fffff }].foldl push
      ⟨0xfffffffe, #[{ time := 1540000000, bits := 0x207fffff }]⟩).audit lateStep = .ok 1 := by rfl
  have hFits : FitsHeights 0xfffffffe 2 := ⟨by decide, by decide⟩
  exact ⟨hAudit, (covers_foldl_push_iff lateStep _ _ _ hAudit).1.mpr hFits⟩

/-- Three headers of one time, the third of which lies above the last height. -/
def overTheTop : Segment :=
  [{ time := 1540000000, bits := 0x207fffff }].foldl push
    ⟨0xfffffffe, #[{ time := 1540000000, bits := 0x207fffff },
      { time := 1540000000, bits := 0x207fffff }]⟩

def overTheTopFirst : Cursor where
  view := overTheTop.view
  height := 0xfffffffe
  header := { time := 1540000000, bits := 0x207fffff }
  held := rfl

/-- The second header, at the last height, comes too early, and the audit is good all the same. -/
theorem not_covers_overTheTop :
    overTheTop.audit lateStep = .ok 0 ∧ ¬overTheTop.Covers lateStep 0 ∧
      overTheTop.at? 0xfffffffe = some overTheTopFirst ∧
      overTheTop.headerAt 0xffffffff = some { time := 1540000000, bits := 0x207fffff } ∧
      (stored lateStep overTheTopFirst { time := 1540000000, bits := 0x207fffff }).verdict =
        .error (.tooEarly 1540000000 1540000480) := by
  refine ⟨by rfl, ?_, by rfl, by rfl, by rfl⟩
  intro hCovers
  have hSize := hCovers.size
  have hThree : overTheTop.headers.size = 3 := by rfl
  omega

end PowRules.Segment

import PowRules.Proofs.Chain.Audit

/-! What is lost when the headers below some height are not in view. Each required target is the same as on
the whole segment, or a missing header is reported. So an audit of the upper part finds no fault that an
audit of the whole does not find, missing headers apart. -/
namespace PowRules.Segment

open Rules

/-- The headers from a height on, at the heights they have. -/
def startingAt (segment : Segment) (start : UInt32) : Segment where
  base := start
  headers := segment.headers.extract (start.toNat - segment.base.toNat)

variable {params : Params} {segment : Segment} {start : UInt32} {tip count height : Nat}

/-- The upper part holds the same headers at the same heights, and none below its start. -/
theorem headerAt_startingAt (hStart : segment.base.toNat ≤ start.toNat) :
    (segment.startingAt start).headerAt height =
      if start.toNat ≤ height then segment.headerAt height else none := by
  unfold headerAt startingAt
  by_cases hLow : start.toNat ≤ height
  · have hBase : segment.base.toNat ≤ height := Nat.le_trans hStart hLow
    have hOffset : start.toNat - segment.base.toNat + (height - start.toNat) =
        height - segment.base.toNat := by omega
    simp only [hLow, hBase, and_true, if_true, Array.getElem?_extract, hOffset, Nat.min_self]
    split
    · split
      next => rfl
      next hAbove => exact (Array.getElem?_eq_none (by omega)).symm
    · rfl
  · simp only [hLow, and_false, if_false]

theorem tipHeight_startingAt (hTip : segment.tipHeight = some tip)
    (hStart : segment.base.toNat ≤ start.toNat) (hBelow : start.toNat ≤ tip) :
    (segment.startingAt start).tipHeight = some tip := by
  obtain ⟨hSize, hMax, hLength, _⟩ := tipHeight_eq_some_iff.mp hTip
  rw [tipHeight_eq_some_iff]
  simp only [startingAt, Array.size_extract, Nat.min_self]
  omega

theorem headerAt_of_startingAt (hStart : segment.base.toNat ≤ start.toNat) {header : Header}
    (h : (segment.startingAt start).headerAt height = some header) :
    segment.headerAt height = some header := by
  rw [headerAt_startingAt hStart] at h
  split at h
  · exact h
  · cases h

/-- What is seen from a header of the upper part is seen from the same header of the whole. -/
theorem coveredBy_of_startingAt {prev whole : Cursor} (hStart : segment.base.toNat ≤ start.toNat)
    (hView : prev.view = (segment.startingAt start).view) (hWhole : whole.view = segment.view)
    (hHeight : prev.height = whole.height) : prev.CoveredBy True whole := by
  refine ⟨hHeight, View.coveredUpTo_of_held ?_⟩
  intro k header _ hHeader
  rw [hView] at hHeader
  rw [hWhole]
  exact headerAt_of_startingAt hStart hHeader

/-- A header of an accepted segment passes on the upper part too, or a missing header is reported. -/
theorem Accepted.auditOne_startingAt (h : segment.Accepted params)
    (hTip : segment.tipHeight = some tip) (hStart : segment.base.toNat ≤ start.toNat) {prev : Cursor}
    {header : Header} (hView : prev.view = (segment.startingAt start).view)
    (hBase : segment.base.toNat ≤ prev.height)
    (hHeader : segment.headerAt (prev.height + 1) = some header) :
    auditOne params prev header = .ok () ∨
      ∃ missing, auditOne params prev header =
        .error ⟨prev.height + 1, .missingAncestor missing⟩ := by
  obtain ⟨whole, hWhole, hHeight, hFollows⟩ := h.exists_prev hTip hHeader hBase
  have hCovered := coveredBy_of_startingAt hStart hView hWhole hHeight.symm
  have hBoth : SameOrMissing True (· = ·) (stored params prev header).verdict
      (stored params whole header).verdict := stored_covered hCovered
  unfold auditOne
  rcases hBoth.missing_or_eq with ⟨missing, hMissing⟩ | hSame
  · rw [hMissing]
    exact .inr ⟨missing, rfl⟩
  · rw [hSame, stored_eq_ok_iff.mpr hFollows]
    exact .inl rfl

/-- An audit of the upper part of an accepted segment can only fail for want of a header. Step by step
the part sees a view with holes of what the whole sees, so a target is the same or cannot be computed.
-/
theorem Accepted.auditFrom_startingAt (h : segment.Accepted params)
    (hTip : segment.tipHeight = some tip) (hStart : segment.base.toNat ≤ start.toNat)
    (hBelow : start.toNat ≤ height) (hCount : height + count = tip) :
    auditFrom params (segment.startingAt start) count (height + 1) = .ok count ∨
      ∃ rejected missing, auditFrom params (segment.startingAt start) count (height + 1) =
        .error ⟨rejected, .missingAncestor missing⟩ := by
  induction count generalizing height with
  | zero => exact .inl rfl
  | succ count ih =>
      have hUpper := tipHeight_startingAt hTip hStart (by omega)
      obtain ⟨prev, hPrev⟩ := (exists_at?_iff hUpper).mpr ⟨hBelow, by omega⟩
      obtain ⟨candidate, hCandidate⟩ :=
        (exists_at?_iff hUpper).mpr ⟨Nat.le_succ_of_le hBelow, show height + 1 ≤ tip by omega⟩
      obtain ⟨hPrevView, rfl⟩ := View.at?_eq_some_iff.mp hPrev
      obtain ⟨hView, hHeight⟩ := View.at?_eq_some_iff.mp hCandidate
      have hHeader : segment.headerAt (prev.height + 1) = some candidate.header := by
        have hHeld := headerAt_cursor hView
        rw [hHeight, headerAt_startingAt hStart, if_pos (Nat.le_succ_of_le hBelow)] at hHeld
        exact hHeld
      rw [auditFrom_succ hPrev hCandidate]
      rcases h.auditOne_startingAt hTip hStart hPrevView (Nat.le_trans hStart hBelow) hHeader with
        hGood | ⟨missing, hMissing⟩
      · rw [hGood]
        rcases ih (Nat.le_succ_of_le hBelow) (by omega) with hRest | ⟨rejected, missing, hRest⟩
        · rw [hRest]
          exact .inl rfl
        · rw [hRest]
          exact .inr ⟨rejected, missing, rfl⟩
      · rw [hMissing]
        exact .inr ⟨_, missing, rfl⟩

/-- A view that holds only some headers of another one requires the same as that one, or reports a missing
header. So the upper part of an accepted segment passes an audit too, or it stops at a missing header. -/
theorem missing_or_eq_of_partial (params : Params) :
    (∀ (part whole : View) (height : Nat) (left right : Cursor), part.at? height = some left →
      whole.at? height = some right →
      (∀ k header, k ≤ height → part.headerAt k = some header → whole.headerAt k = some header) →
      ∀ time,
        (∃ missing, requiredTarget params (some left) time = .error (.missingAncestor missing)) ∨
          requiredTarget params (some left) time = requiredTarget params (some right) time) ∧
    ∀ (segment : Segment) (tip checked : Nat) (start : UInt32), segment.base = 0 →
      segment.tipHeight = some tip → segment.audit params = .ok checked → start.toNat ≤ tip →
      (segment.startingAt start).audit params = .ok (tip - start.toNat) ∨
        ∃ rejected missing, (segment.startingAt start).audit params =
          .error ⟨rejected, .missingAncestor missing⟩ := by
  constructor
  · intro part whole height left right hLeft hRight hHeld time
    obtain ⟨rfl, rfl⟩ := View.at?_eq_some_iff.mp hLeft
    obtain ⟨rfl, hHeight⟩ := View.at?_eq_some_iff.mp hRight
    have hCovered : left.CoveredBy True right := ⟨hHeight.symm, View.coveredUpTo_of_held hHeld⟩
    exact (requiredTarget_covered hCovered params time).missing_or_eq
  · intro segment tip checked start hBase hTip hAudit hBelow
    have hAccepted := ((audit_eq_ok_iff hTip).mp hAudit).2
    have hStart : segment.base.toNat ≤ start.toNat := by
      rw [hBase]
      exact Nat.zero_le _
    unfold audit
    rw [tipHeight_startingAt hTip hStart hBelow]
    exact hAccepted.auditFrom_startingAt hTip hStart (Nat.le_refl _) (Nat.add_sub_of_le hBelow)

def slowOnTop : Segment where
  headers := #[
    { time := 1540000000, bits := 0x1e0fffff },
    { time := 1540000600, bits := 0x1e0fffff },
    { time := 1540001200, bits := 0x1e0fffff },
    { time := 1540002700, bits := 0x1e0fffff }]

def slowOnTopPart : Cursor where
  view := (slowOnTop.startingAt 1).view
  height := 1
  header := { time := 1540000600, bits := 0x1e0fffff }
  held := rfl

def slowOnTopWhole : Cursor where
  view := slowOnTop.view
  height := 1
  header := { time := 1540000600, bits := 0x1e0fffff }
  held := rfl

/-- A slow header needs no other one than its predecessor. One in time needs those back to genesis. -/
theorem missing_or_eq_of_partial_slowOnTop :
    slowOnTop.audit .testnet = .ok 3 ∧
      (slowOnTop.startingAt 2).audit .testnet = .ok 1 ∧
      (slowOnTop.startingAt 1).audit .testnet = .error ⟨2, .missingAncestor 0⟩ ∧
      (∀ time, (∃ missing,
          requiredTarget .testnet (some slowOnTopPart) time = .error (.missingAncestor missing)) ∨
        requiredTarget .testnet (some slowOnTopPart) time =
          requiredTarget .testnet (some slowOnTopWhole) time) ∧
      ∀ start : UInt32, start.toNat ≤ 3 →
        (slowOnTop.startingAt start).audit .testnet = .ok (3 - start.toNat) ∨
          ∃ rejected missing, (slowOnTop.startingAt start).audit .testnet =
            .error ⟨rejected, .missingAncestor missing⟩ := by
  obtain ⟨hRequired, hUpper⟩ := missing_or_eq_of_partial .testnet
  have hAudit : slowOnTop.audit .testnet = .ok 3 := by rfl
  have hPart : (slowOnTop.startingAt 1).view.at? 1 = some slowOnTopPart := by rfl
  have hWhole : slowOnTop.view.at? 1 = some slowOnTopWhole := by rfl
  have hStart : slowOnTop.base.toNat ≤ (1 : UInt32).toNat := by decide
  refine ⟨hAudit, by rfl, by rfl, ?_, ?_⟩
  · exact hRequired _ _ 1 _ _ hPart hWhole fun k header _ => headerAt_of_startingAt hStart
  · intro start hBelow
    exact hUpper slowOnTop 3 3 start rfl (by rfl) hAudit hBelow

end PowRules.Segment

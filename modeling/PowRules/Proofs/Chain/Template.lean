import PowRules.Proofs.Chain.Audit
import PowRules.Proofs.Retarget.Required

/-! A header built from the required bits is accepted on top of the segment, as is one with other bits
for the same target, and no other header of that time is. -/
namespace PowRules.Segment

open Rules

variable {params : Params} {segment : Segment} {tip : Cursor} {header : Header} {checked : Nat}

/-- On top of an accepted segment an audit only looks at the new header. -/
theorem audit_push_of_ok (hTip : segment.tip = some tip) (hAudit : segment.audit params = .ok checked)
    (hHeight : tip.height < maxHeight) :
    (segment.push header).audit params =
      (auditOne params tip header).map fun _ => checked + 1 := by
  obtain ⟨hTipHeight, _⟩ := tip_eq_some_iff.mp hTip
  have hAccepted := ((audit_eq_ok_iff hTipHeight).mp hAudit).2
  have hPushed := tipHeight_push header hTipHeight hHeight (hAccepted.size_lt hTipHeight)
  rw [audit_push header hTip hPushed, hAudit]
  rfl

/-- On top of an audited segment, only the new header is left to check. -/
theorem audit_push_eq_ok_iff (hTip : segment.tip = some tip)
    (hAudit : segment.audit params = .ok checked) (hHeight : tip.height < maxHeight) :
    (segment.push header).audit params = .ok (checked + 1) ↔ Follows params tip header := by
  rw [audit_push_of_ok hTip hAudit hHeight, map_eq_ok_iff, ← auditOne_eq_ok_iff]
  constructor
  · rintro ⟨_, hOne, _⟩
    exact hOne
  · intro hOne
    exact ⟨(), hOne, rfl⟩

theorem follows_iff_of_required {target : Target}
    (hRequired : requiredTarget params (some tip) header.time = .ok target)
    (hTime : tip.time.toNat + minSpacing ≤ header.time.toNat) :
    Follows params tip header ↔ Target.ofBits header.bits = .ok target := by
  constructor
  · rintro ⟨⟨other, hOther, hBits⟩, _⟩
    cases hRequired.symm.trans hOther
    exact hBits
  · intro hBits
    exact ⟨⟨target, hRequired, hBits⟩, hTime⟩

/-- A template with nonzero bits is accepted, whatever its other fields, and on this time only its
target is. Its bits are zero only where scaling takes the target to zero, and then no header is. -/
theorem audit_push_template {time bits : UInt32} (hFloors : params.FloorsExact)
    (hTip : segment.tip = some tip) (hAudit : segment.audit params = .ok checked)
    (hTime : tip.time.toNat + minSpacing ≤ time.toNat)
    (hBits : requiredBits params tip time = .ok bits) :
    (bits ≠ 0 → ∃ target, Target.ofBits bits = .ok target ∧
      ∀ header : Header, header.time = time →
        ((segment.push header).audit params = .ok (checked + 1) ↔
          Target.ofBits header.bits = .ok target) ∧
        (Target.ofBits header.bits = .ok target → ∀ hasher : Hasher,
          ((header.digestCall params).run hasher).value ≤ target.value →
            (accept params tip header hasher).verdict = .ok ())) ∧
    (bits = 0 → Underflows params tip ∧
      ∀ header : Header, header.time = time →
        (segment.push header).audit params =
          .error ⟨tip.height + 1, .wrongBits 0 header.bits⟩ ∧
        ∀ hasher : Hasher, (accept params tip header hasher).verdict ≠ .ok ()) := by
  obtain ⟨target, hRequired, rfl, hCases⟩ := requiredBits_cases hFloors hBits
  have hHeight := (requiredTarget_eq_ok_iff.mp hRequired).1
  constructor
  · intro hNonzero
    obtain ⟨_, hTemplate⟩ | ⟨hZero, _⟩ := hCases
    · refine ⟨target, hTemplate, ?_⟩
      rintro header rfl
      have hFollows := follows_iff_of_required hRequired hTime
      constructor
      · rw [audit_push_eq_ok_iff hTip hAudit hHeight]
        exact hFollows
      · intro hCarried hasher hDigest
        rw [accept_eq_ok_iff, proofOfWork_eq_ok_iff]
        exact ⟨⟨target, hCarried, hDigest⟩, hFollows.mpr hCarried⟩
    · exact absurd hZero hNonzero
  · intro hZero
    obtain ⟨hNonzero, _⟩ | ⟨_, hValue, hUnder⟩ := hCases
    · exact absurd hZero hNonzero
    · refine ⟨hUnder, ?_⟩
      rintro header rfl
      have hWrong : Target.ofBits header.bits ≠ .ok target :=
        Target.not_ofBits_of_value_eq_zero hValue
      constructor
      · rw [audit_push_of_ok hTip hAudit hHeight, auditOne, stored_of_wrongBits hRequired hWrong,
          hZero]
        rfl
      · intro hasher hAccept
        have hFollows := (accept_eq_ok_iff.mp hAccept).2
        exact hWrong ((follows_iff_of_required hRequired hTime).mp hFollows)

/-- The test network with a retarget at each block, to an expected time of four seconds. -/
def eachBlock : Params := { Params.testnet with timespan := 4, spacing := 4 }

def single (bits : UInt32) : Segment where
  headers := #[{ time := 1540000000, bits }]

def singleTip (bits : UInt32) : Cursor where
  view := (single bits).view
  height := 0
  header := { time := 1540000000, bits }
  held := rfl

/-- On top of a genesis with the floor a header needs the floor. On top of the least target an interval
of one block asks for zero, which no bits stand for. -/
theorem audit_push_template_single :
    (∀ header : Header, header.time = 1540000600 →
      (((single 0x1e0fffff).push header).audit .testnet = .ok 1 ↔
        Target.ofBits header.bits = .ok Params.testnet.earlyFloor)) ∧
    ∀ header : Header, header.time = 1540000600 →
      ((single 0x03000001).push header).audit eachBlock =
        .error ⟨1, .wrongBits 0 header.bits⟩ := by
  have hFloors := Params.floorsExact_ofNetwork .testnet
  constructor
  · have hTip : (single 0x1e0fffff).tip = some (singleTip 0x1e0fffff) := by rfl
    have hAudit : (single 0x1e0fffff).audit .testnet = .ok 0 := by rfl
    have hTime : (singleTip 0x1e0fffff).time.toNat + minSpacing ≤ (1540000600 : UInt32).toNat := by
      decide
    have hBits : requiredBits .testnet (singleTip 0x1e0fffff) 1540000600 = .ok 0x1e0fffff := by rfl
    have hFloor : Target.ofBits 0x1e0fffff = .ok Params.testnet.earlyFloor := by rfl
    obtain ⟨target, hTarget, hAll⟩ :=
      (audit_push_template hFloors hTip hAudit hTime hBits).1 (by decide)
    have hSame : target = Params.testnet.earlyFloor := Except.ok.inj (hTarget.symm.trans hFloor)
    intro header hHeader
    rw [← hSame]
    exact (hAll header hHeader).1
  · have hTip : (single 0x03000001).tip = some (singleTip 0x03000001) := by rfl
    have hAudit : (single 0x03000001).audit eachBlock = .ok 0 := by rfl
    have hTime : (singleTip 0x03000001).time.toNat + minSpacing ≤ (1540000600 : UInt32).toNat := by
      decide
    have hBits : requiredBits eachBlock (singleTip 0x03000001) 1540000600 = .ok 0 := by rfl
    have hEachFloors : eachBlock.FloorsExact := ⟨hFloors.late, hFloors.early⟩
    intro header hHeader
    exact (((audit_push_template hEachFloors hTip hAudit hTime hBits).2 rfl).2 header hHeader).1

end PowRules.Segment

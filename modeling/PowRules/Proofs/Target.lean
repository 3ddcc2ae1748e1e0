import PowRules.Proofs.Compact
import PowRules.Retarget

/-! A header can carry a target exactly when the target is positive, has at most 256 bits and is not
changed by rounding. A scaled target is of this kind unless scaling takes it to zero. -/
namespace PowRules

namespace Target

/-- A target that some header's bits stand for. -/
structure IsExact (target : Target) : Prop where
  pos : 0 < target.value
  lt_limit : target.value < Compact.limit
  rounded_eq : target.rounded = target

theorem rounded_value (target : Target) : target.rounded.value = Compact.round target.value := rfl

theorem ext_value {first second : Target} (h : first.value = second.value) : first = second := by
  cases first
  cases second
  exact congrArg Target.mk h

/-- Bits stand for exact targets only. -/
theorem isExact_of_ofBits {bits : UInt32} {target : Target} (h : ofBits bits = .ok target) :
    target.IsExact := by
  obtain ⟨_, hExpand, hPositive, hLimit⟩ :=
    Compact.decode?_eq_some_iff.mp (ofBits_eq_ok_iff.mp h)
  refine ⟨hPositive, hLimit, ext_value ?_⟩
  rw [rounded_value, ← hExpand]
  exact Compact.round_expand bits

/-- An exact target is read back from its bits. -/
theorem IsExact.ofBits_bits {target : Target} (h : target.IsExact) :
    ofBits target.bits = .ok target := by
  rw [ofBits_eq_ok_iff, bits, Compact.decode?_encode h.pos h.lt_limit, ← rounded_value, h.rounded_eq]

/-- Rounding makes a target exact, unless it is zero or too great. -/
theorem isExact_rounded {target : Target} (hPositive : 0 < target.value)
    (hLimit : target.value < Compact.limit) : target.rounded.IsExact := by
  have hBits : ofBits target.bits = .ok target.rounded := by
    rw [ofBits_eq_ok_iff]
    exact Compact.decode?_encode hPositive hLimit
  exact isExact_of_ofBits hBits

/-- Only the zero target has the word zero. -/
theorem bits_eq_zero_iff {target : Target} (h : target.value < Compact.limit) :
    target.bits = 0 ↔ target.value = 0 :=
  Compact.encode_eq_zero_iff (Compact.isEncodable_of_lt_limit h)

/-- No word stands for zero, so nothing can carry an underflow. -/
theorem not_ofBits_of_value_eq_zero {bits : UInt32} {target : Target} (h : target.value = 0) :
    ofBits bits ≠ .ok target := by
  intro hBits
  have hPositive := (isExact_of_ofBits hBits).pos
  omega

theorem capped_value (target cap : Target) :
    (target.capped cap).value = min target.value cap.value := by
  unfold capped
  split <;> omega

section Rescale

variable {target cap : Target} {actual expected : Nat}

/-- What rescaling keeps of the product before it is rounded. -/
theorem rescale_value :
    (target.rescale actual expected cap).value =
      Compact.round (min (target.value * actual / max expected 1) cap.value) := by
  rw [rescale, rounded_value, capped_value]
  rfl

/-- The cap holds after rounding, since rounding goes down. -/
theorem rescale_le : (target.rescale actual expected cap).value ≤ cap.value := by
  rw [rescale_value]
  exact Nat.le_trans (Compact.round_le _) (Nat.min_le_right _ _)

/-- A target that is its own cap stays the same, unless it is scaled down. -/
theorem rescale_eq_self_iff (hExact : target.IsExact) (hExpected : 0 < expected) :
    target.rescale actual expected target = target ↔ expected ≤ actual := by
  have hDivisor : max expected 1 = expected := Nat.max_eq_left hExpected
  constructor
  · intro hSame
    by_contra hLess
    have hDown : target.value * actual / expected < target.value := by
      rw [Nat.div_lt_iff_lt_mul hExpected]
      exact Nat.mul_lt_mul_of_pos_left (Nat.lt_of_not_le hLess) hExact.pos
    have hRound := Compact.round_le (min (target.value * actual / expected) target.value)
    have hValue := congrArg Target.value hSame
    rw [rescale_value, hDivisor] at hValue
    omega
  · intro hEnough
    have hUp : target.value ≤ target.value * actual / expected := by
      rw [Nat.le_div_iff_mul_le hExpected]
      exact Nat.mul_le_mul_left _ hEnough
    apply ext_value
    rw [rescale_value, hDivisor, Nat.min_eq_right hUp, ← rounded_value, hExact.rounded_eq]

/-- Rounding alone takes nothing to zero. It is the division that underflows. -/
theorem rescale_eq_zero_iff (hCap : cap.IsExact) :
    (target.rescale actual expected cap).value = 0 ↔
      target.value * actual / max expected 1 = 0 := by
  have hPositive := hCap.pos
  have hLimit := hCap.lt_limit
  have hEncodable : Compact.IsEncodable
      (min (target.value * actual / max expected 1) cap.value) :=
    Compact.isEncodable_of_lt_limit (by omega)
  have hLower := Compact.round_le (min (target.value * actual / max expected 1) cap.value)
  rw [rescale_value]
  constructor
  · intro hZero
    by_contra hNonzero
    have hRound := Compact.round_pos hEncodable (by omega)
    omega
  · intro hZero
    omega

/-- A scaled target can be carried unless it has underflowed. -/
theorem isExact_rescale (hCap : cap.IsExact)
    (hPositive : 0 < (target.rescale actual expected cap).value) :
    (target.rescale actual expected cap).IsExact := by
  have hCapPos := hCap.pos
  have hLimit := hCap.lt_limit
  have hQuotient : target.value * actual / max expected 1 ≠ 0 := by
    intro hZero
    rw [← rescale_eq_zero_iff hCap] at hZero
    omega
  have hValue : (((target.multiply actual).divide expected).capped cap).value =
      min (target.value * actual / max expected 1) cap.value := capped_value _ _
  exact isExact_rounded (by omega) (by omega)

end Rescale

end Target

/-- Both floors are targets that a header can carry. -/
structure Params.FloorsExact (params : Params) : Prop where
  late : params.lateFloor.IsExact
  early : params.earlyFloor.IsExact

theorem Params.FloorsExact.floorAt {params : Params} (h : params.FloorsExact) (height : Nat) :
    (params.floorAt height).IsExact := by
  unfold Params.floorAt
  split
  · exact h.late
  · exact h.early

theorem Params.floorsExact_ofNetwork (network : Network) : (ofNetwork network).FloorsExact := by
  have hMainLate : Target.ofBits 0x1b092489 = .ok mainnet.lateFloor := by rfl
  have hMainEarly : Target.ofBits 0x1d00ffff = .ok mainnet.earlyFloor := by rfl
  have hTestEarly : Target.ofBits 0x1e0fffff = .ok testnet.earlyFloor := by rfl
  have hReg : Target.ofBits 0x207fffff = .ok regtest.lateFloor := by rfl
  cases network with
  | mainnet => exact ⟨Target.isExact_of_ofBits hMainLate, Target.isExact_of_ofBits hMainEarly⟩
  | testnet => exact ⟨Target.isExact_of_ofBits hMainEarly, Target.isExact_of_ofBits hTestEarly⟩
  | regtest => exact ⟨Target.isExact_of_ofBits hReg, Target.isExact_of_ofBits hReg⟩

end PowRules

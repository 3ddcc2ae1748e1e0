import Mathlib.Order.Bounds.Basic
import PowRules.Proofs.Retarget.Shield
import PowRules.Proofs.Target

/-! A scaled target is divided with a remainder, capped, and rounded to compact form. Of all values that a
word can carry it is still the greatest within the cap and the exact proportion. -/
namespace PowRules

namespace Compact

/-- Zero, or the number of some valid word. -/
def IsRepresentable (n : Nat) : Prop :=
  n = 0 ∨ ∃ bits, decode? bits = some n

theorem isRepresentable_round {n : Nat} (h : n < limit) : IsRepresentable (round n) := by
  rcases Nat.eq_zero_or_pos n with rfl | hPositive
  · exact .inl rfl
  · exact .inr ⟨encode n, decode?_encode hPositive h⟩

/-- Of the representable numbers up to `n`, rounding gives the greatest one. Zero counts as one of them,
since an underflow ends there. -/
theorem isGreatest_round {n : Nat} (h : n < limit) :
    IsGreatest {m | IsRepresentable m ∧ m ≤ n} (round n) := by
  constructor
  · exact ⟨isRepresentable_round h, round_le n⟩
  · rintro m ⟨rfl | ⟨bits, hBits⟩, hle⟩
    · exact Nat.zero_le _
    · obtain ⟨_, rfl, _⟩ := decode?_eq_some_iff.mp hBits
      exact expand_le_round (isEncodable_of_lt_limit h) hle

end Compact

namespace Target

/-- The values for a word, up to the cap, that are to the old one as `actual` to `expected` at most. -/
def fitting (old cap : Target) (actual : Int) (expected : Nat) : Set Nat :=
  {m | Compact.IsRepresentable m ∧ m ≤ cap.value ∧ (m : Int) * expected ≤ old.value * actual}

/-- Scaling, capping and rounding together give the greatest representable number within the quotient
and the cap. -/
theorem isGreatest_rescale {old cap : Target} {actual expected : Nat}
    (hCap : cap.value < Compact.limit) (hExpected : 0 < expected) :
    IsGreatest (old.fitting cap actual expected) (old.rescale actual expected cap).value := by
  have hFitting : old.fitting cap actual expected =
      {m | Compact.IsRepresentable m ∧
        m ≤ min (old.value * actual / max expected 1) cap.value} := by
    ext m
    have hDivided : m ≤ old.value * actual / expected ↔
        (m : Int) * expected ≤ old.value * actual := by
      rw [Nat.le_div_iff_mul_le hExpected]
      exact_mod_cast Iff.rfl
    simp only [fitting, Set.mem_ofPred_eq, Nat.max_eq_left (Nat.succ_le_of_lt hExpected), Nat.le_min,
      hDivided]
    exact and_congr_right fun _ => and_comm
  rw [hFitting, rescale_value]
  exact Compact.isGreatest_round (Nat.lt_of_le_of_lt (Nat.min_le_right _ _) hCap)

end Target

variable {params : Params} {prev : Cursor} {time : UInt32} {target : Target}

/-- At the start of an interval where bits are not kept, a required target is scaled from the one below
by the measured time. -/
theorem Required.exists_boundary (h : Required params prev time target)
    (hRegime : Regime.ofHeight params (prev.height + 1) = .interval)
    (hBoundary : (prev.height + 1) % params.interval = 0) (hKeeps : params.keepsBits = false) :
    ∃ first old, prev.ancestor (prev.height + 1 - params.interval) = .ok first ∧
      prev.target = .ok old ∧
        target = old.rescale (Interval.measuredTimespan params first prev).toNat
          params.timespan.toNat (params.floorAt (prev.height + 1)) := by
  cases h with
  | floorStep hStep => cases hRegime.symm.trans hStep
  | anchor hShield _ => exact absurd hRegime (Regime.ne_interval_of_shield? hShield)
  | slow _ hInside => exact absurd hBoundary hInside
  | regular _ hInside => exact absurd hBoundary hInside
  | copied _ hInside => exact absurd hBoundary hInside
  | kept _ _ _ hKept => cases hKeeps.symm.trans hKept
  | rescaled hRescales =>
      cases hRescales with
      | boundary _ _ hFirst _ hOld => exact ⟨_, _, hFirst, hOld, rfl⟩
      | shield hShield => exact absurd hRegime (Regime.ne_interval_of_shield? hShield)

/-- Above the anchored heights, a target required by a per-block retarget is scaled by the time between
its two windows. -/
theorem Required.exists_measures {shield : Shield} (h : Required params prev time target)
    (hRegime : (Regime.ofHeight params (prev.height + 1)).shield? = some shield)
    (hAnchor : ¬shield.IsAnchorHeight params (prev.height + 1)) :
    ∃ measured old, shield.Measures prev measured ∧ prev.target = .ok old ∧
      target = old.rescale (shield.adjusted measured).natAbs shield.expected params.earlyFloor := by
  have hNotInterval := Regime.ne_interval_of_shield? hRegime
  cases h with
  | floorStep hStep => exact absurd hStep (Regime.ne_floorStep_of_shield? hRegime)
  | anchor hShield hThere =>
      obtain rfl := Option.some.inj (hRegime.symm.trans hShield)
      exact absurd hThere hAnchor
  | slow hInterval => exact absurd hInterval hNotInterval
  | regular hInterval => exact absurd hInterval hNotInterval
  | copied hInterval => exact absurd hInterval hNotInterval
  | kept hInterval => exact absurd hInterval hNotInterval
  | rescaled hRescales =>
      cases hRescales with
      | boundary hInterval => exact absurd hInterval hNotInterval
      | shield hShield _ _ hFirst hLate hEarly hOld =>
          obtain rfl := Option.some.inj (hRegime.symm.trans hShield)
          exact ⟨_, _, ⟨_, _, _, hFirst, hLate, hEarly, rfl⟩, hOld, rfl⟩

/-- In a per-block retarget the exact dampened time, held within the bounds, may be cut to whole seconds. -/
theorem Shield.isGreatest_rescale (shield : Shield) (measured : Int) (old : Target) {cap : Target}
    (hCap : cap.value < Compact.limit) (hExpected : 0 < shield.expected) (hLeast : 0 ≤ shield.least) :
    IsGreatest
      (old.fitting cap
        (wholePart (max (shield.least : ℚ)
          (min (shield.greatest : ℚ) ((shield.expected : ℚ) + (measured - shield.expected) / 4))))
        shield.expected)
      (old.rescale (shield.adjusted measured).natAbs shield.expected cap).value := by
  have hAdjusted : ((shield.adjusted measured).natAbs : Int) = shield.adjusted measured :=
    Int.natAbs_of_nonneg (Int.le_trans hLeast low_le_clampBetween)
  rw [← adjusted_eq_wholePart hLeast, ← hAdjusted]
  exact Target.isGreatest_rescale hCap hExpected

/-- The bounds of the measured time are those of a quarter and of four times the whole, as integers. -/
theorem Interval.isGreatest_rescale {first : Cursor} {old cap : Target}
    (hCap : cap.value < Compact.limit) (hTimespan : 0 < params.timespan.toNat) :
    IsGreatest
      (old.fitting cap
        (max ((params.timespan.toNat / 4 : Nat) : Int)
          (min (4 * params.timespan.toNat) ((prev.time.toNat : Int) - first.time.toNat)))
        params.timespan.toNat)
      (old.rescale (measuredTimespan params first prev).toNat params.timespan.toNat cap).value := by
  have hMeasured : ((measuredTimespan params first prev).toNat : Int) =
      max ((params.timespan.toNat / 4 : Nat) : Int)
        (min (4 * params.timespan.toNat) ((prev.time.toNat : Int) - first.time.toNat)) := by
    rw [measuredTimespan,
      Int.toNat_of_nonneg (Int.le_trans (Int.natCast_nonneg _) low_le_clampBetween), clampBetween,
      Int.mul_comm 4]
  rw [← hMeasured]
  exact Target.isGreatest_rescale hCap hTimespan

/-- Each retarget is the greatest value for a word within its floor and the exact proportion of times. -/
theorem requiredTarget_isGreatest (hLate : params.lateFloor.value < Compact.limit)
    (hEarly : params.earlyFloor.value < Compact.limit) (hTimespan : 0 < params.timespan.toNat)
    (h : requiredTarget params (some prev) time = .ok target) :
    (Regime.ofHeight params (prev.height + 1) = .interval →
      (prev.height + 1) % params.interval = 0 → params.keepsBits = false →
        ∃ first old, prev.ancestor (prev.height + 1 - params.interval) = .ok first ∧
          prev.target = .ok old ∧
            IsGreatest
              (old.fitting (params.floorAt (prev.height + 1))
                (max ((params.timespan.toNat / 4 : Nat) : Int)
                  (min (4 * params.timespan.toNat) ((prev.time.toNat : Int) - first.time.toNat)))
                params.timespan.toNat)
              target.value) ∧
    (Regime.ofHeight params (prev.height + 1) = .shieldV1 →
      ¬Shield.v1.IsAnchorHeight params (prev.height + 1) →
        ∃ measured old, Shield.v1.Measures prev measured ∧ prev.target = .ok old ∧
          IsGreatest
            (old.fitting params.earlyFloor
              (wholePart (max 27600 (min 34800 (30000 + ((measured : ℚ) - 30000) / 4)))) 30000)
            target.value) ∧
    (Regime.ofHeight params (prev.height + 1) = .shieldV2 →
      ∃ measured old, Shield.v2.Measures prev measured ∧ prev.target = .ok old ∧
        IsGreatest
          (old.fitting params.earlyFloor
            (wholePart (max 1920 (min 17280 (9600 + ((measured : ℚ) - 9600) / 4)))) 9600)
          target.value) := by
  have hRequired := (requiredTarget_eq_ok_iff.mp h).2
  refine ⟨?_, ?_, ?_⟩
  · intro hRegime hBoundary hKeeps
    obtain ⟨first, old, hFirst, hOld, rfl⟩ := hRequired.exists_boundary hRegime hBoundary hKeeps
    have hCap : (params.floorAt (prev.height + 1)).value < Compact.limit := by
      unfold Params.floorAt
      split
      · exact hLate
      · exact hEarly
    exact ⟨first, old, hFirst, hOld, Interval.isGreatest_rescale hCap hTimespan⟩
  · intro hRegime hAnchor
    obtain ⟨measured, old, hMeasures, hOld, rfl⟩ :=
      hRequired.exists_measures (by rw [hRegime]; rfl) hAnchor
    have hGreatest :=
      Shield.isGreatest_rescale .v1 measured old hEarly (by decide) (by decide)
    refine ⟨measured, old, hMeasures, hOld, ?_⟩
    simpa [Shield.v1_times] using hGreatest
  · intro hRegime
    have hAnchor : ¬Shield.v2.IsAnchorHeight params (prev.height + 1) := by
      rintro ⟨hAnchored, _⟩
      cases hAnchored
    obtain ⟨measured, old, hMeasures, hOld, rfl⟩ :=
      hRequired.exists_measures (by rw [hRegime]; rfl) hAnchor
    have hGreatest :=
      Shield.isGreatest_rescale .v2 measured old hEarly (by decide) (by decide)
    refine ⟨measured, old, hMeasures, hOld, ?_⟩
    simpa [Shield.v2_times] using hGreatest

def twoBlocks : Params :=
  { Params.testnet with timespan := 1200, earlyEnd := 1000 }

def secondOfTwo : Cursor where
  view := View.ofArray #[
    { time := 1540000000, bits := 0x1c00ffff }, { time := 1540000700, bits := 0x1c00ffff }]
  height := 1
  header := { time := 1540000700, bits := 0x1c00ffff }
  held := rfl

/-- After 700 of 1200 seconds the target becomes seven twelfths, rounded down to what a word can carry.
-/
theorem requiredTarget_isGreatest_secondOfTwo :
    requiredTarget twoBlocks (some secondOfTwo) 1540001300 = .ok (.expand 0x1c009554) ∧
      ∃ first old, secondOfTwo.ancestor 0 = .ok first ∧ secondOfTwo.target = .ok old ∧
        IsGreatest
          (old.fitting (twoBlocks.floorAt 2)
            (max ((1200 / 4 : Nat) : Int)
              (min (4 * (1200 : Nat)) ((1540000700 : Int) - first.time.toNat))) 1200)
          (Target.expand 0x1c009554).value := by
  have hRequired : requiredTarget twoBlocks (some secondOfTwo) 1540001300 =
      .ok (.expand 0x1c009554) := by rfl
  have hLate : twoBlocks.lateFloor.value < Compact.limit := by decide
  have hEarly : twoBlocks.earlyFloor.value < Compact.limit := by decide
  exact ⟨hRequired, (requiredTarget_isGreatest hLate hEarly (by decide) hRequired).1
    (by decide) (by decide) rfl⟩

end PowRules

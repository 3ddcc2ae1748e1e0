import PowRules.Retarget

/-! Heights below one of the interval regime are in that regime too, except for genesis and the step
between the eras. -/
namespace PowRules

/-- The step between the eras comes before the per-block retargets are asked about. -/
theorem Regime.ofHeight_eq_floorStep_iff {params : Params} {height : Nat} :
    ofHeight params height = .floorStep ↔ height = params.earlyEnd.toNat + 1 := by
  rw [ofHeight]
  split
  next hGenesis => simp [hGenesis]
  next =>
    split
    next hStep => simp [hStep]
    next hStep =>
      simp only [hStep, iff_false]
      split
      · decide
      · split <;> decide

/-- Intervals are left to the heights that no other regime claims. -/
theorem Regime.ofHeight_eq_interval_iff {params : Params} {height : Nat} :
    ofHeight params height = .interval ↔
      height ≠ 0 ∧ height ≠ params.earlyEnd.toNat + 1 ∧
        height ≤ params.shieldV1After.toNat ∧ height ≤ params.shieldV2After.toNat := by
  rw [ofHeight]
  split
  next hGenesis => simp [hGenesis]
  next hGenesis =>
    split
    next hStep => simp [hStep]
    next hStep =>
      split
      next hSecond =>
        have hNot := Nat.not_le_of_lt hSecond
        simp [hNot]
      next hSecond =>
        split
        next hFirst =>
          have hNot := Nat.not_le_of_lt hFirst
          simp [hNot]
        next hFirst =>
          simp only [true_iff]
          exact ⟨hGenesis, hStep, Nat.le_of_not_lt hFirst, Nat.le_of_not_lt hSecond⟩

theorem Regime.ofHeight_eq_shieldV1_iff {params : Params} {height : Nat} :
    ofHeight params height = .shieldV1 ↔
      height ≠ params.earlyEnd.toNat + 1 ∧
        params.shieldV1After.toNat < height ∧ height ≤ params.shieldV2After.toNat := by
  rw [ofHeight]
  split
  next hGenesis => simp [hGenesis]
  next hGenesis =>
    split
    next hStep => simp [hStep]
    next hStep =>
      split
      next hSecond => simp [Nat.not_le_of_lt hSecond]
      next hSecond =>
        split
        next hFirst => simp [hStep, hFirst, Nat.le_of_not_lt hSecond]
        next hFirst => simp [hFirst]

/-- The second per-block retarget lasts for ever, except for the step between the eras. -/
theorem Regime.ofHeight_eq_shieldV2_iff {params : Params} {height : Nat} :
    ofHeight params height = .shieldV2 ↔
      height ≠ params.earlyEnd.toNat + 1 ∧ params.shieldV2After.toNat < height := by
  rw [ofHeight]
  split
  next hGenesis => simp [hGenesis]
  next hGenesis =>
    split
    next hStep => simp [hStep]
    next hStep =>
      split
      next hSecond => simp [hStep, hSecond]
      next hSecond =>
        split
        next hFirst => simp [hSecond]
        next hFirst => simp [hSecond]

/-- Below a height of the interval regime there is nothing but intervals, the step and genesis. -/
theorem Regime.ofHeight_below_interval {params : Params} {height k : Nat}
    (h : ofHeight params height = .interval) (hPositive : 0 < k) (hBelow : k ≤ height) :
    ofHeight params k = .interval ∨ ofHeight params k = .floorStep := by
  obtain ⟨_, _, hFirst, hSecond⟩ := ofHeight_eq_interval_iff.mp h
  rw [ofHeight_eq_interval_iff, ofHeight_eq_floorStep_iff]
  omega

namespace Params

variable {params : Params} {height : Nat}

theorem floorAt_early (h : height ≤ params.earlyEnd.toNat) :
    params.floorAt height = params.earlyFloor :=
  if_neg (Nat.not_lt_of_le h)

theorem floorAt_late (h : params.earlyEnd.toNat < height) :
    params.floorAt height = params.lateFloor :=
  if_pos h

/-- The floor changes at the step only, which is no height of the interval regime. -/
theorem floorAt_succ_of_interval (h : Regime.ofHeight params (height + 1) = .interval) :
    params.floorAt (height + 1) = params.floorAt height := by
  obtain ⟨_, hStep, _⟩ := Regime.ofHeight_eq_interval_iff.mp h
  by_cases hEarly : height + 1 ≤ params.earlyEnd.toNat
  · rw [floorAt_early hEarly, floorAt_early (Nat.le_of_succ_le hEarly)]
  · rw [floorAt_late (Nat.lt_of_not_le hEarly), floorAt_late (by omega)]

/-- Heights without the step between the eras all have one floor. -/
theorem floorAt_of_interval {start k : Nat}
    (hRegime : ∀ k, start < k → k ≤ height → Regime.ofHeight params k = .interval)
    (hLow : start ≤ k) (hHigh : k ≤ height) : params.floorAt k = params.floorAt height := by
  obtain ⟨gap, rfl⟩ := Nat.exists_eq_add_of_le hHigh
  induction gap with
  | zero => rfl
  | succ gap ih =>
      have hTop := hRegime (k + gap + 1) (by omega) (Nat.le_refl _)
      have hStretch := ih (fun j hAbove hBelow => hRegime j hAbove (by omega)) (Nat.le_add_right _ _)
      exact hStretch.trans (floorAt_succ_of_interval hTop).symm

end Params

end PowRules

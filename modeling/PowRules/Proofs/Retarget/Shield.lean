import Mathlib.Data.Rat.Floor
import PowRules.Proofs.Retarget.Required

/-! The time that a per-block retarget scales by. Dampening in whole seconds and then holding within whole
bounds loses nothing: the exact number held within the bounds has the same whole part. -/
namespace PowRules

section Clamp

variable {low high n : Int}

theorem low_le_clampBetween : low ≤ clampBetween low high n :=
  le_max_left _ _

theorem clampBetween_of_low_le (hBounds : low ≤ high) (h : low ≤ n) :
    clampBetween low high n = min high n :=
  max_eq_right (le_min hBounds h)

end Clamp

/-- The whole part of a number, toward zero. -/
def wholePart (q : ℚ) : Int :=
  q.num.tdiv q.den

theorem wholePart_of_nonneg {q : ℚ} (h : 0 ≤ q) : wholePart q = ⌊q⌋ := by
  rw [wholePart, Int.tdiv_eq_ediv_of_nonneg (Rat.num_nonneg.mpr h), Rat.floor_def']

theorem Regime.shield?_eq_some {regime : Regime} {shield : Shield}
    (h : regime.shield? = some shield) : shield = .v1 ∨ shield = .v2 := by
  cases regime with
  | shieldV1 => exact .inl (Option.some.inj h).symm
  | shieldV2 => exact .inr (Option.some.inj h).symm
  | genesis => cases h
  | floorStep => cases h
  | interval => cases h

theorem Regime.shield?_eq_v1_iff {regime : Regime} :
    regime.shield? = some .v1 ↔ regime = .shieldV1 := by
  cases regime <;> decide

theorem Regime.shield?_eq_v2_iff {regime : Regime} :
    regime.shield? = some .v2 ↔ regime = .shieldV2 := by
  cases regime <;> decide

/-- Some headers are sampled, fewer than the blocks between the windows. -/
theorem Regime.shield?_sample {regime : Regime} {shield : Shield}
    (h : regime.shield? = some shield) : 0 < shield.sample ∧ shield.sample < shield.window := by
  rcases shield?_eq_some h with rfl | rfl
  · decide
  · decide

theorem Regime.shield?_expected_pos {regime : Regime} {shield : Shield}
    (h : regime.shield? = some shield) : 0 < shield.expected := by
  rcases shield?_eq_some h with rfl | rfl
  · decide
  · decide

theorem Regime.shield?_bounds {regime : Regime} {shield : Shield}
    (h : regime.shield? = some shield) : shield.least ≤ shield.greatest := by
  rcases shield?_eq_some h with rfl | rfl
  · decide
  · decide

namespace Shield

theorem v1_times : v1.expected = 30000 ∧ v1.least = 27600 ∧ v1.greatest = 34800 :=
  ⟨rfl, rfl, rfl⟩

theorem v2_times : v2.expected = 9600 ∧ v2.least = 1920 ∧ v2.greatest = 17280 :=
  ⟨rfl, rfl, rfl⟩

variable {shield : Shield} {measured : Int}

/-- On top of `prev` this time is measured, from the window that ends `window` heights below the new one
to the window that ends at `prev`. -/
def Measures (shield : Shield) (prev : Cursor) (measured : Int) : Prop :=
  ∃ first late early, prev.ancestor (prev.height + 1 - shield.window) = .ok first ∧
    prev.windowTime shield.sample = .ok late ∧ first.windowTime shield.sample = .ok early ∧
      measured = (late : Int) - early

theorem Measures.unique {prev : Cursor} {other : Int} (h : shield.Measures prev measured)
    (hOther : shield.Measures prev other) : measured = other := by
  obtain ⟨first, late, early, hFirst, hLate, hEarly, rfl⟩ := h
  obtain ⟨_, _, _, hFirst', hLate', hEarly', rfl⟩ := hOther
  cases hFirst.symm.trans hFirst'
  cases hLate.symm.trans hLate'
  cases hEarly.symm.trans hEarly'
  rfl

/-- A measured time is all that a per-block retarget needs beside the bits below it. -/
theorem Measures.rescales {params : Params} {prev : Cursor} {old : Target}
    (h : shield.Measures prev measured)
    (hRegime : (Regime.ofHeight params (prev.height + 1)).shield? = some shield)
    (hAnchor : ¬shield.IsAnchorHeight params (prev.height + 1))
    (hWindow : shield.window ≤ prev.height + 1) (hOld : prev.target = .ok old) :
    Rescales params prev old (shield.adjusted measured).natAbs shield.expected params.earlyFloor := by
  obtain ⟨first, late, early, hFirst, hLate, hEarly, rfl⟩ := h
  exact .shield hRegime hAnchor hWindow hFirst hLate hEarly hOld

/-- A measured time with a quarter of its distance to the expected one, before the bounds apply. -/
def dampened (shield : Shield) (measured : Int) : Int :=
  shield.expected + (measured - shield.expected).fdiv 4

/-- Dampening keeps the order of measured times. -/
theorem dampened_mono (shield : Shield) {measured other : Int} (h : measured ≤ other) :
    shield.dampened measured ≤ shield.dampened other := by
  have hDivided : (measured - shield.expected).fdiv 4 ≤ (other - shield.expected).fdiv 4 := by
    rw [Int.fdiv_eq_ediv_of_nonneg _ (by decide), Int.fdiv_eq_ediv_of_nonneg _ (by decide)]
    exact Int.ediv_le_ediv (by decide) (by omega)
  exact Int.add_le_add_left hDivided _

/-- The division by four rounds down, also for times below the expected one. -/
theorem dampened_eq_floor :
    shield.dampened measured = ⌊(shield.expected : ℚ) + (measured - shield.expected) / 4⌋ := by
  have hFloor : ⌊((measured - shield.expected : Int) : ℚ) / (4 : Nat)⌋ =
      (measured - shield.expected).fdiv 4 := by
    rw [Rat.floor_intCast_div_natCast, Int.fdiv_eq_ediv_of_nonneg _ (by decide)]
    rfl
  rw [dampened, ← hFloor, ← Int.floor_natCast_add]
  push_cast
  rfl

/-- The lower bound does nothing to a time that is not below it. -/
theorem adjusted_of_least_le (hBounds : shield.least ≤ shield.greatest)
    (h : shield.least ≤ shield.dampened measured) :
    shield.adjusted measured = min shield.greatest (shield.dampened measured) :=
  clampBetween_of_low_le hBounds h

/-- Dampening and the bounds leave a time on its side of the expected one. -/
theorem expected_le_adjusted_iff {regime : Regime} (h : regime.shield? = some shield) :
    shield.expected ≤ (shield.adjusted measured).natAbs ↔ (shield.expected : Int) ≤ measured := by
  have hQuarter : (measured - shield.expected).fdiv 4 = (measured - shield.expected) / 4 :=
    Int.fdiv_eq_ediv_of_nonneg _ (by decide)
  unfold adjusted clampBetween
  rw [hQuarter]
  rcases Regime.shield?_eq_some h with rfl | rfl
  · obtain ⟨hExpected, hLeast, hGreatest⟩ := v1_times
    rw [hExpected, hLeast, hGreatest]
    omega
  · obtain ⟨hExpected, hLeast, hGreatest⟩ := v2_times
    rw [hExpected, hLeast, hGreatest]
    omega

/-- Nothing is lost by dampening in whole seconds before the bounds apply. -/
theorem adjusted_eq_wholePart (h : 0 ≤ shield.least) :
    shield.adjusted measured =
      wholePart (max (shield.least : ℚ)
        (min (shield.greatest : ℚ) ((shield.expected : ℚ) + (measured - shield.expected) / 4))) := by
  have hNonneg : (0 : ℚ) ≤ max (shield.least : ℚ)
      (min (shield.greatest : ℚ) ((shield.expected : ℚ) + (measured - shield.expected) / 4)) :=
    le_max_of_le_left (by exact_mod_cast h)
  rw [wholePart_of_nonneg hNonneg, Int.floor_mono.map_max, Int.floor_mono.map_min,
    ← dampened_eq_floor, Int.floor_intCast, Int.floor_intCast]
  rfl

end Shield

end PowRules

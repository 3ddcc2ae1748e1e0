import PowRules.Proofs.Chain.Audit
import PowRules.Proofs.Retarget.Regime

/-! Inside an interval an accepted header carries the target that the interval starts with, or the floor
where it comes late and the network allows that. Exceptions are not inherited by later headers. -/
namespace PowRules

theorem mod_ne_zero_of_between {start interval k : Nat} (hStart : start % interval = 0)
    (hAbove : start < k) (hBelow : k < start + interval) : k % interval ≠ 0 := by
  obtain ⟨offset, rfl⟩ := Nat.exists_eq_add_of_lt hAbove
  have hOffset : offset + 1 < interval := by omega
  rw [Nat.add_assoc, Nat.add_mod, hStart, Nat.zero_add, Nat.mod_mod, Nat.mod_eq_of_lt hOffset]
  exact Nat.succ_ne_zero offset

namespace Segment

variable {params : Params} {segment : Segment} {start : Nat}

/-- A target at this height is that of the start, or the floor as an exception. -/
def CarriesStart (params : Params) (segment : Segment) (start height : Nat) : Prop :=
  ∀ target, segment.view.HasTarget height target →
    segment.view.HasTarget start target ∨
      params.slowAtFloor = true ∧ target = params.floorAt height

/-- Inside an interval a candidate that comes late is required to have the floor, and any other one the
target of the start of the interval. Each way to a target is looked at, and those that read a header
below get back to the start by `hBelow`: a floor in between is passed over, and what is copied was
carried. -/
theorem required_inside {prev : Cursor} {time : UInt32} {target : Target}
    (hView : prev.view = segment.view) (hStart : start % params.interval = 0)
    (hLow : start ≤ prev.height) (hHigh : prev.height + 1 < start + params.interval)
    (hRegime : ∀ k, start < k → k ≤ prev.height + 1 → Regime.ofHeight params k = .interval)
    (hBelow : ∀ k, start < k → k ≤ prev.height → CarriesStart params segment start k)
    (h : Required params prev time target) :
    if params.slowAtFloor = true ∧ Interval.IsSlow params prev time then
      target = params.floorAt (prev.height + 1)
    else segment.view.HasTarget start target := by
  have hHere := hRegime (prev.height + 1) (Nat.lt_succ_of_le hLow) (Nat.le_refl _)
  have hInside : ∀ k, start < k → k ≤ prev.height + 1 → k % params.interval ≠ 0 :=
    fun k hk hle => mod_ne_zero_of_between hStart hk (Nat.lt_of_le_of_lt hle hHigh)
  cases h with
  | floorStep hStep => cases hHere.symm.trans hStep
  | anchor hShield _ => exact absurd hHere (Regime.ne_interval_of_shield? hShield)
  | slow _ _ hException hSlow => rw [if_pos ⟨hException, hSlow⟩]
  | regular _ _ hException hFast hTarget =>
      rw [if_neg (fun hBoth => hFast hBoth.2)]
      obtain ⟨source, hSource, ⟨hFound, hEnd⟩, hPassed⟩ :=
        Interval.regularTarget_eq_ok_iff.mp hTarget
      rw [hView] at hFound
      -- The search stops at the start, since an exception after it has the floor that it passes.
      rcases Nat.lt_trichotomy source start with hUnder | rfl | hOver
      · exact absurd hStart (hPassed start hUnder hLow).1
      · exact hFound
      · have hFloor := Params.floorAt_of_interval hRegime (Nat.le_of_lt hOver) (Nat.le_succ_of_le hSource)
        rcases hBelow source hOver hSource target hFound with hCarried | ⟨_, hAtFloor⟩
        · exact hCarried
        · rcases hEnd with hBoundary | hOther
          · exact absurd hBoundary (hInside source hOver (Nat.le_succ_of_le hSource))
          · exact absurd (hAtFloor.trans hFloor) hOther
  | copied _ _ hException hTarget =>
      have hNot : ¬(params.slowAtFloor = true ∧ Interval.IsSlow params prev time) := by
        rintro ⟨hSlowAtFloor, _⟩
        cases hException.symm.trans hSlowAtFloor
      rw [if_neg hNot]
      rw [Cursor.target_eq_ok_iff, hView] at hTarget
      rcases Nat.lt_or_eq_of_le hLow with hOver | rfl
      · rcases hBelow prev.height hOver (Nat.le_refl _) target hTarget with hCarried | ⟨hSlowAtFloor, _⟩
        · exact hCarried
        · cases hException.symm.trans hSlowAtFloor
      · exact hTarget
  | kept _ hBoundary _ _ _ =>
      exact absurd hBoundary (hInside _ (Nat.lt_succ_of_le hLow) (Nat.le_refl _))
  | rescaled hRescales =>
      cases hRescales with
      | boundary _ hBoundary _ _ _ =>
          exact absurd hBoundary (hInside _ (Nat.lt_succ_of_le hLow) (Nat.le_refl _))
      | shield hShield _ _ _ _ _ _ => exact absurd hHere (Regime.ne_interval_of_shield? hShield)

/-- All headers of an accepted interval carry the target of its start or the floor of a late block. The
induction goes up the heights, and each step is `required_inside`. -/
theorem Accepted.carriesStart (h : segment.Accepted params) {tip height : Nat}
    (hTip : segment.tipHeight = some tip) (hStart : start % params.interval = 0)
    (hHeld : segment.base.toNat ≤ start) (hHigh : height < start + params.interval)
    (hRegime : ∀ k, start < k → k ≤ height → Regime.ofHeight params k = .interval)
    (hAbove : start < height) : CarriesStart params segment start height := by
  intro target hTarget
  refine h.targets_of_step hTip (P := fun k target => k ≤ height →
      segment.view.HasTarget start target ∨
        params.slowAtFloor = true ∧ target = params.floorAt k)
    hHeld ?_ ?_ (Nat.le_of_lt hAbove) hTarget (Nat.le_refl height)
  · intro target hFirst _
    exact .inl hFirst
  · intro prev header target hView _ hLow hBelow hRequired hHere
    have hCarried : ∀ k, start < k → k ≤ prev.height → CarriesStart params segment start k :=
      fun k hk hle target hFound => hBelow k target (Nat.le_of_lt hk) hle hFound (by omega)
    have hStep := required_inside hView hStart hLow (by omega)
      (fun k hk hle => hRegime k hk (by omega)) hCarried hRequired
    split at hStep
    next hSlow => exact .inr ⟨hSlow.1, hStep⟩
    next => exact .inl hStep

/-- However many late headers with the floor lie between, the next header that is not late carries
what the interval starts with. -/
theorem target_inside_interval {tip checked multiple height : Nat} {first header : Header}
    (hTip : segment.tipHeight = some tip) (hAudit : segment.audit params = .ok checked)
    (hFirst : segment.headerAt (multiple * params.interval) = some first)
    (hHeader : segment.headerAt height = some header)
    (hAbove : multiple * params.interval < height)
    (hBelow : height < (multiple + 1) * params.interval)
    (hRegime : ∀ k, multiple * params.interval < k → k ≤ height →
      Regime.ofHeight params k = .interval) :
    ∃ previous, segment.headerAt (height - 1) = some previous ∧
      if params.slowAtFloor = true ∧
          previous.time.toNat + 2 * params.spacing.toNat < header.time.toNat then
        Target.ofBits header.bits = .ok (params.floorAt height)
      else
        ∃ target, Target.ofBits first.bits = .ok target ∧
          Target.ofBits header.bits = .ok target := by
  obtain ⟨_, hAccepted⟩ := (audit_eq_ok_iff hTip).mp hAudit
  have hStart : multiple * params.interval % params.interval = 0 := Nat.mul_mod_left _ _
  have hBase := ((exists_headerAt_iff hTip).mp ⟨first, hFirst⟩).1
  obtain ⟨before, rfl⟩ : ∃ before, height = before + 1 := ⟨height - 1, by omega⟩
  obtain ⟨prev, hView, rfl, hFollows⟩ := hAccepted.exists_prev hTip hHeader (by omega)
  obtain ⟨target, hRequired, hCarried⟩ := hFollows.required
  have hHigh : prev.height + 1 < multiple * params.interval + params.interval := by
    rw [← Nat.succ_mul]
    exact hBelow
  have hStep := required_inside hView hStart (Nat.le_of_lt_succ hAbove) hHigh hRegime
    (fun k hk hle => hAccepted.carriesStart hTip hStart hBase (by omega)
      (fun j hj hj' => hRegime j hj (by omega)) hk) hRequired
  refine ⟨prev.header, headerAt_cursor hView, ?_⟩
  by_cases hLate : params.slowAtFloor = true ∧ Interval.IsSlow params prev header.time
  · rw [if_pos hLate] at hStep
    rw [hStep] at hCarried
    exact (if_pos hLate).mpr hCarried
  · rw [if_neg hLate] at hStep
    exact (if_neg hLate).mpr ⟨target, (View.hasTarget_iff hFirst).mp hStep, hCarried⟩

def lateThenInTime : Segment where
  headers := #[
    { time := 1540000000, bits := 0x1c00ffff },
    { time := 1540001201, bits := 0x1e0fffff },
    { time := 1540005000, bits := 0x1e0fffff },
    { time := 1540005600, bits := 0x1c00ffff }]

/-- The third block is in time and gets back to the first target, past two late blocks with the floor.
-/
theorem target_inside_interval_lateThenInTime :
    lateThenInTime.audit .testnet = .ok 3 ∧
      ∃ previous, lateThenInTime.headerAt 2 = some previous ∧
        if Params.testnet.slowAtFloor = true ∧
            previous.time.toNat + 2 * Params.testnet.spacing.toNat <
              (1540005600 : UInt32).toNat then
          Target.ofBits 0x1c00ffff = .ok (Params.testnet.floorAt 3)
        else
          ∃ target, Target.ofBits 0x1c00ffff = .ok target ∧
            Target.ofBits 0x1c00ffff = .ok target := by
  have hTip : lateThenInTime.tipHeight = some 3 := by rfl
  have hAudit : lateThenInTime.audit .testnet = .ok 3 := by rfl
  have hFirst : lateThenInTime.headerAt (0 * Params.testnet.interval) =
      some { time := 1540000000, bits := 0x1c00ffff } := by rfl
  have hHeader : lateThenInTime.headerAt 3 = some { time := 1540005600, bits := 0x1c00ffff } := by
    rfl
  have hRegime : ∀ k, 0 * Params.testnet.interval < k → k ≤ 3 →
      Regime.ofHeight .testnet k = .interval := by
    intro k hLow hHigh
    rw [Nat.zero_mul] at hLow
    obtain rfl | rfl | rfl : k = 1 ∨ k = 2 ∨ k = 3 := by omega
    all_goals decide
  exact ⟨hAudit, target_inside_interval hTip hAudit hFirst hHeader (by decide) (by decide) hRegime⟩

end Segment

end PowRules

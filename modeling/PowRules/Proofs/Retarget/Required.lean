import PowRules.Proofs.Verdict
import PowRules.Retarget
import PowRules.Proofs.Chain.View
import PowRules.Proofs.Retarget.RegularTarget
import PowRules.Proofs.Target

/-! The ways in which a required target comes about. Every fact about required targets is proved by
cases on them, and no later proof opens the regimes again. -/
namespace PowRules

/-- The per-block retarget of a regime, where it has one. -/
def Regime.shield? : Regime → Option Shield
  | .shieldV1 => some Shield.v1
  | .shieldV2 => some Shield.v2
  | _ => none

theorem Regime.ne_interval_of_shield? {regime : Regime} {shield : Shield}
    (h : regime.shield? = some shield) : regime ≠ .interval := by
  rintro rfl
  cases h

theorem Regime.ne_floorStep_of_shield? {regime : Regime} {shield : Shield}
    (h : regime.shield? = some shield) : regime ≠ .floorStep := by
  rintro rfl
  cases h

theorem Regime.target_of_shield? {regime : Regime} {shield : Shield}
    (h : regime.shield? = some shield) (params : Params) (height : Nat) (prev : Cursor)
    (time : UInt32) : regime.target params height prev time = shield.target params height prev := by
  cases regime <;> cases h <;> rfl

/-- Genesis is at height zero only. -/
theorem Regime.ofHeight_succ_ne_genesis (params : Params) (height : Nat) :
    Regime.ofHeight params (height + 1) ≠ .genesis := by
  unfold Regime.ofHeight
  rw [if_neg (Nat.succ_ne_zero height)]
  split
  · decide
  · split
    · decide
    · split <;> decide

/-- On top of `prev` its target `old` is scaled by `actual / expected`, up to `cap`. -/
inductive Rescales (params : Params) (prev : Cursor) : Target → Nat → Nat → Target → Prop where
  | boundary {first : Cursor} {old : Target}
      (hRegime : Regime.ofHeight params (prev.height + 1) = .interval)
      (hBoundary : (prev.height + 1) % params.interval = 0)
      (hFirst : prev.ancestor (prev.height + 1 - params.interval) = .ok first)
      (hKeeps : params.keepsBits = false)
      (hOld : prev.target = .ok old) :
      Rescales params prev old (Interval.measuredTimespan params first prev).toNat
        params.timespan.toNat (params.floorAt (prev.height + 1))
  | shield {shield : Shield} {first : Cursor} {late early : Nat} {old : Target}
      (hRegime : (Regime.ofHeight params (prev.height + 1)).shield? = some shield)
      (hAnchor : ¬shield.IsAnchorHeight params (prev.height + 1))
      (hWindow : shield.window ≤ prev.height + 1)
      (hFirst : prev.ancestor (prev.height + 1 - shield.window) = .ok first)
      (hLate : prev.windowTime shield.sample = .ok late)
      (hEarly : first.windowTime shield.sample = .ok early)
      (hOld : prev.target = .ok old) :
      Rescales params prev old (shield.adjusted ((late : Int) - early)).natAbs shield.expected
        params.earlyFloor

/-- The target of a candidate with this time on top of `prev`, one constructor for each origin. -/
inductive Required (params : Params) (prev : Cursor) (time : UInt32) : Target → Prop where
  | floorStep (hRegime : Regime.ofHeight params (prev.height + 1) = .floorStep) :
      Required params prev time params.lateFloor
  | anchor {shield : Shield}
      (hRegime : (Regime.ofHeight params (prev.height + 1)).shield? = some shield)
      (hAnchor : shield.IsAnchorHeight params (prev.height + 1)) :
      Required params prev time Shield.anchor
  | slow (hRegime : Regime.ofHeight params (prev.height + 1) = .interval)
      (hInside : (prev.height + 1) % params.interval ≠ 0)
      (hException : params.slowAtFloor = true)
      (hSlow : Interval.IsSlow params prev time) :
      Required params prev time (params.floorAt (prev.height + 1))
  | regular {target : Target}
      (hRegime : Regime.ofHeight params (prev.height + 1) = .interval)
      (hInside : (prev.height + 1) % params.interval ≠ 0)
      (hException : params.slowAtFloor = true)
      (hFast : ¬Interval.IsSlow params prev time)
      (hTarget : Interval.regularTarget params.interval (params.floorAt (prev.height + 1)) prev =
        .ok target) :
      Required params prev time target
  | copied {target : Target}
      (hRegime : Regime.ofHeight params (prev.height + 1) = .interval)
      (hInside : (prev.height + 1) % params.interval ≠ 0)
      (hException : params.slowAtFloor = false)
      (hTarget : prev.target = .ok target) :
      Required params prev time target
  | kept {first : Cursor} {target : Target}
      (hRegime : Regime.ofHeight params (prev.height + 1) = .interval)
      (hBoundary : (prev.height + 1) % params.interval = 0)
      (hFirst : prev.ancestor (prev.height + 1 - params.interval) = .ok first)
      (hKeeps : params.keepsBits = true)
      (hTarget : prev.target = .ok target) :
      Required params prev time target
  | rescaled {old cap : Target} {actual expected : Nat}
      (hRescales : Rescales params prev old actual expected cap) :
      Required params prev time (old.rescale actual expected cap)

section Origins

variable {params : Params} {prev : Cursor} {time : UInt32} {target : Target}

/-- Inside an interval a target is the floor for a late block, that of the nearest regular header, or a
copy of the one below. -/
theorem required_of_insideTarget
    (hRegime : Regime.ofHeight params (prev.height + 1) = .interval)
    (hInside : (prev.height + 1) % params.interval ≠ 0)
    (h : Interval.insideTarget params (prev.height + 1) prev time = .ok target) :
    Required params prev time target := by
  unfold Interval.insideTarget at h
  split at h
  next hException =>
    split at h
    next hSlow =>
      cases h
      exact .slow hRegime hInside hException hSlow
    next hFast => exact .regular hRegime hInside hException hFast h
  next hException => exact .copied hRegime hInside (Bool.not_eq_true _ ▸ hException) h

theorem required_of_boundaryTarget
    (hRegime : Regime.ofHeight params (prev.height + 1) = .interval)
    (hBoundary : (prev.height + 1) % params.interval = 0)
    (h : Interval.boundaryTarget params (prev.height + 1) prev = .ok target) :
    Required params prev time target := by
  unfold Interval.boundaryTarget at h
  split at h
  next hMissing => cases h
  next first hFirst =>
    split at h
    next hKeeps => exact .kept hRegime hBoundary hFirst hKeeps h
    next hKeeps =>
      obtain ⟨old, hOld, rfl⟩ := map_eq_ok_iff.mp h
      exact .rescaled (.boundary hRegime hBoundary hFirst (Bool.not_eq_true _ ▸ hKeeps) hOld)

theorem required_of_shieldTarget {shield : Shield}
    (hRegime : (Regime.ofHeight params (prev.height + 1)).shield? = some shield)
    (h : shield.target params (prev.height + 1) prev = .ok target) :
    Required params prev time target := by
  unfold Shield.target at h
  split at h
  next hAnchor =>
    obtain rfl := Except.ok.inj h
    exact .anchor hRegime hAnchor
  next hAnchor =>
    unfold Shield.retarget at h
    split at h
    next hShort => cases h
    next hWindow =>
      obtain ⟨first, hFirst, h⟩ := bind_eq_ok_iff.mp h
      obtain ⟨late, hLate, h⟩ := bind_eq_ok_iff.mp h
      obtain ⟨early, hEarly, h⟩ := bind_eq_ok_iff.mp h
      obtain ⟨old, hOld, h⟩ := bind_eq_ok_iff.mp h
      cases h
      exact .rescaled (.shield hRegime hAnchor (Nat.le_of_not_lt hWindow) hFirst hLate hEarly hOld)

theorem Rescales.regimeTarget {old cap : Target} {actual expected : Nat}
    (h : Rescales params prev old actual expected cap) :
    (Regime.ofHeight params (prev.height + 1)).target params (prev.height + 1) prev time =
      .ok (old.rescale actual expected cap) := by
  cases h with
  | boundary hRegime hBoundary hFirst hKeeps hOld =>
      rw [hRegime]
      simp [Regime.target, Interval.target, Interval.boundaryTarget, hBoundary, hFirst, hKeeps,
        hOld, Except.map]
  | shield hRegime hAnchor hWindow hFirst hLate hEarly hOld =>
      rw [Regime.target_of_shield? hRegime, Shield.target, if_neg hAnchor, Shield.retarget,
        if_neg (Nat.not_lt_of_le hWindow)]
      refine bind_eq_ok_iff.mpr ⟨_, hFirst, bind_eq_ok_iff.mpr ⟨_, hLate, ?_⟩⟩
      exact bind_eq_ok_iff.mpr ⟨_, hEarly, bind_eq_ok_iff.mpr ⟨_, hOld, rfl⟩⟩

/-- Each regime leads to one of the origins. -/
theorem required_of_regimeTarget
    (h : (Regime.ofHeight params (prev.height + 1)).target params (prev.height + 1) prev time =
      .ok target) :
    Required params prev time target := by
  cases hRegime : Regime.ofHeight params (prev.height + 1) with
  | genesis => exact absurd hRegime (Regime.ofHeight_succ_ne_genesis params prev.height)
  | floorStep =>
      rw [hRegime] at h
      cases h
      exact .floorStep hRegime
  | interval =>
      rw [hRegime] at h
      change Interval.target params (prev.height + 1) prev time = .ok target at h
      unfold Interval.target at h
      split at h
      next hBoundary => exact required_of_boundaryTarget hRegime hBoundary h
      next hInside => exact required_of_insideTarget hRegime hInside h
  | shieldV1 =>
      rw [hRegime] at h
      exact required_of_shieldTarget (by rw [hRegime]; rfl) h
  | shieldV2 =>
      rw [hRegime] at h
      exact required_of_shieldTarget (by rw [hRegime]; rfl) h

/-- Conversely each origin is taken by the regime of its height. -/
theorem Required.regimeTarget (h : Required params prev time target) :
    (Regime.ofHeight params (prev.height + 1)).target params (prev.height + 1) prev time =
      .ok target := by
  cases h with
  | floorStep hRegime =>
      rw [hRegime]
      rfl
  | anchor hRegime hAnchor =>
      rw [Regime.target_of_shield? hRegime, Shield.target, if_pos hAnchor]
  | slow hRegime hInside hException hSlow =>
      rw [hRegime]
      simp [Regime.target, Interval.target, Interval.insideTarget, hInside, hException, hSlow]
  | regular hRegime hInside hException hFast hTarget =>
      rw [hRegime]
      simp [Regime.target, Interval.target, Interval.insideTarget, hInside, hException, hFast,
        hTarget]
  | copied hRegime hInside hException hTarget =>
      rw [hRegime]
      simp [Regime.target, Interval.target, Interval.insideTarget, hInside, hException, hTarget]
  | kept hRegime hBoundary hFirst hKeeps hTarget =>
      rw [hRegime]
      simp [Regime.target, Interval.target, Interval.boundaryTarget, hBoundary, hFirst, hKeeps,
        hTarget]
  | rescaled hRescales => exact hRescales.regimeTarget

/-- The origins exclude each other, since each of them is what the program computes. -/
theorem Required.unique {other : Target} (h : Required params prev time target)
    (hOther : Required params prev time other) : target = other :=
  Except.ok.inj (h.regimeTarget.symm.trans hOther.regimeTarget)

/-- A target is required exactly when it has one of the origins and the height is not above the last. -/
theorem requiredTarget_eq_ok_iff :
    requiredTarget params (some prev) time = .ok target ↔
      prev.height < maxHeight ∧ Required params prev time target := by
  change (if prev.height < maxHeight then
    (Regime.ofHeight params (prev.height + 1)).target params (prev.height + 1) prev time
    else .error .heightOverflow) = .ok target ↔ _
  constructor
  · intro h
    split at h
    next hHeight => exact ⟨hHeight, required_of_regimeTarget h⟩
    next => cases h
  · rintro ⟨hHeight, hRequired⟩
    rw [if_pos hHeight]
    exact hRequired.regimeTarget

end Origins

/-! A required target is one that a header can carry, except where scaling takes it to zero. -/

theorem View.HasTarget.isExact {view : View} {height : Nat} {target : Target}
    (h : view.HasTarget height target) : target.IsExact := by
  obtain ⟨_, _, hBits⟩ := h
  exact Target.isExact_of_ofBits hBits

theorem Shield.isExact_anchor : Shield.anchor.IsExact := by
  have hBits : Target.ofBits 0x1b01a61a = .ok Shield.anchor := by rfl
  exact Target.isExact_of_ofBits hBits

variable {params : Params} {prev : Cursor} {time : UInt32} {target : Target}

/-- A scaled target is capped by one of the floors. -/
theorem Rescales.isExact_cap {old cap : Target} {actual expected : Nat}
    (hFloors : params.FloorsExact) (h : Rescales params prev old actual expected cap) :
    cap.IsExact := by
  cases h with
  | boundary => exact hFloors.floorAt _
  | shield => exact hFloors.early

/-- The target on top of `prev` is scaled to zero, before it is rounded. -/
def Underflows (params : Params) (prev : Cursor) : Prop :=
  ∃ old actual expected cap, Rescales params prev old actual expected cap ∧
    old.value * actual / max expected 1 = 0

/-- Whatever is required can be carried by a header, unless scaling went down to zero. Then nothing can.
-/
theorem Required.isExact_or_underflows (hFloors : params.FloorsExact)
    (h : Required params prev time target) :
    target.IsExact ∨ target.value = 0 ∧ Underflows params prev := by
  cases h with
  | floorStep => exact .inl hFloors.late
  | anchor => exact .inl Shield.isExact_anchor
  | slow => exact .inl (hFloors.floorAt _)
  | regular _ _ _ _ hTarget =>
      obtain ⟨source, _, ⟨hFound, _⟩, _⟩ := Interval.regularTarget_eq_ok_iff.mp hTarget
      exact .inl hFound.isExact
  | copied _ _ _ hTarget => exact .inl (Cursor.target_eq_ok_iff.mp hTarget).isExact
  | kept _ _ _ _ hTarget => exact .inl (Cursor.target_eq_ok_iff.mp hTarget).isExact
  | @rescaled old cap actual expected hRescales =>
      have hCap := hRescales.isExact_cap hFloors
      rcases Nat.eq_zero_or_pos (old.rescale actual expected cap).value with hZero | hPositive
      · exact .inr ⟨hZero, old, actual, expected, cap, hRescales,
          (Target.rescale_eq_zero_iff hCap).mp hZero⟩
      · exact .inl (Target.isExact_rescale hCap hPositive)

/-- Nonzero bits of a template stand for the required target. Zero bits mean that it is zero. -/
theorem requiredBits_cases {bits : UInt32} (hFloors : params.FloorsExact)
    (h : requiredBits params prev time = .ok bits) :
    ∃ target, requiredTarget params (some prev) time = .ok target ∧ target.bits = bits ∧
      ((bits ≠ 0 ∧ Target.ofBits bits = .ok target) ∨
        (bits = 0 ∧ target.value = 0 ∧ Underflows params prev)) := by
  obtain ⟨target, hRequired, rfl⟩ := map_eq_ok_iff.mp h
  refine ⟨target, hRequired, rfl, ?_⟩
  rcases (requiredTarget_eq_ok_iff.mp hRequired).2.isExact_or_underflows hFloors with
    hExact | ⟨hZero, hUnder⟩
  · have hPositive := hExact.pos
    have hBits := mt (Target.bits_eq_zero_iff hExact.lt_limit).mp (by omega)
    exact .inl ⟨hBits, hExact.ofBits_bits⟩
  · have hLimit : target.value < Compact.limit := by
      rw [hZero]
      decide
    exact .inr ⟨(Target.bits_eq_zero_iff hLimit).mpr hZero, hZero, hUnder⟩

end PowRules

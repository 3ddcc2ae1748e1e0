import PowRules.Proofs.Retarget.Required

/-! The ways in which no target can be required, one for each look-up that may fail, in the order in which
they are made. Together with the origins of required targets they account for every result. -/
namespace PowRules

/-- No target can be required on top of `prev`, for this reason. -/
inductive Refused (params : Params) (prev : Cursor) (time : UInt32) : RuleError → Prop where
  | noStart {error : RuleError}
      (hRegime : Regime.ofHeight params (prev.height + 1) = .interval)
      (hBoundary : (prev.height + 1) % params.interval = 0)
      (hFirst : prev.ancestor (prev.height + 1 - params.interval) = .error error) :
      Refused params prev time error
  | boundaryBits {first : Cursor} {error : RuleError}
      (hRegime : Regime.ofHeight params (prev.height + 1) = .interval)
      (hBoundary : (prev.height + 1) % params.interval = 0)
      (hFirst : prev.ancestor (prev.height + 1 - params.interval) = .ok first)
      (hBits : prev.target = .error error) :
      Refused params prev time error
  | noRegular {error : RuleError}
      (hRegime : Regime.ofHeight params (prev.height + 1) = .interval)
      (hInside : (prev.height + 1) % params.interval ≠ 0)
      (hException : params.slowAtFloor = true)
      (hFast : ¬Interval.IsSlow params prev time)
      (hSearch : Interval.regularTarget params.interval (params.floorAt (prev.height + 1)) prev =
        .error error) :
      Refused params prev time error
  | copiedBits {error : RuleError}
      (hRegime : Regime.ofHeight params (prev.height + 1) = .interval)
      (hInside : (prev.height + 1) % params.interval ≠ 0)
      (hException : params.slowAtFloor = false)
      (hBits : prev.target = .error error) :
      Refused params prev time error
  | short {shield : Shield}
      (hRegime : (Regime.ofHeight params (prev.height + 1)).shield? = some shield)
      (hAnchor : ¬shield.IsAnchorHeight params (prev.height + 1))
      (hShort : prev.height + 1 < shield.window) :
      Refused params prev time (.missingAncestor 0)
  | noFirst {shield : Shield} {error : RuleError}
      (hRegime : (Regime.ofHeight params (prev.height + 1)).shield? = some shield)
      (hAnchor : ¬shield.IsAnchorHeight params (prev.height + 1))
      (hWindow : shield.window ≤ prev.height + 1)
      (hFirst : prev.ancestor (prev.height + 1 - shield.window) = .error error) :
      Refused params prev time error
  | noLate {shield : Shield} {first : Cursor} {error : RuleError}
      (hRegime : (Regime.ofHeight params (prev.height + 1)).shield? = some shield)
      (hAnchor : ¬shield.IsAnchorHeight params (prev.height + 1))
      (hWindow : shield.window ≤ prev.height + 1)
      (hFirst : prev.ancestor (prev.height + 1 - shield.window) = .ok first)
      (hLate : prev.windowTime shield.sample = .error error) :
      Refused params prev time error
  | noEarly {shield : Shield} {first : Cursor} {late : Nat} {error : RuleError}
      (hRegime : (Regime.ofHeight params (prev.height + 1)).shield? = some shield)
      (hAnchor : ¬shield.IsAnchorHeight params (prev.height + 1))
      (hWindow : shield.window ≤ prev.height + 1)
      (hFirst : prev.ancestor (prev.height + 1 - shield.window) = .ok first)
      (hLate : prev.windowTime shield.sample = .ok late)
      (hEarly : first.windowTime shield.sample = .error error) :
      Refused params prev time error
  | shieldBits {shield : Shield} {first : Cursor} {late early : Nat} {error : RuleError}
      (hRegime : (Regime.ofHeight params (prev.height + 1)).shield? = some shield)
      (hAnchor : ¬shield.IsAnchorHeight params (prev.height + 1))
      (hWindow : shield.window ≤ prev.height + 1)
      (hFirst : prev.ancestor (prev.height + 1 - shield.window) = .ok first)
      (hLate : prev.windowTime shield.sample = .ok late)
      (hEarly : first.windowTime shield.sample = .ok early)
      (hBits : prev.target = .error error) :
      Refused params prev time error

section Reasons

variable {params : Params} {prev : Cursor} {time : UInt32} {error : RuleError}

theorem refused_of_insideTarget
    (hRegime : Regime.ofHeight params (prev.height + 1) = .interval)
    (hInside : (prev.height + 1) % params.interval ≠ 0)
    (h : Interval.insideTarget params (prev.height + 1) prev time = .error error) :
    Refused params prev time error := by
  unfold Interval.insideTarget at h
  split at h
  next hException =>
    split at h
    next hSlow => cases h
    next hFast => exact .noRegular hRegime hInside hException hFast h
  next hException => exact .copiedBits hRegime hInside (Bool.not_eq_true _ ▸ hException) h

/-- At the start of an interval the header one interval back is looked up first, then the bits are read.
-/
theorem refused_of_boundaryTarget
    (hRegime : Regime.ofHeight params (prev.height + 1) = .interval)
    (hBoundary : (prev.height + 1) % params.interval = 0)
    (h : Interval.boundaryTarget params (prev.height + 1) prev = .error error) :
    Refused params prev time error := by
  unfold Interval.boundaryTarget at h
  split at h
  next other hMissing =>
    cases h
    exact .noStart hRegime hBoundary hMissing
  next first hFirst =>
    split at h
    next hKeeps => exact .boundaryBits hRegime hBoundary hFirst h
    next hKeeps => exact .boundaryBits hRegime hBoundary hFirst (map_eq_error_iff.mp h)

/-- A per-block retarget looks for its first header, the later window, the earlier window and the bits,
in this order. -/
theorem refused_of_shieldTarget {shield : Shield}
    (hRegime : (Regime.ofHeight params (prev.height + 1)).shield? = some shield)
    (h : shield.target params (prev.height + 1) prev = .error error) :
    Refused params prev time error := by
  unfold Shield.target at h
  split at h
  next hAnchor => cases h
  next hAnchor =>
    unfold Shield.retarget at h
    split at h
    next hShort =>
      cases h
      exact .short hRegime hAnchor hShort
    next hWindow =>
      have hWindow := Nat.le_of_not_lt hWindow
      rcases bind_eq_error_iff.mp h with hFirst | ⟨first, hFirst, h⟩
      · exact .noFirst hRegime hAnchor hWindow hFirst
      rcases bind_eq_error_iff.mp h with hLate | ⟨late, hLate, h⟩
      · exact .noLate hRegime hAnchor hWindow hFirst hLate
      rcases bind_eq_error_iff.mp h with hEarly | ⟨early, hEarly, h⟩
      · exact .noEarly hRegime hAnchor hWindow hFirst hLate hEarly
      rcases bind_eq_error_iff.mp h with hBits | ⟨old, hOld, h⟩
      · exact .shieldBits hRegime hAnchor hWindow hFirst hLate hEarly hBits
      · cases h

theorem refused_of_regimeTarget
    (h : (Regime.ofHeight params (prev.height + 1)).target params (prev.height + 1) prev time =
      .error error) :
    Refused params prev time error := by
  cases hRegime : Regime.ofHeight params (prev.height + 1) with
  | genesis => exact absurd hRegime (Regime.ofHeight_succ_ne_genesis params prev.height)
  | floorStep =>
      rw [hRegime] at h
      cases h
  | interval =>
      rw [hRegime] at h
      change Interval.target params (prev.height + 1) prev time = .error error at h
      unfold Interval.target at h
      split at h
      next hBoundary => exact refused_of_boundaryTarget hRegime hBoundary h
      next hInside => exact refused_of_insideTarget hRegime hInside h
  | shieldV1 =>
      rw [hRegime] at h
      exact refused_of_shieldTarget (by rw [hRegime]; rfl) h
  | shieldV2 =>
      rw [hRegime] at h
      exact refused_of_shieldTarget (by rw [hRegime]; rfl) h

/-- Each listed reason leads to its error. In a case every look-up before the failing one succeeds,
which is part of the case. -/
theorem Refused.regimeTarget (h : Refused params prev time error) :
    (Regime.ofHeight params (prev.height + 1)).target params (prev.height + 1) prev time =
      .error error := by
  have hShield : ∀ {shield : Shield},
      (Regime.ofHeight params (prev.height + 1)).shield? = some shield →
        ¬shield.IsAnchorHeight params (prev.height + 1) →
          (Regime.ofHeight params (prev.height + 1)).target params (prev.height + 1) prev time =
            shield.retarget params (prev.height + 1) prev := by
    intro shield hRegime hAnchor
    rw [Regime.target_of_shield? hRegime, Shield.target, if_neg hAnchor]
  cases h with
  | noStart hRegime hBoundary hFirst =>
      simp [hRegime, Regime.target, Interval.target, Interval.boundaryTarget, hBoundary, hFirst]
  | boundaryBits hRegime hBoundary hFirst hBits =>
      simp [hRegime, Regime.target, Interval.target, Interval.boundaryTarget, hBoundary, hFirst,
        hBits, Except.map]
  | noRegular hRegime hInside hException hFast hSearch =>
      simp [hRegime, Regime.target, Interval.target, Interval.insideTarget, hInside, hException,
        hFast, hSearch]
  | copiedBits hRegime hInside hException hBits =>
      simp [hRegime, Regime.target, Interval.target, Interval.insideTarget, hInside, hException,
        hBits]
  | short hRegime hAnchor hShort =>
      rw [hShield hRegime hAnchor, Shield.retarget, if_pos hShort]
  | noFirst hRegime hAnchor hWindow hFirst =>
      rw [hShield hRegime hAnchor, Shield.retarget, if_neg (Nat.not_lt_of_le hWindow), hFirst]
      rfl
  | noLate hRegime hAnchor hWindow hFirst hLate =>
      rw [hShield hRegime hAnchor, Shield.retarget, if_neg (Nat.not_lt_of_le hWindow), hFirst, hLate]
      rfl
  | noEarly hRegime hAnchor hWindow hFirst hLate hEarly =>
      rw [hShield hRegime hAnchor, Shield.retarget, if_neg (Nat.not_lt_of_le hWindow), hFirst, hLate,
        ok_bind, hEarly]
      rfl
  | shieldBits hRegime hAnchor hWindow hFirst hLate hEarly hBits =>
      rw [hShield hRegime hAnchor, Shield.retarget, if_neg (Nat.not_lt_of_le hWindow), hFirst, hLate,
        ok_bind, hEarly, hBits]
      rfl

/-- Below the last height a target is refused exactly for one of the reasons. -/
theorem requiredTarget_eq_error_iff (hHeight : prev.height < maxHeight) :
    requiredTarget params (some prev) time = .error error ↔ Refused params prev time error := by
  change (if prev.height < maxHeight then
    (Regime.ofHeight params (prev.height + 1)).target params (prev.height + 1) prev time
    else .error .heightOverflow) = .error error ↔ _
  rw [if_pos hHeight]
  exact ⟨refused_of_regimeTarget, Refused.regimeTarget⟩

end Reasons

end PowRules

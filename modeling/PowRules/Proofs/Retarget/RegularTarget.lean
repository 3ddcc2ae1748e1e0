import PowRules.Proofs.Chain.View

/-! The search for the nearest header that is no exception. It passes headers with the floor inside an
interval, and height zero starts an interval, so it ends there at the latest. -/
namespace PowRules.Interval

/-- The search goes on below this height. -/
def IsPassed (view : View) (interval : Nat) (floor : Target) (height : Nat) : Prop :=
  height % interval ≠ 0 ∧ view.HasTarget height floor

/-- The search ends at this height, with this target. -/
def EndsAt (view : View) (interval : Nat) (floor : Target) (height : Nat) (target : Target) : Prop :=
  view.HasTarget height target ∧ (height % interval = 0 ∨ target ≠ floor)

/-- The search from this height back finds this target. -/
def Finds (view : View) (interval : Nat) (floor : Target) (height : Nat) (target : Target) : Prop :=
  ∃ source, source ≤ height ∧ EndsAt view interval floor source target ∧
    ∀ k, source < k → k ≤ height → IsPassed view interval floor k

/-- The search cannot go on at this height, where no header is held or its bits stand for no target. -/
inductive FailsAt (view : View) (height : Nat) : RuleError → Prop where
  | missing (hMissing : view.headerAt height = none) :
      FailsAt view height (.missingAncestor height)
  | malformed {header : Header} {error : RuleError}
      (hHeader : view.headerAt height = some header)
      (hBits : Target.ofBits header.bits = .error error) : FailsAt view height error

/-- The search from this height back ends with this error. -/
def Fails (view : View) (interval : Nat) (floor : Target) (height : Nat) (error : RuleError) : Prop :=
  ∃ source, source ≤ height ∧ FailsAt view source error ∧
    ∀ k, source < k → k ≤ height → IsPassed view interval floor k

variable {view : View} {interval : Nat} {floor target : Target} {error : RuleError}

section Stop

variable {stop passed : Nat → Prop}

theorem exists_stop_zero_iff :
    (∃ source, source ≤ 0 ∧ stop source ∧ ∀ k, source < k → k ≤ 0 → passed k) ↔ stop 0 := by
  constructor
  · rintro ⟨source, hSource, hStop, _⟩
    obtain rfl := Nat.le_zero.mp hSource
    exact hStop
  · intro hStop
    exact ⟨0, Nat.le_refl 0, hStop, by omega⟩

/-- A search stops where it starts, or it passes that height and stops below. -/
theorem exists_stop_succ_iff {height : Nat} :
    (∃ source, source ≤ height + 1 ∧ stop source ∧
      ∀ k, source < k → k ≤ height + 1 → passed k) ↔
      stop (height + 1) ∨ passed (height + 1) ∧
        ∃ source, source ≤ height ∧ stop source ∧ ∀ k, source < k → k ≤ height → passed k := by
  constructor
  · rintro ⟨source, hSource, hStop, hPassed⟩
    rcases Nat.lt_or_eq_of_le hSource with hBelow | rfl
    · refine .inr ⟨hPassed _ hBelow (Nat.le_refl _), source, Nat.le_of_lt_succ hBelow, hStop, ?_⟩
      intro k hAbove hk
      exact hPassed k hAbove (Nat.le_succ_of_le hk)
    · exact .inl hStop
  · rintro (hStop | ⟨hTop, source, hSource, hStop, hPassed⟩)
    · exact ⟨height + 1, Nat.le_refl _, hStop, by omega⟩
    · refine ⟨source, Nat.le_succ_of_le hSource, hStop, ?_⟩
      intro k hAbove hk
      rcases Nat.lt_or_eq_of_le hk with hBelow | rfl
      · exact hPassed k hAbove (Nat.le_of_lt_succ hBelow)
      · exact hTop

end Stop

theorem finds_zero_iff : Finds view interval floor 0 target ↔ view.HasTarget 0 target := by
  have hEnds : EndsAt view interval floor 0 target ↔ view.HasTarget 0 target := by
    simp [EndsAt]
  exact exists_stop_zero_iff.trans hEnds

/-- A search ends at its first height, or passes it and goes on one below. -/
theorem finds_succ_iff {height : Nat} :
    Finds view interval floor (height + 1) target ↔
      EndsAt view interval floor (height + 1) target ∨
        IsPassed view interval floor (height + 1) ∧ Finds view interval floor height target :=
  exists_stop_succ_iff

/-- Headers that the search passes make no difference to what it finds. -/
theorem finds_iff_of_passed {low height : Nat} (hLow : low ≤ height)
    (hPassed : ∀ k, low < k → k ≤ height → IsPassed view interval floor k) :
    Finds view interval floor height target ↔ Finds view interval floor low target := by
  obtain ⟨gap, rfl⟩ := Nat.exists_eq_add_of_le hLow
  induction gap with
  | zero => rfl
  | succ gap ih =>
      have hTop := hPassed (low + gap + 1) (by omega) (Nat.le_refl _)
      have hBelow := ih (Nat.le_add_right _ _) (fun k hAbove hk => hPassed k hAbove (by omega))
      rw [← Nat.add_assoc, finds_succ_iff, ← hBelow, and_iff_right hTop]
      apply or_iff_right
      rintro ⟨hTarget, hEnd⟩
      obtain rfl := hTarget.unique hTop.2
      rcases hEnd with hBoundary | hOther
      · exact hTop.1 hBoundary
      · exact hOther rfl

theorem Finds.exists_header {height : Nat} (h : Finds view interval floor height target) :
    ∃ header, view.headerAt height = some header := by
  obtain ⟨source, hSource, hEnds, hPassed⟩ := h
  rcases Nat.lt_or_eq_of_le hSource with hBelow | rfl
  · obtain ⟨header, hHeader, _⟩ := (hPassed height hBelow (Nat.le_refl _)).2
    exact ⟨header, hHeader⟩
  · obtain ⟨header, hHeader, _⟩ := hEnds.1
    exact ⟨header, hHeader⟩

/-- The search as it runs finds what the description says. The induction is on the height, along
`finds_succ_iff`. -/
theorem regularTargetFrom_eq_ok_iff {height : Nat} {header : Header}
    (hHeld : view.headerAt height = some header) :
    regularTargetFrom view interval floor height header = .ok target ↔
      Finds view interval floor height target := by
  induction height generalizing header with
  | zero =>
      rw [finds_zero_iff, View.hasTarget_iff hHeld]
      rfl
  | succ height ih =>
      rw [finds_succ_iff, EndsAt, IsPassed, View.hasTarget_iff hHeld, View.hasTarget_iff hHeld,
        regularTargetFrom]
      cases hBits : Target.ofBits header.bits with
      | error error => simp
      | ok found =>
          simp only [Except.ok.injEq]
          by_cases hEnd : (height + 1) % interval = 0 ∨ found ≠ floor
          · rw [if_pos hEnd]
            constructor
            · intro hFound
              obtain rfl := Except.ok.inj hFound
              exact .inl ⟨rfl, hEnd⟩
            · rintro (⟨rfl, _⟩ | ⟨⟨hInside, hFloor⟩, _⟩)
              · rfl
              · exact absurd hEnd (not_or.mpr ⟨hInside, not_not_intro hFloor⟩)
          · have hPassed : (height + 1) % interval ≠ 0 ∧ found = floor := by
              rw [not_or, Decidable.not_not] at hEnd
              exact hEnd
            have hNotEnds : ¬(found = target ∧ ((height + 1) % interval = 0 ∨ target ≠ floor)) := by
              rintro ⟨rfl, hHere⟩
              exact hEnd hHere
            rw [if_neg hEnd, or_iff_right hNotEnds, and_iff_right hPassed]
            cases hBelow : view.headerAt height with
            | none =>
                constructor
                · intro hFound
                  cases hFound
                · intro hFinds
                  obtain ⟨previous, hPrevious⟩ := hFinds.exists_header
                  cases hBelow.symm.trans hPrevious
            | some previous => exact ih hBelow

theorem regularTarget_eq_ok_iff {cursor : Cursor} :
    regularTarget interval floor cursor = .ok target ↔
      Finds cursor.view interval floor cursor.height target :=
  regularTargetFrom_eq_ok_iff cursor.held

/-- Side by side, two searches look at headers that are alike until one of them ends or the first one
meets a hole. -/
theorem regularTargetFrom_covered {holes : Prop} {other : View} {height : Nat} {first second : Header}
    (h : view.CoveredUpTo holes other height) (hAlike : first.Alike second) :
    SameOrMissing holes (· = ·) (regularTargetFrom view interval floor height first)
      (regularTargetFrom other interval floor height second) := by
  induction height generalizing first second with
  | zero =>
      rw [regularTargetFrom, regularTargetFrom, hAlike.2]
      exact .refl _
  | succ height ih =>
      rw [regularTargetFrom, regularTargetFrom, hAlike.2]
      cases hBits : Target.ofBits second.bits with
      | error error => exact .error error
      | ok found =>
          dsimp only
          split
          next hEnd => exact .ok rfl
          next hPassed =>
            rcases h.missing_or_held (Nat.le_succ height) with
              ⟨hLeft, hHoles | hRight⟩ | ⟨left, right, hLeft, hRight, hBelow⟩
            · rw [hLeft]
              exact .missing hHoles height _
            · rw [hLeft, hRight]
              exact .error _
            · rw [hLeft, hRight]
              exact ih (h.mono (Nat.le_succ height)) hBelow

theorem regularTarget_covered {holes : Prop} {first second : Cursor}
    (h : first.CoveredBy holes second) :
    SameOrMissing holes (· = ·) (regularTarget interval floor first)
      (regularTarget interval floor second) := by
  unfold regularTarget
  rw [← h.1]
  exact regularTargetFrom_covered h.2 h.header

section Fails

variable {height : Nat} {header : Header}

theorem fails_zero_iff : Fails view interval floor 0 error ↔ FailsAt view 0 error :=
  exists_stop_zero_iff

/-- A search fails at its first height, or passes it and fails below. -/
theorem fails_succ_iff :
    Fails view interval floor (height + 1) error ↔
      FailsAt view (height + 1) error ∨
        IsPassed view interval floor (height + 1) ∧ Fails view interval floor height error :=
  exists_stop_succ_iff

theorem failsAt_of_held (hHeld : view.headerAt height = some header) :
    FailsAt view height error ↔ Target.ofBits header.bits = .error error := by
  constructor
  · intro h
    cases h with
    | missing hMissing => cases hHeld.symm.trans hMissing
    | malformed hOther hBits =>
        cases hHeld.symm.trans hOther
        exact hBits
  · intro hBits
    exact .malformed hHeld hBits

theorem fails_of_missing (hMissing : view.headerAt height = none) :
    Fails view interval floor height error ↔ error = .missingAncestor height := by
  constructor
  · rintro ⟨source, hSource, hFails, hPassed⟩
    rcases Nat.lt_or_eq_of_le hSource with hBelow | rfl
    · obtain ⟨header, hHeader, _⟩ := (hPassed height hBelow (Nat.le_refl _)).2
      cases hMissing.symm.trans hHeader
    · cases hFails with
      | missing _ => rfl
      | malformed hHeader _ => cases hMissing.symm.trans hHeader
  · rintro rfl
    exact ⟨height, Nat.le_refl _, .missing hMissing, by omega⟩

/-- The search as it runs fails as described, by the same induction. -/
theorem regularTargetFrom_eq_error_iff (hHeld : view.headerAt height = some header) :
    regularTargetFrom view interval floor height header = .error error ↔
      Fails view interval floor height error := by
  induction height generalizing header with
  | zero =>
      rw [fails_zero_iff, failsAt_of_held hHeld]
      rfl
  | succ height ih =>
      rw [fails_succ_iff, failsAt_of_held hHeld, IsPassed, View.hasTarget_iff hHeld,
        regularTargetFrom]
      cases hBits : Target.ofBits header.bits with
      | error other => simp
      | ok found =>
          by_cases hEnd : (height + 1) % interval = 0 ∨ found ≠ floor
          · have hNotPassed : ¬((height + 1) % interval ≠ 0 ∧ found = floor) := by
              rintro ⟨hInside, hFloor⟩
              exact hEnd.elim hInside (fun hOther => hOther hFloor)
            simp [hEnd, hNotPassed]
          · obtain ⟨hInside, hFloor⟩ := not_or.mp hEnd
            obtain rfl := Decidable.not_not.mp hFloor
            simp only [if_neg hEnd, reduceCtorEq, false_or, and_true]
            rw [and_iff_right hInside]
            cases hBelow : view.headerAt height with
            | none =>
                rw [fails_of_missing hBelow]
                simp [eq_comm]
            | some previous => exact ih hBelow

theorem regularTarget_eq_error_iff {cursor : Cursor} :
    regularTarget interval floor cursor = .error error ↔
      Fails cursor.view interval floor cursor.height error :=
  regularTargetFrom_eq_error_iff cursor.held

end Fails

end PowRules.Interval

import PowRules.Check

/-! A verdict of several steps is good exactly when each step is. Two runs of the same steps give the same
verdict, or the first one stops at a missing header, if each pair of steps does. -/
namespace PowRules

variable {ε α β : Type}

theorem ok_bind (a : α) (next : α → Except ε β) : (Except.ok a >>= next) = next a := rfl

/-- A sequence is good when each part is. -/
theorem bind_eq_ok_iff {verdict : Except ε α} {next : α → Except ε β} {b : β} :
    (verdict >>= next) = .ok b ↔ ∃ a, verdict = .ok a ∧ next a = .ok b := by
  cases verdict with
  | error error =>
      constructor
      · intro h
        cases h
      · rintro ⟨_, hFirst, _⟩
        cases hFirst
  | ok a =>
      constructor
      · intro h
        exact ⟨a, rfl, h⟩
      · rintro ⟨_, hFirst, hNext⟩
        cases hFirst
        exact hNext

theorem map_eq_ok_iff {verdict : Except ε α} {f : α → β} {b : β} :
    verdict.map f = .ok b ↔ ∃ a, verdict = .ok a ∧ f a = b := by
  cases verdict with
  | error error => simp [Except.map]
  | ok a => simp [Except.map]

theorem bind_eq_error_iff {verdict : Except ε α} {next : α → Except ε β} {error : ε} :
    (verdict >>= next) = .error error ↔
      verdict = .error error ∨ ∃ a, verdict = .ok a ∧ next a = .error error := by
  cases verdict with
  | error other => simp [bind, Except.bind]
  | ok a => simp [bind, Except.bind]

theorem map_eq_error_iff {verdict : Except ε α} {f : α → β} {error : ε} :
    verdict.map f = .error error ↔ verdict = .error error := by
  cases verdict with
  | error other => simp [Except.map]
  | ok a => simp [Except.map]

/-- Both verdicts are good, with values that are alike, or both are the same error. Where holes are allowed,
the first one may report a missing header whatever the second one is. -/
inductive SameOrMissing (holes : Prop) (like : α → β → Prop) :
    Except RuleError α → Except RuleError β → Prop where
  | ok {a : α} {b : β} (h : like a b) : SameOrMissing holes like (.ok a) (.ok b)
  | error (error : RuleError) : SameOrMissing holes like (.error error) (.error error)
  | missing (hHoles : holes) (height : Nat) (second : Except RuleError β) :
      SameOrMissing holes like (.error (.missingAncestor height)) second

namespace SameOrMissing

variable {α' β' : Type} {holes : Prop} {like : α → β → Prop}

theorem refl (verdict : Except RuleError α) : SameOrMissing holes (· = ·) verdict verdict := by
  cases verdict with
  | ok a => exact .ok rfl
  | error error => exact .error error

/-- Two runs stay alike if their parts do, up to the first hole that the first one meets. -/
theorem bind {like' : α' → β' → Prop} {first : Except RuleError α} {second : Except RuleError β}
    {next : α → Except RuleError α'} {next' : β → Except RuleError β'}
    (h : SameOrMissing holes like first second)
    (hNext : ∀ a b, like a b → SameOrMissing holes like' (next a) (next' b)) :
    SameOrMissing holes like' (first >>= next) (second >>= next') := by
  cases h with
  | ok hLike => exact hNext _ _ hLike
  | error error => exact .error error
  | missing hHoles height second => exact .missing hHoles height _

theorem map {first second : Except RuleError α} (f : α → β)
    (h : SameOrMissing holes (· = ·) first second) :
    SameOrMissing holes (· = ·) (first.map f) (second.map f) := by
  cases h with
  | ok hEq => exact .ok (congrArg f hEq)
  | error error => exact .error error
  | missing hHoles height second => exact .missing hHoles height _

theorem mapLike {like' : α' → β' → Prop} {first : Except RuleError α} {second : Except RuleError β}
    {f : α → α'} {f' : β → β'} (h : SameOrMissing holes like first second)
    (hValues : ∀ a b, like a b → like' (f a) (f' b)) :
    SameOrMissing holes like' (first.map f) (second.map f') := by
  cases h with
  | ok hLike => exact .ok (hValues _ _ hLike)
  | error error => exact .error error
  | missing hHoles height second => exact .missing hHoles height _

/-- With equal values, the first result is the second one unless it misses a header. -/
theorem missing_or_eq {first second : Except RuleError α}
    (h : SameOrMissing holes (· = ·) first second) :
    (∃ height, first = .error (.missingAncestor height)) ∨ first = second := by
  cases h with
  | ok hEq => exact .inr (congrArg Except.ok hEq)
  | error error => exact .inr rfl
  | missing _ height _ => exact .inl ⟨height, rfl⟩

theorem eq {first second : Except RuleError α}
    (h : SameOrMissing False (· = ·) first second) : first = second := by
  cases h with
  | ok hEq => exact congrArg Except.ok hEq
  | error error => rfl
  | missing hHoles _ _ => exact hHoles.elim

end SameOrMissing

namespace Check

theorem verdict_bind_eq_ok_iff {check : Check α} {next : α → Check β} {b : β} :
    (check >>= next).verdict = .ok b ↔
      ∃ a, check.verdict = .ok a ∧ (next a).verdict = .ok b := by
  rw [verdict_bind]
  exact bind_eq_ok_iff

/-- Later steps that compute no digest leave only those computed before. -/
theorem digests_bind_of_silent {check : Check α} {next : α → Check β}
    (h : ∀ a, (next a).digests = []) : (check >>= next).digests = check.digests := by
  cases hVerdict : check.verdict with
  | error error => rw [bind_error next hVerdict]
  | ok a =>
      rw [bind_ok next hVerdict]
      dsimp only
      rw [h a, List.append_nil]

@[simp] theorem verdict_report (verdict : Except RuleError α) (event : Option Event) :
    (report verdict event).verdict = verdict := rfl

@[simp] theorem verdict_reject (error : RuleError) (event : Event) :
    (reject error event : Check α).verdict = .error error := rfl

@[simp] theorem digests_report (verdict : Except RuleError α) (event : Option Event) :
    (report verdict event).digests = [] := rfl

@[simp] theorem digests_reject (error : RuleError) (event : Event) :
    (reject error event : Check α).digests = [] := rfl

end Check

end PowRules

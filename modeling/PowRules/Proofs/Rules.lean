import PowRules.Rules
import PowRules.Proofs.Retarget.Locality
import PowRules.Proofs.Compact.Canonical

/-! When the rules accept a header, and how the rules of an audit differ from all rules: by the proof
of work alone. -/
namespace PowRules.Rules

variable {params : Params} {prev : Cursor} {header : Header} {hasher : Hasher}

/-- The header carries the required target and comes late enough. -/
structure Follows (params : Params) (prev : Cursor) (header : Header) : Prop where
  target : ∃ target, requiredTarget params (some prev) header.time = .ok target ∧
    Target.ofBits header.bits = .ok target
  spacing : prev.time.toNat + minSpacing ≤ header.time.toNat

/-- A header that follows carries the target of one of the origins. -/
theorem Follows.required (h : Follows params prev header) :
    ∃ target, Required params prev header.time target ∧
      Target.ofBits header.bits = .ok target := by
  obtain ⟨target, hRequired, hBits⟩ := h.target
  exact ⟨target, (requiredTarget_eq_ok_iff.mp hRequired).2, hBits⟩

/-- The rule compares targets, so the bits of the header may be spelled in another way. -/
theorem difficultyBits_eq_ok_iff {target : Target} :
    (difficultyBits target header).verdict = .ok () ↔ Target.ofBits header.bits = .ok target := by
  unfold difficultyBits
  cases hBits : Target.ofBits header.bits with
  | error error => simp [difficultyBits.wrong]
  | ok claimed =>
      by_cases hClaimed : claimed = target
      · simp [hClaimed]
      · simp [hClaimed, difficultyBits.wrong]

/-- Bits without a target are wrong bits like any other. -/
theorem difficultyBits_of_ne {target : Target} (h : Target.ofBits header.bits ≠ .ok target) :
    (difficultyBits target header).verdict = .error (.wrongBits target.bits header.bits) := by
  unfold difficultyBits
  cases hBits : Target.ofBits header.bits with
  | error error => rfl
  | ok claimed =>
      have hClaimed : claimed ≠ target := by
        rintro rfl
        exact h hBits
      simp [hClaimed, difficultyBits.wrong]

/-- The rule compares plain numbers, so a late predecessor does not make it wrap. -/
theorem spacing_eq_ok_iff {previous : Header} :
    (spacing header previous).verdict = .ok () ↔
      previous.time.toNat + minSpacing ≤ header.time.toNat := by
  unfold spacing
  by_cases hEarly : header.time.toNat < previous.time.toNat + minSpacing
  · simp [hEarly]
  · simpa [hEarly] using Nat.le_of_not_lt hEarly

theorem spacing_of_early {previous : Header}
    (h : header.time.toNat < previous.time.toNat + minSpacing) :
    (spacing header previous).verdict =
      .error (.tooEarly header.time (previous.time.toNat + minSpacing)) := by
  unfold spacing
  simp [h]

/-- An audit asks for the right bits and for the spacing, and not for work. -/
theorem stored_eq_ok_iff :
    (stored params prev header).verdict = .ok () ↔ Follows params prev header := by
  unfold stored
  rw [Check.verdict_bind_eq_ok_iff]
  constructor
  · rintro ⟨target, hRequired, hRest⟩
    obtain ⟨_, hBits, hSpacing⟩ := Check.verdict_bind_eq_ok_iff.mp hRest
    exact ⟨⟨target, hRequired, difficultyBits_eq_ok_iff.mp hBits⟩, spacing_eq_ok_iff.mp hSpacing⟩
  · rintro ⟨⟨target, hRequired, hBits⟩, hSpacing⟩
    refine ⟨target, hRequired, Check.verdict_bind_eq_ok_iff.mpr ⟨(), ?_, ?_⟩⟩
    · exact difficultyBits_eq_ok_iff.mpr hBits
    · exact spacing_eq_ok_iff.mpr hSpacing

theorem stored_of_wrongBits {target : Target}
    (hRequired : requiredTarget params (some prev) header.time = .ok target)
    (hBits : Target.ofBits header.bits ≠ .ok target) :
    (stored params prev header).verdict = .error (.wrongBits target.bits header.bits) := by
  unfold stored
  rw [Check.verdict_bind, required, Check.verdict_report, hRequired]
  change ((difficultyBits target header >>= fun _ => spacing header prev.header) :
    Check Unit).verdict = _
  rw [Check.verdict_bind, difficultyBits_of_ne hBits]
  rfl

theorem stored_of_early {target : Target}
    (hRequired : requiredTarget params (some prev) header.time = .ok target)
    (hBits : Target.ofBits header.bits = .ok target)
    (hEarly : header.time.toNat < prev.time.toNat + minSpacing) :
    (stored params prev header).verdict =
      .error (.tooEarly header.time (prev.time.toNat + minSpacing)) := by
  unfold stored
  rw [Check.verdict_bind, required, Check.verdict_report, hRequired]
  change ((difficultyBits target header >>= fun _ => spacing header prev.header) :
    Check Unit).verdict = _
  rw [Check.verdict_bind, difficultyBits_eq_ok_iff.mpr hBits]
  exact spacing_of_early hEarly

theorem stored_of_refused {error : RuleError}
    (hRequired : requiredTarget params (some prev) header.time = .error error) :
    (stored params prev header).verdict = .error error := by
  unfold stored
  rw [Check.verdict_bind, required, Check.verdict_report, hRequired]
  rfl

/-- In a view with holes an audit comes to the same verdict, or misses a header. -/
theorem stored_covered {holes : Prop} {first second : Cursor} (h : first.CoveredBy holes second) :
    SameOrMissing holes (· = ·) (stored params first header).verdict
      (stored params second header).verdict := by
  have hTime : first.header.time = second.header.time := h.time
  have hSpacing : (spacing header first.header).verdict = (spacing header second.header).verdict := by
    unfold spacing
    rw [hTime]
  unfold stored required
  rw [Check.verdict_bind, Check.verdict_bind, Check.verdict_report, Check.verdict_report]
  refine (requiredTarget_covered h params header.time).bind fun target _ hTarget => ?_
  rw [hTarget, Check.verdict_bind, Check.verdict_bind, hSpacing]
  exact .refl _

theorem stored_congr {first second : Cursor} (h : first.Alike second) :
    (stored params first header).verdict = (stored params second header).verdict :=
  (stored_covered (h.coveredBy False)).eq

/-- Work is good when the bits stand for a target and the digest is no greater. -/
theorem proofOfWork_eq_ok_iff :
    (proofOfWork params header hasher).verdict = .ok () ↔
      ∃ target, Target.ofBits header.bits = .ok target ∧
        ((header.digestCall params).run hasher).value ≤ target.value := by
  unfold proofOfWork
  cases hBits : Target.ofBits header.bits with
  | error error => simp
  | ok target =>
      rw [Check.verdict_bind_eq_ok_iff]
      by_cases hAdmits : ((header.digestCall params).run hasher).value ≤ target.value
      · simp [Check.digest_eq, Target.admits, hAdmits]
      · simp [Check.digest_eq, Target.admits, hAdmits]

/-- A digest is computed once, and only for bits that stand for a target. -/
theorem digests_proofOfWork (params : Params) (header : Header) (hasher : Hasher) :
    (proofOfWork params header hasher).digests =
      if Compact.decode? header.bits = none then [] else [header.digestCall params] := by
  unfold proofOfWork Target.ofBits
  cases Compact.decode? header.bits with
  | none => rfl
  | some claimed =>
      dsimp only
      rw [if_neg (Option.some_ne_none claimed), Check.digests_bind_of_silent]
      · rw [Check.digest_eq]
      · intro digest
        split
        · rfl
        · rfl

/-- Bad work has one error, whether the bits or the digest are at fault. -/
theorem proofOfWork_of_not_ok (h : (proofOfWork params header hasher).verdict ≠ .ok ()) :
    (proofOfWork params header hasher).verdict = .error .highHash := by
  unfold proofOfWork at h ⊢
  cases hBits : Target.ofBits header.bits with
  | error error => rfl
  | ok target =>
      simp only [hBits, Check.verdict_bind] at h ⊢
      by_cases hAdmits : target.admits ((header.digestCall params).run hasher)
      · simp [Check.digest_eq, Except.bind, hAdmits] at h
      · simp [Check.digest_eq, Except.bind, hAdmits]

/-- Once the work is good, all rules come to the same as the rules of an audit. -/
theorem accept_eq_stored (h : (proofOfWork params header hasher).verdict = .ok ()) :
    (accept params prev header hasher).verdict = (stored params prev header).verdict := by
  unfold accept difficulty stored
  simp only [Check.verdict_bind, h]
  cases (required params (some prev) header.time).verdict with
  | error error => rfl
  | ok target => rfl

/-- Nothing else is looked at once the work is bad. -/
theorem accept_of_badWork (h : (proofOfWork params header hasher).verdict ≠ .ok ()) :
    (accept params prev header hasher).verdict = .error .highHash := by
  unfold accept difficulty
  simp only [Check.verdict_bind, proofOfWork_of_not_ok h]
  rfl

theorem accept_eq_ok_iff :
    (accept params prev header hasher).verdict = .ok () ↔
      (proofOfWork params header hasher).verdict = .ok () ∧ Follows params prev header := by
  constructor
  · intro h
    have hWork : (proofOfWork params header hasher).verdict = .ok () := by
      unfold accept difficulty at h
      obtain ⟨_, hDifficulty, _⟩ := Check.verdict_bind_eq_ok_iff.mp h
      obtain ⟨_, hWork, _⟩ := Check.verdict_bind_eq_ok_iff.mp hDifficulty
      exact hWork
    rw [accept_eq_stored hWork] at h
    exact ⟨hWork, stored_eq_ok_iff.mp h⟩
  · rintro ⟨hWork, hFollows⟩
    rw [accept_eq_stored hWork]
    exact stored_eq_ok_iff.mpr hFollows

/-- A header that a target is required of is good, or one of the three rules is reported as broken. -/
theorem accept_cases {target : Target}
    (hRequired : requiredTarget params (some prev) header.time = .ok target) :
    (accept params prev header hasher).verdict = .ok () ∨
      (accept params prev header hasher).verdict = .error .highHash ∨
      (accept params prev header hasher).verdict =
        .error (.wrongBits target.bits header.bits) ∨
      (accept params prev header hasher).verdict =
        .error (.tooEarly header.time (prev.time.toNat + minSpacing)) := by
  by_cases hWork : (proofOfWork params header hasher).verdict = .ok ()
  · rw [accept_eq_stored hWork]
    by_cases hBits : Target.ofBits header.bits = .ok target
    · rcases Nat.lt_or_ge header.time.toNat (prev.time.toNat + minSpacing) with hEarly | hSpacing
      · exact .inr (.inr (.inr (stored_of_early hRequired hBits hEarly)))
      · exact .inl (stored_eq_ok_iff.mpr ⟨⟨target, hRequired, hBits⟩, hSpacing⟩)
    · exact .inr (.inr (.inl (stored_of_wrongBits hRequired hBits)))
  · exact .inr (.inl (accept_of_badWork hWork))

end PowRules.Rules

/-! The rule for required bits compares numbers and reports words. Both ways of looking at it agree for a required
target that encoding does not change: the claimed bits have to stand for a target with the required word, in
whatever form they write it. -/
namespace PowRules

variable {required : Target} {bits : UInt32}

/-- The word of a target tells it from all others that bits can stand for. -/
theorem Target.ofBits_eq_ok_iff_bits (hRounded : required.rounded = required) :
    ofBits bits = .ok required ↔
      ∃ claimed, ofBits bits = .ok claimed ∧ claimed.bits = required.bits := by
  constructor
  · intro hBits
    exact ⟨required, hBits, rfl⟩
  · rintro ⟨claimed, hBits, hWords⟩
    have hClaimed := (isExact_of_ofBits hBits).rounded_eq
    rwa [(bits_inj hClaimed hRounded).mp hWords] at hBits

/-- Of the words that stand for other targets or for none, none is the word of the required one. Zero is no
target, so its word stands for none. -/
theorem Target.value_eq_zero_of_bits_eq (hLimit : required.value < Compact.limit)
    (hRounded : required.rounded = required) (hOther : ofBits bits ≠ .ok required)
    (hWords : required.bits = bits) : required.value = 0 := by
  by_contra hNonzero
  have hExact : required.IsExact := ⟨Nat.pos_of_ne_zero hNonzero, hLimit, hRounded⟩
  rw [← hWords] at hOther
  exact hOther hExact.ofBits_bits

namespace Rules

/-- The bits of a header are good exactly when they stand for a target that is encoded like the required one.
Otherwise both words are reported, the canonical one and the claimed one, and these differ unless the required target
is zero. -/
theorem difficultyBits_iff_bits (hLimit : required.value < 2 ^ 256)
    (hRounded : required.rounded = required) (header : Header) :
    ((difficultyBits required header).verdict = .ok () ↔
      ∃ claimed, Target.ofBits header.bits = .ok claimed ∧ claimed.bits = required.bits) ∧
    ((difficultyBits required header).verdict ≠ .ok () →
      (difficultyBits required header).verdict = .error (.wrongBits required.bits header.bits) ∧
        (required.bits = header.bits → required.value = 0)) := by
  constructor
  · rw [difficultyBits_eq_ok_iff]
    exact Target.ofBits_eq_ok_iff_bits hRounded
  · intro hRefused
    rw [Ne, difficultyBits_eq_ok_iff] at hRefused
    refine ⟨difficultyBits_of_ne hRefused, ?_⟩
    exact Target.value_eq_zero_of_bits_eq (Compact.limit_eq ▸ hLimit) hRounded hRefused

/-- Another form of the required word is good, the form of another target is not, and no word is good where zero is
required, not even its own. -/
theorem difficultyBits_iff_bits_leadingZero :
    Target.bits ⟨0x123400⟩ = 0x03123400 ∧
      (difficultyBits ⟨0x123400⟩ { bits := 0x04001234 }).verdict = .ok () ∧
      (difficultyBits ⟨0x123400⟩ { bits := 0x04001235 }).verdict =
        .error (.wrongBits 0x03123400 0x04001235) ∧
      (difficultyBits ⟨0⟩ { bits := 0 }).verdict = .error (.wrongBits 0 0) := by
  have hWord : Target.bits ⟨0x123400⟩ = 0x03123400 := by rfl
  have hRounded : (⟨0x123400⟩ : Target).rounded = ⟨0x123400⟩ := by rfl
  have hZero : (⟨0⟩ : Target).rounded = ⟨0⟩ := by rfl
  have hForm := difficultyBits_iff_bits (by decide) hRounded { bits := 0x04001234 }
  have hOther := difficultyBits_iff_bits (by decide) hRounded { bits := 0x04001235 }
  have hNone := difficultyBits_iff_bits (by decide) hZero { bits := 0 }
  refine ⟨hWord, hForm.1.mpr ⟨⟨0x123400⟩, by rfl, rfl⟩, (hOther.2 ?_).1, (hNone.2 ?_).1⟩
  · rw [Ne, difficultyBits_eq_ok_iff]
    decide
  · rw [Ne, difficultyBits_eq_ok_iff]
    decide

end Rules

end PowRules

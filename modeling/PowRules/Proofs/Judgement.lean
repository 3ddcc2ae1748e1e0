import PowRules.Proofs.Chain.WindowTime
import PowRules.Proofs.Bytes
import PowRules.Proofs.Header
import PowRules.Proofs.Retarget.Refused
import PowRules.Proofs.Retarget.RegularTarget
import PowRules.Proofs.Rules

/-! What becomes of a header, told from the header, its predecessors and its digest alone: the rules are taken in
a fixed order, the first broken one is named, and at most one digest is computed on the way. Bits that stand for
no target are named only where a predecessor carries them. -/
namespace PowRules

/-- The header at a height has these bits, and they stand for no target. -/
def View.HasMalformed (view : View) (height : Nat) (bits : UInt32) : Prop :=
  ∃ header, view.headerAt height = some header ∧ header.bits = bits ∧ Compact.decode? bits = none

section Malformed

variable {params : Params} {prev cursor : Cursor} {time bits : UInt32}

theorem View.hasMalformed_of_ofBits {view : View} {height : Nat} {header : Header}
    (hHeader : view.headerAt height = some header)
    (h : Target.ofBits header.bits = .error (.malformedTarget bits)) :
    view.HasMalformed height bits := by
  obtain ⟨hNone, hError⟩ := Target.ofBits_eq_error_iff.mp h
  have hSame := RuleError.malformedTarget.inj hError
  exact ⟨header, hHeader, hSame.symm, hSame ▸ hNone⟩

theorem Cursor.hasMalformed_of_target (h : cursor.target = .error (.malformedTarget bits)) :
    cursor.view.HasMalformed cursor.height bits :=
  View.hasMalformed_of_ofBits cursor.held h

/-- Look-ups fail for what is missing, so bits are reported only where they are read. -/
theorem Refused.missing_or_malformed {error : RuleError} (h : Refused params prev time error) :
    (∃ height, error = .missingAncestor height) ∨
      ∃ bits height, error = .malformedTarget bits ∧ height ≤ prev.height ∧
        prev.view.HasMalformed height bits := by
  have hDecoded : prev.target = .error error → ∃ bits height, error = .malformedTarget bits ∧
      height ≤ prev.height ∧ prev.view.HasMalformed height bits := by
    intro hBits
    obtain ⟨_, rfl⟩ := Target.ofBits_eq_error_iff.mp hBits
    exact ⟨_, _, rfl, Nat.le_refl _, Cursor.hasMalformed_of_target hBits⟩
  have hWindow : ∀ {cursor : Cursor} {window : Nat}, cursor.windowTime window = .error error →
      ∃ height, error = .missingAncestor height := by
    intro cursor window hTime
    obtain ⟨height, _, _, _, _, hError⟩ := Cursor.windowTime_eq_error_iff.mp hTime
    exact ⟨height, hError⟩
  cases h with
  | noStart _ _ hFirst => exact .inl ⟨_, (Cursor.ancestor_eq_error_iff.mp hFirst).2⟩
  | boundaryBits _ _ _ hBits => exact .inr (hDecoded hBits)
  | noRegular _ _ _ _ hSearch =>
      obtain ⟨source, hSource, hFails, _⟩ := Interval.regularTarget_eq_error_iff.mp hSearch
      cases hFails with
      | missing _ => exact .inl ⟨source, rfl⟩
      | malformed hHeader hBits =>
          obtain ⟨_, rfl⟩ := Target.ofBits_eq_error_iff.mp hBits
          exact .inr ⟨_, source, rfl, hSource, View.hasMalformed_of_ofBits hHeader hBits⟩
  | copiedBits _ _ _ hBits => exact .inr (hDecoded hBits)
  | short => exact .inl ⟨0, rfl⟩
  | noFirst _ _ _ hFirst => exact .inl ⟨_, (Cursor.ancestor_eq_error_iff.mp hFirst).2⟩
  | noLate _ _ _ _ hLate => exact .inl (hWindow hLate)
  | noEarly _ _ _ _ _ hEarly => exact .inl (hWindow hEarly)
  | shieldBits _ _ _ _ _ _ hBits => exact .inr (hDecoded hBits)

/-- A target that cannot be computed has one of three reasons, and malformed bits belong to a header at
or below `prev`. -/
theorem requiredTarget_error_cases {error : RuleError}
    (h : requiredTarget params (some prev) time = .error error) :
    error = .heightOverflow ∨ (∃ height, error = .missingAncestor height) ∨
      ∃ bits height, error = .malformedTarget bits ∧ height ≤ prev.height ∧
        prev.view.HasMalformed height bits := by
  by_cases hHeight : prev.height < maxHeight
  · exact .inr ((requiredTarget_eq_error_iff hHeight).mp h).missing_or_malformed
  · rw [requiredTarget, if_neg hHeight] at h
    exact .inl (Except.error.inj h).symm

/-- So malformed bits are never made up. -/
theorem exists_malformed_of_requiredTarget
    (h : requiredTarget params (some prev) time = .error (.malformedTarget bits)) :
    ∃ height, height ≤ prev.height ∧ prev.view.HasMalformed height bits := by
  rcases requiredTarget_error_cases h with hError | ⟨_, hError⟩ | ⟨_, height, hError, hHeld⟩
  · cases hError
  · cases hError
  · cases hError
    exact ⟨height, hHeld⟩

end Malformed

namespace Rules

/-- The digest of a header: the one call on its 80 bytes, of the function for its own time. -/
inductive Digests (params : Params) (header : Header) (hasher : Hasher) :
    DigestCall → Hash → Prop where
  | x11 {data : List UInt8} (hData : header.LaidOut data) (hTime : params.x11After < header.time) :
      Digests params header hasher ⟨.x11, data⟩ (hasher.x11 data)
  | compatible {data : List UInt8} (hData : header.LaidOut data)
      (hX11 : header.time ≤ params.x11After) (hTime : params.legacyHashEnd < header.time) :
      Digests params header hasher ⟨.x13 .compatible, data⟩ (hasher.x13 .compatible data)
  | legacy {data : List UInt8} (hData : header.LaidOut data)
      (hX11 : header.time ≤ params.x11After) (hTime : header.time ≤ params.legacyHashEnd) :
      Digests params header hasher ⟨.x13 .legacy, data⟩ (hasher.x13 .legacy data)

/-- The number of a digest, whose last byte counts most. -/
def digestNumber (digest : Hash) : Nat :=
  Nat.ofDigits 256 (digest.bytes.map UInt8.toNat)

/-- The bits of a header stand for this number, and the digest of this call is at most as large. -/
structure Works (params : Params) (header : Header) (hasher : Hasher) (claimed : Nat)
    (call : DigestCall) : Prop where
  bits : Compact.decode? header.bits = some claimed
  digest : ∃ digest, Digests params header hasher call digest ∧ digestNumber digest ≤ claimed

/-- The verdict on a header and the digest calls made for it. Each case breaks the rule it names and none of
those above it. -/
inductive Judged (params : Params) (prev : Cursor) (header : Header) (hasher : Hasher) :
    Except RuleError Unit → List DigestCall → Prop where
  | undecodable (hBits : Compact.decode? header.bits = none) :
      Judged params prev header hasher (.error .highHash) []
  | highHash {claimed : Nat} {call : DigestCall} {digest : Hash}
      (hBits : Compact.decode? header.bits = some claimed)
      (hDigest : Digests params header hasher call digest)
      (hHigh : claimed < digestNumber digest) :
      Judged params prev header hasher (.error .highHash) [call]
  | refused {claimed : Nat} {call : DigestCall} {error : RuleError}
      (hWorks : Works params header hasher claimed call)
      (hRequired : requiredTarget params (some prev) header.time = .error error) :
      Judged params prev header hasher (.error error) [call]
  | wrongBits {claimed : Nat} {call : DigestCall} {target : Target}
      (hWorks : Works params header hasher claimed call)
      (hRequired : requiredTarget params (some prev) header.time = .ok target)
      (hDiffers : claimed ≠ target.value) :
      Judged params prev header hasher (.error (.wrongBits target.bits header.bits)) [call]
  | tooEarly {call : DigestCall} {target : Target}
      (hWorks : Works params header hasher target.value call)
      (hRequired : requiredTarget params (some prev) header.time = .ok target)
      (hEarly : header.time.toNat < prev.time.toNat + 480) :
      Judged params prev header hasher
        (.error (.tooEarly header.time (prev.time.toNat + 480))) [call]
  | accepted {call : DigestCall} {target : Target}
      (hWorks : Works params header hasher target.value call)
      (hRequired : requiredTarget params (some prev) header.time = .ok target)
      (hSpacing : prev.time.toNat + 480 ≤ header.time.toNat) :
      Judged params prev header hasher (.ok ()) [call]

variable {params : Params} {prev : Cursor} {header : Header} {hasher : Hasher} {call : DigestCall}
  {digest : Hash} {target : Target} {claimed : Nat} {verdict : Except RuleError Unit}
  {digests : List DigestCall}

section Work

theorem digestNumber_eq (digest : Hash) : digestNumber digest = digest.value :=
  (LittleEndian.value_eq_ofDigits digest.bytes).symm

/-- The bytes of a header are its encoding, so the call is the one that the rules make. -/
theorem Digests.eq (h : Digests params header hasher call digest) :
    call = header.digestCall params ∧ digest = (header.digestCall params).run hasher := by
  cases h with
  | x11 hData hTime =>
      rw [← hData.encode_eq]
      simp [Header.digestCall, Algorithm.ofTime, hTime, DigestCall.run, Algorithm.digest]
  | compatible hData hX11 hTime =>
      have hLater := UInt32.not_lt.mpr hX11
      rw [← hData.encode_eq]
      simp [Header.digestCall, Algorithm.ofTime, hLater, hTime, DigestCall.run, Algorithm.digest]
  | legacy hData hX11 hTime =>
      have hLater := UInt32.not_lt.mpr hX11
      have hEarlier := UInt32.not_lt.mpr hTime
      rw [← hData.encode_eq]
      simp [Header.digestCall, Algorithm.ofTime, hLater, hEarlier, DigestCall.run, Algorithm.digest]

theorem Digests.length_data (h : Digests params header hasher call digest) :
    call.data.length = 80 := by
  cases h with
  | x11 hData _ => exact hData.length
  | compatible hData _ _ => exact hData.length
  | legacy hData _ _ => exact hData.length

theorem exists_digests (params : Params) (header : Header) (hasher : Hasher) :
    ∃ call digest, Digests params header hasher call digest := by
  have hData := header.laidOut_encode
  by_cases hX11 : params.x11After < header.time
  · exact ⟨_, _, .x11 hData hX11⟩
  · by_cases hTime : params.legacyHashEnd < header.time
    · exact ⟨_, _, .compatible hData (UInt32.not_lt.mp hX11) hTime⟩
    · exact ⟨_, _, .legacy hData (UInt32.not_lt.mp hX11) (UInt32.not_lt.mp hTime)⟩

/-- Work in the sense of the judgement passes the rule. -/
theorem Works.proofOfWork (h : Works params header hasher claimed call) :
    (proofOfWork params header hasher).verdict = .ok () := by
  obtain ⟨digest, hDigest, hLow⟩ := h.digest
  obtain ⟨_, rfl⟩ := hDigest.eq
  rw [digestNumber_eq] at hLow
  exact proofOfWork_eq_ok_iff.mpr ⟨⟨claimed⟩, Target.ofBits_eq_ok_iff.mpr h.bits, hLow⟩

theorem Works.call_eq (h : Works params header hasher claimed call) :
    call = header.digestCall params := by
  obtain ⟨_, hDigest, _⟩ := h.digest
  exact hDigest.eq.1

theorem Works.length_data (h : Works params header hasher claimed call) :
    call.data.length = 80 := by
  obtain ⟨_, hDigest, _⟩ := h.digest
  exact hDigest.length_data

end Work

section DigestCalls

theorem digests_difficultyBits (target : Target) (header : Header) :
    (difficultyBits target header).digests = [] := by
  unfold difficultyBits
  cases Target.ofBits header.bits with
  | error error => rfl
  | ok claimed =>
      dsimp only
      split
      · rfl
      · rfl

theorem digests_spacing (header previous : Header) : (spacing header previous).digests = [] := by
  unfold spacing
  dsimp only
  split
  · rfl
  · rfl

/-- Only the work of a header is digested. -/
theorem digests_accept :
    (accept params prev header hasher).digests = (proofOfWork params header hasher).digests := by
  unfold accept difficulty
  rw [Check.digests_bind_of_silent fun _ => digests_spacing header prev.header,
    Check.digests_bind_of_silent]
  intro _
  rw [Check.digests_bind_of_silent fun target => digests_difficultyBits target header]
  rfl

/-- Bits without a target are rejected before a digest is computed. -/
theorem digests_accept_of_undecodable (hBits : Compact.decode? header.bits = none) :
    (accept params prev header hasher).digests = [] := by
  rw [digests_accept, digests_proofOfWork, if_pos hBits]

theorem digests_accept_of_decodes (hBits : Compact.decode? header.bits = some claimed) :
    (accept params prev header hasher).digests = [header.digestCall params] := by
  rw [digests_accept, digests_proofOfWork, hBits, if_neg (Option.some_ne_none claimed)]

end DigestCalls

/-- The rules come to the verdict of the judgement and to its digest calls. Each case follows from what
the rules do once the work is bad, or once it is good. -/
theorem Judged.accept_eq (h : Judged params prev header hasher verdict digests) :
    (accept params prev header hasher).verdict = verdict ∧
      (accept params prev header hasher).digests = digests := by
  cases h with
  | undecodable hBits =>
      refine ⟨accept_of_badWork ?_, digests_accept_of_undecodable hBits⟩
      intro hGood
      obtain ⟨_, hTarget, _⟩ := proofOfWork_eq_ok_iff.mp hGood
      cases hBits.symm.trans (Target.ofBits_eq_ok_iff.mp hTarget)
  | @highHash claimed _ _ hBits hDigest hHigh =>
      obtain ⟨rfl, rfl⟩ := hDigest.eq
      refine ⟨accept_of_badWork ?_, digests_accept_of_decodes hBits⟩
      intro hGood
      obtain ⟨target, hTarget, hLow⟩ := proofOfWork_eq_ok_iff.mp hGood
      obtain rfl := Option.some.inj (hBits.symm.trans (Target.ofBits_eq_ok_iff.mp hTarget))
      rw [digestNumber_eq] at hHigh
      exact Nat.not_le_of_lt hHigh hLow
  | refused hWorks hRequired =>
      rw [hWorks.call_eq, accept_eq_stored hWorks.proofOfWork]
      exact ⟨stored_of_refused hRequired, digests_accept_of_decodes hWorks.bits⟩
  | wrongBits hWorks hRequired hDiffers =>
      rw [hWorks.call_eq, accept_eq_stored hWorks.proofOfWork]
      refine ⟨stored_of_wrongBits hRequired ?_, digests_accept_of_decodes hWorks.bits⟩
      intro hSame
      exact hDiffers (Option.some.inj (hWorks.bits.symm.trans (Target.ofBits_eq_ok_iff.mp hSame)))
  | tooEarly hWorks hRequired hEarly =>
      rw [hWorks.call_eq, accept_eq_stored hWorks.proofOfWork]
      have hBits := Target.ofBits_eq_ok_iff.mpr hWorks.bits
      exact ⟨stored_of_early hRequired hBits hEarly, digests_accept_of_decodes hWorks.bits⟩
  | accepted hWorks hRequired hSpacing =>
      rw [hWorks.call_eq, accept_eq_stored hWorks.proofOfWork]
      have hBits := Target.ofBits_eq_ok_iff.mpr hWorks.bits
      exact ⟨stored_eq_ok_iff.mpr ⟨⟨_, hRequired, hBits⟩, hSpacing⟩,
        digests_accept_of_decodes hWorks.bits⟩

theorem Judged.length_data (h : Judged params prev header hasher verdict digests) :
    ∀ call ∈ digests, call.data.length = 80 := by
  intro call hCall
  cases h with
  | undecodable => cases hCall
  | highHash _ hDigest _ => exact List.mem_singleton.mp hCall ▸ hDigest.length_data
  | refused hWorks _ => exact List.mem_singleton.mp hCall ▸ hWorks.length_data
  | wrongBits hWorks _ _ => exact List.mem_singleton.mp hCall ▸ hWorks.length_data
  | tooEarly hWorks _ _ => exact List.mem_singleton.mp hCall ▸ hWorks.length_data
  | accepted hWorks _ _ => exact List.mem_singleton.mp hCall ▸ hWorks.length_data

/-- No header is left without a verdict. -/
theorem exists_judged (params : Params) (prev : Cursor) (header : Header) (hasher : Hasher) :
    ∃ verdict digests, Judged params prev header hasher verdict digests := by
  cases hBits : Compact.decode? header.bits with
  | none => exact ⟨_, _, .undecodable hBits⟩
  | some claimed =>
      obtain ⟨call, digest, hDigest⟩ := exists_digests params header hasher
      rcases Nat.lt_or_ge claimed (digestNumber digest) with hHigh | hLow
      · exact ⟨_, _, .highHash hBits hDigest hHigh⟩
      have hWorks : Works params header hasher claimed call := ⟨hBits, digest, hDigest, hLow⟩
      cases hRequired : requiredTarget params (some prev) header.time with
      | error error => exact ⟨_, _, .refused hWorks hRequired⟩
      | ok target =>
          by_cases hSame : claimed = target.value
          · subst hSame
            rcases Nat.lt_or_ge header.time.toNat (prev.time.toNat + 480) with hEarly | hSpacing
            · exact ⟨_, _, .tooEarly hWorks hRequired hEarly⟩
            · exact ⟨_, _, .accepted hWorks hRequired hSpacing⟩
          · exact ⟨_, _, .wrongBits hWorks hRequired hSame⟩

/-- A header gets exactly the verdict of the first rule it breaks, and the digest calls that go with it, each
of them on 80 bytes. Malformed bits are those of a predecessor and never its own, which decode by then. -/
theorem judged_iff_accept (params : Params) (prev : Cursor) (header : Header) (hasher : Hasher) :
    (∀ verdict digests, Judged params prev header hasher verdict digests ↔
      (accept params prev header hasher).verdict = verdict ∧
        (accept params prev header hasher).digests = digests) ∧
    (∀ call ∈ (accept params prev header hasher).digests, call.data.length = 80) ∧
    ∀ bits, (accept params prev header hasher).verdict = .error (.malformedTarget bits) →
      bits ≠ header.bits ∧ (∃ claimed, Compact.decode? header.bits = some claimed) ∧
        ∃ height, height ≤ prev.height ∧ prev.view.HasMalformed height bits := by
  obtain ⟨verdict, digests, hJudged⟩ := exists_judged params prev header hasher
  obtain ⟨hVerdict, hDigests⟩ := hJudged.accept_eq
  rw [hVerdict, hDigests]
  refine ⟨?_, ?_, ?_⟩
  · intro other calls
    constructor
    · intro hOther
      obtain ⟨hSame, hCalls⟩ := hOther.accept_eq
      exact ⟨hVerdict.symm.trans hSame, hDigests.symm.trans hCalls⟩
    · rintro ⟨rfl, rfl⟩
      exact hJudged
  · exact hJudged.length_data
  · intro bits hMalformed
    subst hMalformed
    cases hJudged with
    | refused hWorks hRequired =>
        obtain ⟨height, hHeight, hHeld⟩ := exists_malformed_of_requiredTarget hRequired
        refine ⟨?_, ⟨_, hWorks.bits⟩, height, hHeight, hHeld⟩
        rintro rfl
        obtain ⟨_, _, _, hNone⟩ := hHeld
        cases hWorks.bits.symm.trans hNone

/-- A genesis header whose bits stand for no target, as its successors see it. -/
def malformedGenesis : Cursor where
  view := View.ofArray #[{ time := 1540000000, bits := 0 }]
  height := 0
  header := { time := 1540000000, bits := 0 }
  held := rfl

/-- The bits that are reported here are those of the predecessor. The ones of the header itself decode.
-/
theorem judged_iff_accept_malformedGenesis :
    (accept .mainnet malformedGenesis { time := 1540000000, bits := 0x1d00ffff }
      ⟨fun _ => .zero, fun _ _ => .zero⟩).verdict = .error (.malformedTarget 0) ∧
    ∃ height, height ≤ malformedGenesis.height ∧ malformedGenesis.view.HasMalformed height 0 := by
  have hVerdict : (accept .mainnet malformedGenesis { time := 1540000000, bits := 0x1d00ffff }
      ⟨fun _ => .zero, fun _ _ => .zero⟩).verdict = .error (.malformedTarget 0) := by rfl
  obtain ⟨_, _, hMalformed⟩ := judged_iff_accept .mainnet malformedGenesis
    { time := 1540000000, bits := 0x1d00ffff } ⟨fun _ => .zero, fun _ _ => .zero⟩
  exact ⟨hVerdict, (hMalformed 0 hVerdict).2.2⟩

end Rules

end PowRules

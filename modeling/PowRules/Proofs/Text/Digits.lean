import Mathlib.Data.List.Induction
import Mathlib.Data.List.TakeWhile
import Mathlib.Data.Nat.Digits.Defs
import PowRules.Proofs.Text
import PowRules.Proofs.Verdict

/-! Texts of digits as a language of their own: which characters belong to it, which number they denote and where
the first fault of a text lies. The readers of digits accept just this language. -/
namespace PowRules

namespace Hex

def alphabet : List Char :=
  ['0', '1', '2', '3', '4', '5', '6', '7', '8', '9', 'a', 'b', 'c', 'd', 'e', 'f']

/-- A digit of either case. -/
def IsDigit (c : Char) : Prop :=
  c.toLower ∈ alphabet

instance : DecidablePred IsDigit := fun c =>
  inferInstanceAs (Decidable (c.toLower ∈ alphabet))

/-- The number that some digits denote, the last of them counting least. -/
def denoted (digits : List Char) : Nat :=
  Nat.ofDigits 16 (digits.reverse.map fun c => alphabet.idxOf c.toLower)

/-- A text without one mark `0x` in front, where it has one. -/
def unmarked (text : List Char) : List Char :=
  (text.dropPrefix? ['0', 'x']).getD text

/-- The character at this position is no digit, and all those in front of it are. -/
structure FirstBad (digits : List Char) (fault : BadDigit) : Prop where
  here : digits[fault.position]? = some fault.character
  bad : ¬IsDigit fault.character
  sound : ∀ k c, k < fault.position → digits[k]? = some c → IsDigit c

variable {digits front : List Char} {c : Char} {n start : Nat} {bytes : List UInt8} {fault : BadDigit}

section Mark

variable {rest : List Char}

theorem dropMark_of_first_ne (h : c ≠ '0') : dropMark (c :: rest) = c :: rest := by
  rw [dropMark]
  intro tail hMark
  exact h (List.cons.inj hMark).1

theorem dropMark_of_second_ne (h : c ≠ 'x') : dropMark ('0' :: c :: rest) = '0' :: c :: rest := by
  rw [dropMark]
  intro tail hMark
  exact h (List.cons.inj (List.cons.inj hMark).2).1

/-- Only the exact mark is taken away, and only once. -/
theorem dropMark_eq_unmarked (text : List Char) : dropMark text = unmarked text := by
  unfold dropMark unmarked
  split
  next rest => simp [List.dropPrefix?]
  next hOther =>
    cases hDrop : text.dropPrefix? ['0', 'x'] with
    | none => rfl
    | some rest =>
        obtain ⟨mark, hText, hMark⟩ := List.dropPrefix?_eq_some_iff.mp hDrop
        rw [beq_iff_eq] at hMark
        subst hMark
        exact absurd hText (hOther rest)

end Mark

section Digit

theorem toNat_lt_of_isDigit (h : IsDigit c) : c.toNat < 128 := by
  have hAlphabet : ∀ d ∈ alphabet, d.toNat < 128 := by simp [alphabet]
  by_cases hUpper : c.val ≥ 'A'.val ∧ c.val ≤ 'Z'.val
  · have hLast : c.toNat ≤ 90 := UInt32.le_iff_toNat_le.mp hUpper.2
    omega
  · have hSame : c.toLower = c := dif_neg hUpper
    rw [IsDigit, hSame] at h
    exact hAlphabet c h

/-- Beyond ASCII no character is a digit, and of the others each is looked at. -/
theorem digit?_eq (c : Char) :
    digit? c = if IsDigit c then some (alphabet.idxOf c.toLower) else none := by
  rcases Nat.lt_or_ge c.toNat 128 with hAscii | hOther
  · have hAll : ∀ code : Fin 128, digit? (Char.ofNat code) =
        if IsDigit (Char.ofNat code) then some (alphabet.idxOf (Char.ofNat code).toLower) else none := by
      decide
    have hHere := hAll ⟨c.toNat, hAscii⟩
    rwa [Char.ofNat_toNat] at hHere
  · have hNot : ¬IsDigit c := fun h => Nat.not_le_of_lt (toNat_lt_of_isDigit h) hOther
    rw [if_neg hNot]
    cases hDigit : digit? c with
    | none => rfl
    | some k => exact absurd (toNat_lt_of_digit? hDigit) (Nat.not_lt_of_le hOther)

/-- The value of a digit is its place in the alphabet. -/
theorem digit?_eq_some_iff {k : Nat} :
    digit? c = some k ↔ IsDigit c ∧ alphabet.idxOf c.toLower = k := by
  rw [digit?_eq]
  by_cases hDigit : IsDigit c
  · simp [hDigit]
  · simp [hDigit]

theorem digit?_eq_none_iff : digit? c = none ↔ ¬IsDigit c := by
  rw [digit?_eq]
  by_cases hDigit : IsDigit c
  · simp [hDigit]
  · simp [hDigit]

/-- A digit is read as a value when its lower case is what is written for that value. -/
theorem digit?_eq_some_iff_toLower {k : Nat} : digit? c = some k ↔ k < 16 ∧ c.toLower = digit k := by
  constructor
  · intro h
    have hAll : ∀ code : Fin 128, ∀ k ∈ digit? (Char.ofNat code), (Char.ofNat code).toLower = digit k := by
      decide
    have hHere := hAll ⟨c.toNat, toNat_lt_of_digit? h⟩
    rw [Char.ofNat_toNat] at hHere
    exact ⟨digit?_lt h, hHere k h⟩
  · rintro ⟨hSmall, hLower⟩
    rw [← digit?_toLower, hLower, digit?_digit hSmall]

end Digit

section Number

theorem denoted_append_singleton (front : List Char) (c : Char) :
    denoted (front ++ [c]) = 16 * denoted front + alphabet.idxOf c.toLower := by
  simp [denoted, Nat.ofDigits_cons, Nat.add_comm]

/-- Reading goes from the left, so the last digit is the one to split off. -/
theorem number?_eq_some_iff :
    number? digits = some n ↔ (∀ c ∈ digits, IsDigit c) ∧ denoted digits = n := by
  induction digits using List.reverseRecOn generalizing n with
  | nil => simp [number?, denoted, eq_comm]
  | append_singleton front c ih =>
      have hStep : number? (front ++ [c]) =
          (number? front).bind fun k => (digit? c).map (16 * k + ·) := by
        simp [number?, List.foldlM_append]
      rw [hStep, Option.bind_eq_some_iff, denoted_append_singleton]
      simp only [ih, Option.map_eq_some_iff, digit?_eq_some_iff, List.forall_mem_append,
        List.forall_mem_singleton]
      constructor
      · rintro ⟨_, ⟨hFront, rfl⟩, _, ⟨hLast, rfl⟩, rfl⟩
        exact ⟨⟨hFront, hLast⟩, rfl⟩
      · rintro ⟨⟨hFront, hLast⟩, rfl⟩
        exact ⟨_, ⟨hFront, rfl⟩, _, ⟨hLast, rfl⟩, rfl⟩

/-- So many digits denote no more than they can count. -/
theorem denoted_lt (h : ∀ c ∈ digits, IsDigit c) : denoted digits < 16 ^ digits.length := by
  have hBelow : ∀ k ∈ digits.reverse.map fun c => alphabet.idxOf c.toLower, k < 16 := by
    intro k hMem
    obtain ⟨c, hChar, rfl⟩ := List.mem_map.mp hMem
    exact List.idxOf_lt_length_of_mem (h c (List.mem_reverse.mp hChar))
  have hBound := Nat.ofDigits_lt_base_pow_length (by decide) hBelow
  rwa [List.length_map, List.length_reverse] at hBound

end Number

section Fault

theorem FirstBad.head (h : ¬IsDigit c) (rest : List Char) : FirstBad (c :: rest) ⟨c, 0⟩ where
  here := rfl
  bad := h
  sound k _ hk := absurd hk (Nat.not_lt_zero k)

/-- A good digit in front moves the first bad one by a place. -/
theorem FirstBad.cons {bad : Char} {position : Nat} (hFirst : IsDigit c)
    (h : FirstBad digits ⟨bad, position⟩) : FirstBad (c :: digits) ⟨bad, position + 1⟩ where
  here := h.here
  bad := h.bad
  sound k d hk hd := by
    cases k with
    | zero =>
        obtain rfl : c = d := Option.some.inj hd
        exact hFirst
    | succ k => exact h.sound k d (Nat.lt_of_succ_lt_succ hk) hd

theorem FirstBad.unique {other : BadDigit} (h : FirstBad digits fault) (hOther : FirstBad digits other) :
    fault = other := by
  obtain ⟨bad, position⟩ := fault
  obtain ⟨otherBad, otherPosition⟩ := other
  rcases Nat.lt_trichotomy position otherPosition with hBefore | rfl | hAfter
  · exact absurd (hOther.sound position bad hBefore h.here) h.bad
  · obtain rfl : bad = otherBad := Option.some.inj (h.here.symm.trans hOther.here)
    rfl
  · exact absurd (h.sound otherPosition otherBad hAfter hOther.here) hOther.bad

theorem FirstBad.not_forall (h : FirstBad digits fault) : ¬∀ c ∈ digits, IsDigit c :=
  fun hAll => h.bad (hAll _ (List.mem_of_getElem? h.here))

end Fault

section Pairs

theorem ofBytes_cons (byte : UInt8) (rest : List UInt8) :
    ofBytes (byte :: rest) =
      digit (byte.toNat / 16) :: digit (byte.toNat % 16) :: ofBytes rest := rfl

theorem isDigit_of_map_toLower (h : digits.map Char.toLower = ofBytes bytes) :
    ∀ c ∈ digits, IsDigit c := by
  intro c hMem
  have hLower : c.toLower ∈ ofBytes bytes := h ▸ List.mem_map_of_mem hMem
  obtain ⟨k, hDigit⟩ := exists_digit?_of_mem_ofBytes hLower
  rw [digit?_toLower] at hDigit
  exact (digit?_eq_some_iff.mp hDigit).1

/-- The halves of a byte are the values of its two digits. -/
theorem ofNat_eq_iff {high low : Nat} {byte : UInt8} (hHigh : high < 16) (hLow : low < 16) :
    UInt8.ofNat (16 * high + low) = byte ↔ byte.toNat / 16 = high ∧ byte.toNat % 16 = low := by
  rw [← UInt8.toNat_inj, UInt8.toNat_ofNat', Nat.mod_eq_of_lt (by omega)]
  omega

theorem digit_inj {first second : Nat} (hFirst : first < 16) (hSecond : second < 16)
    (h : digit first = digit second) : first = second := by
  have hValue := digit?_digit hFirst
  rw [h, digit?_digit hSecond] at hValue
  exact (Option.some.inj hValue).symm

/-- Pairs of digits are read as the bytes that they are written for. The induction takes two digits at a
time, and there is no odd one. -/
theorem toBytesFrom_eq_ok_iff (hEven : digits.length % 2 = 0) :
    toBytesFrom start digits = .ok bytes ↔ digits.map Char.toLower = ofBytes bytes := by
  fun_induction toBytesFrom start digits generalizing bytes with
  | case1 start high low rest hHigh =>
      simp only [reduceCtorEq, false_iff]
      intro hLower
      exact digit?_eq_none_iff.mp hHigh (isDigit_of_map_toLower hLower high (by simp))
  | case2 start high low rest k hLow hHigh =>
      simp only [reduceCtorEq, false_iff]
      intro hLower
      exact digit?_eq_none_iff.mp hLow (isDigit_of_map_toLower hLower low (by simp))
  | case3 start high low rest highValue lowValue hLow hHigh ih =>
      obtain ⟨hHighSmall, hHighLower⟩ := digit?_eq_some_iff_toLower.mp hHigh
      obtain ⟨hLowSmall, hLowLower⟩ := digit?_eq_some_iff_toLower.mp hLow
      rw [List.length_cons, List.length_cons] at hEven
      rw [map_eq_ok_iff, List.map_cons, List.map_cons, hHighLower, hLowLower]
      constructor
      · rintro ⟨tail, hRest, rfl⟩
        obtain ⟨hDiv, hMod⟩ := (ofNat_eq_iff hHighSmall hLowSmall).mp rfl
        rw [(ih (by omega)).mp hRest, ofBytes_cons, hDiv, hMod]
      · intro hBytes
        cases bytes with
        | nil => cases hBytes
        | cons byte tail =>
            have hByte := byte.toNat_lt
            rw [ofBytes_cons, List.cons.injEq, List.cons.injEq] at hBytes
            obtain ⟨hDiv, hMod, hTail⟩ := hBytes
            refine ⟨tail, (ih (by omega)).mpr hTail, congrArg (· :: tail) ?_⟩
            exact (ofNat_eq_iff hHighSmall hLowSmall).mpr
              ⟨(digit_inj hHighSmall (by omega) hDiv).symm, (digit_inj hLowSmall (by omega) hMod).symm⟩
  | case4 digits start hShort =>
      cases digits with
      | nil => cases bytes <;> simp [ofBytes]
      | cons high others =>
          cases others with
          | nil => simp at hEven
          | cons low rest => exact absurd rfl (hShort high low rest)

theorem toBytes_eq_ok_iff (hEven : digits.length % 2 = 0) :
    toBytes digits = .ok bytes ↔ digits.map Char.toLower = ofBytes bytes :=
  toBytesFrom_eq_ok_iff hEven

/-- The fault reported is the first character that is no digit, with its position from the start. -/
theorem firstBad_of_toBytesFrom (h : toBytesFrom start digits = .error fault) :
    ∃ position, fault.position = start + position ∧ FirstBad digits ⟨fault.character, position⟩ := by
  fun_induction toBytesFrom start digits with
  | case1 start high low rest hHigh =>
      obtain rfl := Except.error.inj h
      exact ⟨0, rfl, .head (digit?_eq_none_iff.mp hHigh) _⟩
  | case2 start high low rest k hLow hHigh =>
      obtain rfl := Except.error.inj h
      have hFirst := (digit?_eq_some_iff.mp hHigh).1
      exact ⟨1, rfl, (FirstBad.head (digit?_eq_none_iff.mp hLow) _).cons hFirst⟩
  | case3 start high low rest highValue lowValue hLow hHigh ih =>
      obtain ⟨position, hPosition, hBad⟩ := ih (map_eq_error_iff.mp h)
      have hSecond := hBad.cons (digit?_eq_some_iff.mp hLow).1
      exact ⟨position + 2, by omega, hSecond.cons (digit?_eq_some_iff.mp hHigh).1⟩
  | case4 => cases h

theorem firstBad_of_toBytes (h : toBytes digits = .error fault) : FirstBad digits fault := by
  obtain ⟨position, hPosition, hBad⟩ := firstBad_of_toBytesFrom h
  rw [Nat.zero_add] at hPosition
  subst hPosition
  exact hBad

end Pairs

end Hex

end PowRules

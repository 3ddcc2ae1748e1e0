import PowRules.Proofs.Text.Digits

/-! Which texts are compact words. White space at both ends and then one mark in front do not count. What is left
is a numeral of at most eight bytes, whose plus sign counts as one of them, so that no number is too large. -/
namespace PowRules.Compact

/-- Some digits, at least one, behind at most one plus sign. -/
structure Numeral (word digits : List Char) : Prop where
  sign : word = digits ∨ word = '+' :: digits
  filled : digits ≠ []
  digits : ∀ c ∈ digits, Hex.IsDigit c

variable {text : String} {word digits : List Char} {bits : UInt32} {error : BitsTextError}

section Numeral

theorem dropPlus_of_isDigit (h : ∀ c ∈ word, Hex.IsDigit c) : dropPlus word = word := by
  rw [dropPlus.eq_def]
  split
  next rest =>
    have hPlus : ¬Hex.IsDigit '+' := by decide
    exact absurd (h '+' List.mem_cons_self) hPlus
  next => rfl

theorem Numeral.dropPlus_eq (h : Numeral word digits) : dropPlus word = digits := by
  rcases h.sign with rfl | rfl
  · exact dropPlus_of_isDigit h.digits
  · rfl

/-- What is left without the plus sign is a numeral as soon as it has digits only. -/
theorem numeral_dropPlus (hFilled : dropPlus word ≠ []) (hDigits : ∀ c ∈ dropPlus word, Hex.IsDigit c) :
    Numeral word (dropPlus word) := by
  refine ⟨?_, hFilled, hDigits⟩
  rw [dropPlus.eq_def]
  split
  next rest => exact .inr rfl
  next => exact .inl rfl

/-- A word is a numeral in at most one way, which is found by taking the plus sign away. -/
theorem exists_numeral_iff :
    (∃ digits, Numeral word digits) ↔ dropPlus word ≠ [] ∧ ∀ c ∈ dropPlus word, Hex.IsDigit c := by
  constructor
  · rintro ⟨digits, hNumeral⟩
    rw [hNumeral.dropPlus_eq]
    exact ⟨hNumeral.filled, hNumeral.digits⟩
  · rintro ⟨hFilled, hDigits⟩
    exact ⟨_, numeral_dropPlus hFilled hDigits⟩

/-- Each character takes a byte or more, so eight bytes hold no more than eight digits. -/
theorem Numeral.denoted_lt (h : Numeral word digits) (hSize : (Utf8.bytes word).length ≤ 8) :
    Hex.denoted digits < 2 ^ 32 := by
  have hWord := Utf8.length_le_length_bytes word
  have hLength : digits.length ≤ word.length := by
    rcases h.sign with rfl | rfl
    · exact Nat.le_refl _
    · exact Nat.le_succ _
  calc Hex.denoted digits < 16 ^ digits.length := Hex.denoted_lt h.digits
    _ ≤ 16 ^ 8 := Nat.pow_le_pow_right (by decide) (by omega)
    _ = 2 ^ 32 := by decide

end Numeral

section Parse

theorem parse_of_size (hWord : Hex.dropMark (Blank.trim text.toList) = word)
    (hSize : word = [] ∨ 8 < (Utf8.bytes word).length) : parse text = .error (.length text) := by
  simp only [parse, hWord, if_pos hSize]

/-- Eight digits are no more than a word can hold, so nothing overflows. -/
theorem parse_of_numeral (hWord : Hex.dropMark (Blank.trim text.toList) = word)
    (hSize : (Utf8.bytes word).length ≤ 8) (hNumeral : Numeral word digits) :
    parse text = .ok (UInt32.ofNat (Hex.denoted digits)) := by
  have hPlus := hNumeral.dropPlus_eq
  have hFilled : word ≠ [] := by
    rintro rfl
    exact hNumeral.filled hPlus.symm
  have hNumber : Hex.number? digits = some (Hex.denoted digits) :=
    Hex.number?_eq_some_iff.mpr ⟨hNumeral.digits, rfl⟩
  simp only [parse, hWord, hPlus, hNumber, hFilled, hNumeral.filled, Nat.not_lt_of_le hSize, or_self,
    if_false]

theorem parse_of_no_numeral (hWord : Hex.dropMark (Blank.trim text.toList) = word) (hFilled : word ≠ [])
    (hSize : (Utf8.bytes word).length ≤ 8) (hNone : ¬∃ digits, Numeral word digits) :
    parse text = .error (.digits text) := by
  rw [exists_numeral_iff] at hNone
  simp only [parse, hWord, hFilled, Nat.not_lt_of_le hSize, or_self, if_false]
  by_cases hPlus : dropPlus word = []
  · rw [if_pos hPlus]
  · rw [if_neg hPlus]
    cases hNumber : Hex.number? (dropPlus word) with
    | none => rfl
    | some n => exact absurd ⟨hPlus, (Hex.number?_eq_some_iff.mp hNumber).1⟩ hNone

/-- Reading succeeds for numerals of at most eight bytes, and gives their number. -/
theorem parse_eq_ok_iff (hWord : Hex.dropMark (Blank.trim text.toList) = word) :
    parse text = .ok bits ↔ (Utf8.bytes word).length ≤ 8 ∧
      ∃ digits, Numeral word digits ∧ bits.toNat = Hex.denoted digits := by
  constructor
  · intro hParse
    by_cases hLength : word = [] ∨ 8 < (Utf8.bytes word).length
    · cases (parse_of_size hWord hLength).symm.trans hParse
    · obtain ⟨hFilled, hLong⟩ := not_or.mp hLength
      have hSize := Nat.le_of_not_lt hLong
      by_cases hNumeral : ∃ digits, Numeral word digits
      · obtain ⟨digits, hNumeral⟩ := hNumeral
        obtain rfl := Except.ok.inj ((parse_of_numeral hWord hSize hNumeral).symm.trans hParse)
        exact ⟨hSize, digits, hNumeral, UInt32.toNat_ofNat_of_lt' (hNumeral.denoted_lt hSize)⟩
      · cases (parse_of_no_numeral hWord hFilled hSize hNumeral).symm.trans hParse
  · rintro ⟨hSize, digits, hNumeral, hBits⟩
    rw [parse_of_numeral hWord hSize hNumeral, ← hBits, UInt32.ofNat_toNat]

/-- The length is looked at before the digits, so only one of the errors applies. -/
theorem parse_eq_error_iff (hWord : Hex.dropMark (Blank.trim text.toList) = word) :
    parse text = .error error ↔
      (word = [] ∨ 8 < (Utf8.bytes word).length) ∧ error = .length text ∨
        (word ≠ [] ∧ (Utf8.bytes word).length ≤ 8 ∧ ¬∃ digits, Numeral word digits) ∧
          error = .digits text := by
  constructor
  · intro hParse
    by_cases hLength : word = [] ∨ 8 < (Utf8.bytes word).length
    · exact .inl ⟨hLength, Except.error.inj (hParse.symm.trans (parse_of_size hWord hLength))⟩
    · obtain ⟨hFilled, hLong⟩ := not_or.mp hLength
      have hSize := Nat.le_of_not_lt hLong
      have hNone : ¬∃ digits, Numeral word digits := by
        rintro ⟨digits, hNumeral⟩
        cases (parse_of_numeral hWord hSize hNumeral).symm.trans hParse
      have hDigits := parse_of_no_numeral hWord hFilled hSize hNone
      exact .inr ⟨⟨hFilled, hSize, hNone⟩, Except.error.inj (hParse.symm.trans hDigits)⟩
  · rintro (⟨hLength, rfl⟩ | ⟨⟨hFilled, hSize, hNone⟩, rfl⟩)
    · exact parse_of_size hWord hLength
    · exact parse_of_no_numeral hWord hFilled hSize hNone

/-- A text is a compact word exactly when what is left of it is a numeral of at most eight bytes, and the word is
the very number that its digits denote. Of other texts a wrong length is reported before a wrong character. -/
theorem parse_iff_numeral (text : String) :
    (∃ core, Blank.Trims text.toList core) ∧
    (∀ core, Blank.Trims text.toList core →
      let word := Hex.unmarked core
      let size := (String.ofList word).utf8ByteSize
      (∀ bits, parse text = .ok bits ↔
        size ≤ 8 ∧ ∃ digits, Numeral word digits ∧ bits.toNat = Hex.denoted digits) ∧
      ∀ error, parse text = .error error ↔
        ((word = [] ∨ 8 < size) ∧ error = .length text ∧
          error.messages = [s!"invalid compact bits '{text}': expected 1 to 8 hex digits"]) ∨
        (word ≠ [] ∧ size ≤ 8 ∧ ¬∃ digits, Numeral word digits) ∧ error = .digits text ∧
          error.messages = [s!"invalid compact bits '{text}'", "invalid digit found in string"]) ∧
    ∀ (bits : UInt32) (digits front back : List Char), Hex.Written 8 bits.toNat digits →
      (∀ c ∈ front, Blank.isBlank c = true) → (∀ c ∈ back, Blank.isBlank c = true) →
      parse (String.ofList (front ++ digits ++ back)) = .ok bits ∧
        parse (String.ofList (front ++ '0' :: 'x' :: digits ++ back)) = .ok bits := by
  refine ⟨⟨_, Blank.trims_trim text.toList⟩, ?_, ?_⟩
  · intro core hCore word size
    have hWord : Hex.dropMark (Blank.trim text.toList) = word := by
      rw [hCore.trim_eq, Hex.dropMark_eq_unmarked]
    have hSize : (Utf8.bytes word).length = size := Utf8.length_bytes word
    refine ⟨?_, ?_⟩
    · intro bits
      rw [parse_eq_ok_iff hWord, hSize]
    · intro error
      rw [parse_eq_error_iff hWord, hSize]
      refine or_congr (and_congr_right fun _ => ?_) (and_congr_right fun _ => ?_)
      · exact ⟨fun hError => ⟨hError, hError ▸ rfl⟩, And.left⟩
      · exact ⟨fun hError => ⟨hError, hError ▸ rfl⟩, And.left⟩
  · intro bits digits front back hWritten hFront hBack
    exact ⟨parse_surrounded hFront hBack hWritten, parse_surrounded_marked hFront hBack hWritten⟩

/-- A wide blank, a mark and a sign come before the digits, and a line feed after them. -/
theorem parse_iff_numeral_signed :
    parse "\u2003 0x+1D\n" = .ok 29 ∧ parse " 0x1D00ffff\t" = .ok 0x1d00ffff := by
  have hFirst : ∀ c, ['0', 'x', '+', '1', 'D'].head? = some c → Blank.isBlank c = false := by
    rintro _ ⟨⟩
    rfl
  have hLast : ∀ c, ['0', 'x', '+', '1', 'D'].getLast? = some c → Blank.isBlank c = false := by
    rintro _ ⟨⟩
    rfl
  have hCore : Blank.Trims "\u2003 0x+1D\n".toList ['0', 'x', '+', '1', 'D'] :=
    ⟨⟨['\u2003', ' '], ['\n'], rfl, List.all_eq_true.mp rfl, List.all_eq_true.mp rfl⟩, hFirst, hLast⟩
  have hDigits : ∀ c ∈ ['1', 'D'], Hex.IsDigit c :=
    List.forall_mem_cons.mpr ⟨by decide, List.forall_mem_singleton.mpr (by decide)⟩
  have hNumeral : Numeral ['+', '1', 'D'] ['1', 'D'] := ⟨.inr rfl, by decide, hDigits⟩
  obtain ⟨-, hWords, hSpaced⟩ := parse_iff_numeral "\u2003 0x+1D\n"
  obtain ⟨-, hMarked⟩ := hSpaced 0x1d00ffff "1D00ffff".toList [' '] ['\t'] rfl
    (List.all_eq_true.mp rfl) (List.all_eq_true.mp rfl)
  exact ⟨((hWords _ hCore).1 29).mpr ⟨by decide, _, hNumeral, by decide⟩, hMarked⟩

end Parse

end PowRules.Compact

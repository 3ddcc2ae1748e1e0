import PowRules.Proofs.Text.Digits

/-! Which texts are hashes. A mark in front counts neither for the length nor for positions, both count bytes, and
a text of the right length is refused for the first byte from the left that is no digit. -/
namespace PowRules.Hash

variable {text : String} {word : List Char} {hash : Hash} {error : HashTextError}

section Octets

theorem octets_cons (c : Char) (rest : List Char) :
    octets (String.ofList (c :: rest)) =
      (String.utf8EncodeChar c).map (fun byte => Char.ofNat byte.toNat) ++
        octets (String.ofList rest) := by
  simp only [octets, String.toList_ofList, Utf8.bytes_cons, List.map_append]

/-- A character of one byte is its own octet. -/
theorem octets_cons_of_ascii {c : Char} (h : c.toNat < 128) (rest : List Char) :
    octets (String.ofList (c :: rest)) = c :: octets (String.ofList rest) := by
  have hByte : Char.ofNat (UInt8.ofNat c.toNat).toNat = c := by
    rw [UInt8.toNat_ofNat', Nat.mod_eq_of_lt (by omega), Char.ofNat_toNat]
  rw [octets_cons, Utf8.encode_of_ascii h, List.map_singleton, hByte]
  rfl

/-- Beyond ASCII a character starts with a byte that is neither a digit nor part of a mark. -/
theorem octets_cons_of_other {c : Char} (h : 128 ≤ c.toNat) (rest : List Char) :
    ∃ first others, octets (String.ofList (c :: rest)) = first :: others ∧ 128 ≤ first.toNat := by
  obtain ⟨byte, tail, hBytes⟩ := List.exists_cons_of_ne_nil (String.utf8EncodeChar_ne_nil (c := c))
  have hLarge : 128 ≤ byte.toNat := by
    apply Utf8.le_of_mem_encode h
    rw [hBytes]
    exact List.mem_cons_self
  have hValid : byte.toNat.isValidChar := .inl (Nat.lt_trans byte.toNat_lt (by decide))
  have hOctets := octets_cons c rest
  rw [hBytes, List.map_cons, List.cons_append] at hOctets
  refine ⟨_, _, hOctets, ?_⟩
  rw [Char.ofNat, dif_pos hValid]
  exact hLarge

/-- Digits are single bytes, so a text whose octets are digits has no longer characters. -/
theorem ascii_of_octets (h : ∀ c ∈ octets (String.ofList word), Hex.IsDigit c) :
    ∀ c ∈ word, c.toNat < 128 := by
  induction word with
  | nil => simp
  | cons c rest ih =>
      rcases Nat.lt_or_ge c.toNat 128 with hAscii | hOther
      · rw [octets_cons_of_ascii hAscii, List.forall_mem_cons] at h
        exact List.forall_mem_cons.mpr ⟨hAscii, ih h.2⟩
      · obtain ⟨first, others, hOctets, hLarge⟩ := octets_cons_of_other hOther rest
        rw [hOctets, List.forall_mem_cons] at h
        exact absurd (Hex.toNat_lt_of_isDigit h.1) (Nat.not_lt_of_le hLarge)

/-- A mark is taken away from the bytes of a text where it is taken away from its characters. -/
theorem dropMark_octets (word : List Char) :
    Hex.dropMark (octets (String.ofList word)) = octets (String.ofList (Hex.dropMark word)) := by
  have hLargeNe : ∀ {c d : Char}, 128 ≤ c.toNat → d.toNat < 128 → c ≠ d := by
    rintro c _ hLarge hSmall rfl
    exact Nat.not_lt_of_le hLarge hSmall
  cases word with
  | nil => rfl
  | cons c rest =>
      rcases Nat.lt_or_ge c.toNat 128 with hAscii | hOther
      · by_cases hZero : c = '0'
        · subst hZero
          rw [octets_cons_of_ascii hAscii]
          cases rest with
          | nil => rfl
          | cons d rest =>
              rcases Nat.lt_or_ge d.toNat 128 with hSecond | hSecond
              · rw [octets_cons_of_ascii hSecond]
                by_cases hMark : d = 'x'
                · subst hMark
                  rfl
                · rw [Hex.dropMark_of_second_ne hMark, Hex.dropMark_of_second_ne hMark,
                    octets_cons_of_ascii hAscii, octets_cons_of_ascii hSecond]
              · obtain ⟨first, others, hOctets, hLarge⟩ := octets_cons_of_other hSecond rest
                rw [hOctets, Hex.dropMark_of_second_ne (hLargeNe hLarge (by decide)),
                  Hex.dropMark_of_second_ne (hLargeNe hSecond (by decide)), octets_cons_of_ascii hAscii,
                  hOctets]
        · rw [octets_cons_of_ascii hAscii, Hex.dropMark_of_first_ne hZero,
            Hex.dropMark_of_first_ne hZero, octets_cons_of_ascii hAscii]
      · obtain ⟨first, others, hOctets, hLarge⟩ := octets_cons_of_other hOther rest
        rw [Hex.dropMark_of_first_ne (hLargeNe hOther (by decide)), hOctets,
          Hex.dropMark_of_first_ne (hLargeNe hLarge (by decide))]

end Octets

section Parse

variable {digits : List Char}

theorem parse_of_length_ne (hDigits : Hex.dropMark (octets text) = digits) (hLength : digits.length ≠ 64) :
    parse text = .error (.length (digits.length / 2)) := by
  rw [parse, dif_neg (hDigits ▸ hLength), hDigits]

theorem parse_of_toBytes_error {fault : Hex.BadDigit} (hDigits : Hex.dropMark (octets text) = digits)
    (hLength : digits.length = 64) (hBytes : Hex.toBytes digits = .error fault) :
    parse text = .error (.digit fault) := by
  subst hDigits
  rw [parse, dif_pos hLength]
  split
  next other hOther => rw [Except.error.inj (hOther.symm.trans hBytes)]
  next bytes hOther => cases hOther.symm.trans hBytes

theorem parse_of_toBytes_ok {bytes : List UInt8} (hDigits : Hex.dropMark (octets text) = digits)
    (hLength : digits.length = 64) (hBytes : Hex.toBytes digits = .ok bytes) :
    ∃ hash : Hash, hash.bytes = bytes ∧ parse text = .ok hash := by
  subst hDigits
  rw [parse, dif_pos hLength]
  split
  next fault hOther => cases hOther.symm.trans hBytes
  next other hOther => exact ⟨_, Except.ok.inj (hOther.symm.trans hBytes), rfl⟩

theorem length_of_map_toLower (h : digits.map Char.toLower = Hex.ofBytes hash.bytes) :
    digits.length = 64 := by
  rw [← List.length_map Char.toLower, h, length_ofBytes, hash.bytes_length]

/-- Octet by octet, a hash is read exactly where its own digits stand in either case. -/
theorem parse_eq_ok_iff_octets (hDigits : Hex.dropMark (octets text) = digits) :
    parse text = .ok hash ↔ digits.map Char.toLower = Hex.ofBytes hash.bytes := by
  constructor
  · intro hParse
    have hLength : digits.length = 64 := by
      by_contra hOther
      cases (parse_of_length_ne hDigits hOther).symm.trans hParse
    rw [← Hex.toBytes_eq_ok_iff (by omega)]
    cases hBytes : Hex.toBytes digits with
    | error fault => cases (parse_of_toBytes_error hDigits hLength hBytes).symm.trans hParse
    | ok bytes =>
        obtain ⟨read, rfl, hRead⟩ := parse_of_toBytes_ok hDigits hLength hBytes
        obtain rfl := Except.ok.inj (hRead.symm.trans hParse)
        rfl
  · intro hLower
    have hLength := length_of_map_toLower hLower
    have hBytes : Hex.toBytes digits = .ok hash.bytes :=
      (Hex.toBytes_eq_ok_iff (by omega)).mpr hLower
    obtain ⟨read, hRead, hParse⟩ := parse_of_toBytes_ok hDigits hLength hBytes
    obtain rfl : read = hash := by
      cases read
      cases hash
      cases hRead
      rfl
    exact hParse

/-- Octet by octet, the length comes first and then the first octet that is no digit. -/
theorem parse_eq_error_iff_octets (hDigits : Hex.dropMark (octets text) = digits) :
    parse text = .error error ↔
      digits.length ≠ 64 ∧ error = .length (digits.length / 2) ∨
        digits.length = 64 ∧ ∃ fault, Hex.FirstBad digits fault ∧ error = .digit fault := by
  by_cases hLength : digits.length = 64
  · simp only [hLength, ne_eq, not_true_eq_false, false_and, true_and, false_or]
    cases hBytes : Hex.toBytes digits with
    | error fault =>
        have hBad := Hex.firstBad_of_toBytes hBytes
        rw [parse_of_toBytes_error hDigits hLength hBytes, Except.error.injEq]
        constructor
        · rintro rfl
          exact ⟨fault, hBad, rfl⟩
        · rintro ⟨other, hOther, rfl⟩
          exact congrArg _ (hBad.unique hOther)
    | ok bytes =>
        obtain ⟨hash, -, hParse⟩ := parse_of_toBytes_ok hDigits hLength hBytes
        have hAll := Hex.isDigit_of_map_toLower ((Hex.toBytes_eq_ok_iff (by omega)).mp hBytes)
        rw [hParse]
        simp only [reduceCtorEq, false_iff]
        rintro ⟨fault, hBad, -⟩
        exact hBad.not_forall hAll
  · simp [parse_of_length_ne hDigits hLength, hLength, eq_comm]

end Parse

section Word

/-- The octets spell the digits of some bytes exactly where the characters do. -/
theorem map_toLower_octets_iff {bytes : List UInt8} :
    (octets (String.ofList word)).map Char.toLower = Hex.ofBytes bytes ↔
      word.map Char.toLower = Hex.ofBytes bytes := by
  constructor
  · intro h
    rwa [octets_ofList (ascii_of_octets (Hex.isDigit_of_map_toLower h))] at h
  · intro h
    rwa [octets_ofList fun c hMem => Hex.toNat_lt_of_isDigit (Hex.isDigit_of_map_toLower h c hMem)]

theorem length_octets (word : List Char) :
    (octets (String.ofList word)).length = (String.ofList word).utf8ByteSize := by
  rw [octets, String.toList_ofList, List.length_map, Utf8.length_bytes]

theorem dropMark_octets_of_unmarked (hWord : Hex.unmarked text.toList = word) :
    Hex.dropMark (octets text) = octets (String.ofList word) := by
  have hMark := dropMark_octets text.toList
  rwa [String.ofList_toList, Hex.dropMark_eq_unmarked text.toList, hWord] at hMark

theorem parse_eq_ok_iff_word (hWord : Hex.unmarked text.toList = word) :
    parse text = .ok hash ↔ word.map Char.toLower = Hex.ofBytes hash.bytes := by
  rw [parse_eq_ok_iff_octets (dropMark_octets_of_unmarked hWord), map_toLower_octets_iff]

/-- Lengths and positions in the errors are counted in bytes. -/
theorem parse_eq_error_iff_word (hWord : Hex.unmarked text.toList = word) :
    parse text = .error error ↔
      (String.ofList word).utf8ByteSize ≠ 64 ∧ error = .length ((String.ofList word).utf8ByteSize / 2) ∨
        (String.ofList word).utf8ByteSize = 64 ∧
          ∃ fault, Hex.FirstBad (octets (String.ofList word)) fault ∧ error = .digit fault := by
  rw [parse_eq_error_iff_octets (dropMark_octets_of_unmarked hWord), length_octets]

/-- Digits are bytes of their own, so none of the two faults is there where all characters are digits. -/
theorem exists_parse_iff (hWord : Hex.unmarked text.toList = word) :
    (∃ hash, parse text = .ok hash) ↔ word.length = 64 ∧ ∀ c ∈ word, Hex.IsDigit c := by
  constructor
  · rintro ⟨hash, hParse⟩
    have hLower := (parse_eq_ok_iff_word hWord).mp hParse
    exact ⟨length_of_map_toLower hLower, Hex.isDigit_of_map_toLower hLower⟩
  · rintro ⟨hLength, hAll⟩
    have hSame : octets (String.ofList word) = word :=
      octets_ofList fun c hMem => Hex.toNat_lt_of_isDigit (hAll c hMem)
    cases hParse : parse text with
    | ok hash => exact ⟨hash, rfl⟩
    | error error =>
        rcases (parse_eq_error_iff_word hWord).mp hParse with ⟨hOther, -⟩ | ⟨-, fault, hBad, -⟩
        · rw [← length_octets, hSame] at hOther
          exact absurd hLength hOther
        · rw [hSame] at hBad
          exact absurd hAll hBad.not_forall

/-- A text is a hash exactly when one mark in front of it leaves 64 digits, which then are those of the hash in
either case. Of any other text the number of bytes is reported, or else the first byte that is no digit. -/
theorem parse_iff_digits (text : String) :
    let word := Hex.unmarked text.toList
    let size := (String.ofList word).utf8ByteSize
    (∀ hash, parse text = .ok hash ↔
      (word.length = 64 ∧ ∀ c ∈ word, Hex.IsDigit c) ∧
        hash.text = String.ofList (word.map Char.toLower)) ∧
    ((∃ hash, parse text = .ok hash) ↔ word.length = 64 ∧ ∀ c ∈ word, Hex.IsDigit c) ∧
    (∀ error, parse text = .error error ↔
      (size ≠ 64 ∧ error = .length (size / 2) ∧
          error.message = s!"invalid hex length: expected 32 bytes, got {size / 2} bytes") ∨
        size = 64 ∧ ∃ fault, Hex.FirstBad (octets (String.ofList word)) fault ∧
          error = .digit fault) ∧
    ∀ hash : Hash, parse hash.text = .ok hash ∧ parse ("0x" ++ hash.text) = .ok hash := by
  intro word size
  refine ⟨?_, exists_parse_iff rfl, ?_, fun hash => ⟨parse_text hash, parse_marked hash⟩⟩
  · intro hash
    rw [parse_eq_ok_iff_word rfl, Hash.text, String.ofList_inj]
    constructor
    · intro hLower
      exact ⟨⟨length_of_map_toLower hLower, Hex.isDigit_of_map_toLower hLower⟩, hLower.symm⟩
    · rintro ⟨-, hLower⟩
      exact hLower.symm
  · intro error
    rw [parse_eq_error_iff_word rfl]
    refine or_congr (and_congr_right fun _ => ?_) Iff.rfl
    constructor
    · rintro rfl
      exact ⟨rfl, rfl⟩
    · exact And.left

/-- A letter of two bytes ends a text of 64, and the first of them is named. -/
example : parse (String.ofList ('0' :: 'x' :: List.replicate 62 'A' ++ ['é'])) = .error (.digit ⟨'Ã', 62⟩) := by
  rfl

end Word

end PowRules.Hash

import Mathlib.Algebra.Group.Nat.Defs
import Mathlib.Data.List.Basic
import Mathlib.Data.List.TakeWhile
import PowRules.Compact
import PowRules.Hash
import PowRules.Text

/-! Numbers, hashes and compact words are read back from their digits, with and without `0x` in front. -/
namespace PowRules

namespace Utf8

theorem encode_of_ascii {c : Char} (h : c.toNat < 128) :
    String.utf8EncodeChar c = [UInt8.ofNat c.toNat] := by
  rw [Char.toNat] at h
  rw [String.utf8EncodeChar]
  simp only [show c.val.toNat ≤ 127 by omega, ↓reduceIte, Char.toNat]

/-- Beyond ASCII every byte of a character has its top bit set. -/
theorem le_of_mem_encode {c : Char} {byte : UInt8} (h : 128 ≤ c.toNat)
    (hMem : byte ∈ String.utf8EncodeChar c) : 128 ≤ byte.toNat := by
  have hTop : ∀ n, 128 ≤ n → n < 256 → 128 ≤ (UInt8.ofNat n).toNat := by
    intro n hLow hHigh
    rwa [UInt8.toNat_ofNat', Nat.mod_eq_of_lt hHigh]
  rw [Char.toNat] at h
  rw [String.utf8EncodeChar, if_neg (by omega)] at hMem
  split_ifs at hMem
  · simp only [List.mem_cons, List.not_mem_nil, or_false] at hMem
    rcases hMem with rfl | rfl <;> exact hTop _ (by omega) (by omega)
  · simp only [List.mem_cons, List.not_mem_nil, or_false] at hMem
    rcases hMem with rfl | rfl | rfl <;> exact hTop _ (by omega) (by omega)
  · simp only [List.mem_cons, List.not_mem_nil, or_false] at hMem
    rcases hMem with rfl | rfl | rfl | rfl <;> exact hTop _ (by omega) (by omega)

theorem bytes_cons (c : Char) (rest : List Char) :
    bytes (c :: rest) = String.utf8EncodeChar c ++ bytes rest := List.flatMap_cons

theorem bytes_of_ascii {text : List Char} (hAscii : ∀ c ∈ text, c.toNat < 128) :
    bytes text = text.map fun c => UInt8.ofNat c.toNat := by
  induction text with
  | nil => rfl
  | cons c rest ih =>
      rw [bytes_cons, encode_of_ascii (hAscii c List.mem_cons_self),
        ih fun d hd => hAscii d (List.mem_cons_of_mem c hd)]
      rfl

/-- Every character takes at least one byte. -/
theorem length_le_length_bytes (text : List Char) : text.length ≤ (bytes text).length := by
  induction text with
  | nil => exact Nat.le_refl _
  | cons c rest ih =>
      have hChar := c.utf8Size_pos
      rw [bytes_cons, List.length_append, String.length_utf8EncodeChar, List.length_cons]
      omega

theorem length_bytes (text : List Char) :
    (bytes text).length = (String.ofList text).utf8ByteSize := by
  simp [bytes, String.utf8ByteSize, List.utf8Encode]

end Utf8

namespace Blank

/-- The core is what is left of the text without the white space at its two ends. -/
structure Trims (text core : List Char) : Prop where
  around : ∃ front back, text = front ++ core ++ back ∧ (∀ c ∈ front, isBlank c = true) ∧
    ∀ c ∈ back, isBlank c = true
  first : ∀ c, core.head? = some c → isBlank c = false
  last : ∀ c, core.getLast? = some c → isBlank c = false

variable {text core : List Char}

theorem dropWhile_of_head? (h : ∀ c, text.head? = some c → isBlank c = false) :
    text.dropWhile isBlank = text := by
  cases text with
  | nil => rfl
  | cons c rest => simp [h c rfl]

theorem isBlank_of_head?_dropWhile {c : Char} (h : (text.dropWhile isBlank).head? = some c) :
    isBlank c = false := by
  have hHead := text.head?_dropWhile_not isBlank
  rwa [h] at hHead

/-- Trimming takes blanks away at both ends, and what it leaves has none there. -/
theorem trims_trim (text : List Char) : Trims text (trim text) := by
  have hRest : trim text ++ ((text.dropWhile isBlank).reverse.takeWhile isBlank).reverse =
      text.dropWhile isBlank := by
    rw [trim, ← List.reverse_append, List.takeWhile_append_dropWhile, List.reverse_reverse]
  refine ⟨⟨text.takeWhile isBlank,
    ((text.dropWhile isBlank).reverse.takeWhile isBlank).reverse, ?_, ?_, ?_⟩, ?_, ?_⟩
  · rw [List.append_assoc, hRest, List.takeWhile_append_dropWhile]
  · intro c hMem
    exact List.mem_takeWhile_imp hMem
  · intro c hMem
    exact List.mem_takeWhile_imp (List.mem_reverse.mp hMem)
  · intro c hFirst
    have hHead : (text.dropWhile isBlank).head? = some c := by
      rw [← hRest, List.head?_append, hFirst, Option.some_or]
    exact isBlank_of_head?_dropWhile hHead
  · intro c hLast
    rw [trim, List.getLast?_reverse] at hLast
    exact isBlank_of_head?_dropWhile hLast

/-- There is only one way to trim a text. -/
theorem Trims.trim_eq (h : Trims text core) : trim text = core := by
  obtain ⟨⟨front, back, rfl, hFront, hBack⟩, hFirst, hLast⟩ := h
  rw [trim, List.append_assoc, List.dropWhile_append_of_pos hFront]
  cases core with
  | nil => simp [List.dropWhile_eq_nil_iff.mpr hBack]
  | cons c rest =>
      have hWhole : (c :: rest ++ back).dropWhile isBlank = c :: rest ++ back :=
        dropWhile_of_head? (by simpa using hFirst)
      rw [hWhole, List.reverse_append, List.dropWhile_append_of_pos, dropWhile_of_head?,
        List.reverse_reverse]
      · rwa [List.head?_reverse]
      · intro c hMem
        exact hBack c (List.mem_reverse.mp hMem)

theorem trims_of_dense {front back : List Char} (hFront : ∀ c ∈ front, isBlank c = true)
    (hBack : ∀ c ∈ back, isBlank c = true) (hDense : ∀ c ∈ core, isBlank c = false) :
    Trims (front ++ core ++ back) core where
  around := ⟨front, back, rfl, hFront, hBack⟩
  first c hFirst := hDense c (List.mem_of_head? hFirst)
  last c hLast := hDense c (List.mem_of_getLast? hLast)

end Blank

namespace Decimal

theorem isDigit_of_mem_toDigits {n : Nat} {c : Char} (h : c ∈ Nat.toDigits 10 n) :
    isDigit c = true := by
  have hDigit := Nat.isDigit_of_mem_toDigits (by decide) (by decide) h
  simpa [isDigit, Char.isDigit, UInt32.le_iff_toNat_le] using hDigit

theorem number?_toDigits (n : Nat) : number? (Nat.toDigits 10 n) = some n := by
  rw [number?, if_pos ⟨Nat.toDigits_ne_nil, List.all_eq_true.mpr fun _ => isDigit_of_mem_toDigits⟩]
  exact congrArg some Nat.ofDigitChars_ten_toDigits

/-- No superfluous zero stands in front. -/
theorem head?_toDigits {n : Nat} (hZero : n ≠ 0) : (Nat.toDigits 10 n).head? ≠ some '0' := by
  induction n using Nat.strongRecOn with
  | _ n ih =>
      rw [Nat.toDigits_eq_if (by decide)]
      split
      · simp [hZero]
      · rw [List.head?_append_of_ne_nil _ Nat.toDigits_ne_nil]
        exact ih (n / 10) (by omega) (by omega)

end Decimal

namespace Hex

variable {width n : Nat} {digits : List Char} {c : Char}

theorem digit?_toLower (c : Char) : digit? c.toLower = digit? c := by
  by_cases hUpper : c.val ≥ 'A'.val ∧ c.val ≤ 'Z'.val
  · have hFirst : 65 ≤ c.toNat := UInt32.le_iff_toNat_le.mp hUpper.1
    have hLast : c.toNat ≤ 90 := UInt32.le_iff_toNat_le.mp hUpper.2
    have hLower : c.toLower.toNat = c.toNat + 32 := by
      have hShifted : c.toLower.val = c.val + 32 := congrArg Char.val (dif_pos hUpper)
      rw [Char.toNat] at hLast ⊢
      rw [hShifted, UInt32.toNat_add, Char.toNat, show (32 : UInt32).toNat = 32 from rfl]
      exact Nat.mod_eq_of_lt (by omega)
    simp only [digit?, hLower]
    split_ifs <;> grind
  · have hSame : c.toLower = c := dif_neg hUpper
    rw [hSame]

/-- A number is read back from its digits, when these are enough. -/
theorem number?_fixed (h : n < 16 ^ width) : number? (fixed width n) = some n := by
  induction width generalizing n with
  | zero =>
      have hZero : n = 0 := by simpa using h
      rw [hZero]
      rfl
  | succ width ih =>
      have hHigh : n / 16 < 16 ^ width := by
        rw [Nat.pow_succ] at h
        exact Nat.div_lt_of_lt_mul (by rwa [Nat.mul_comm])
      have hLow : digit? (digit (n % 16)) = some (n % 16) := digit?_digit (Nat.mod_lt n (by decide))
      have hDigits := ih hHigh
      rw [number?] at hDigits ⊢
      rw [fixed, List.foldlM_append, hDigits]
      simp [hLow, Nat.div_add_mod]

/-- The digits of a number, each of them in either case. -/
def Written (width n : Nat) (digits : List Char) : Prop :=
  digits.map Char.toLower = fixed width n

/-- A number is read back from its digits in either case, when these are enough. -/
theorem Written.number? (h : Written width n digits) (hn : n < 16 ^ width) :
    number? digits = some n := by
  have hLower : Hex.number? (digits.map Char.toLower) = Hex.number? digits := by
    simp only [Hex.number?, List.foldlM_map, digit?_toLower]
  rw [← hLower, h, number?_fixed hn]

theorem Written.length (h : Written width n digits) : digits.length = width := by
  rw [← List.length_map Char.toLower, h, fixed_length]

theorem exists_digit?_of_mem_fixed (h : c ∈ fixed width n) : ∃ k, digit? c = some k := by
  induction width generalizing n with
  | zero => simp [fixed] at h
  | succ width ih =>
      rw [fixed, List.mem_append, List.mem_singleton] at h
      rcases h with hHigh | rfl
      · exact ih hHigh
      · exact ⟨n % 16, digit?_digit (Nat.mod_lt n (by decide))⟩

theorem Written.exists_digit? (h : Written width n digits) (hMem : c ∈ digits) :
    ∃ k, digit? c = some k := by
  have hLower : c.toLower ∈ digits.map Char.toLower := List.mem_map_of_mem hMem
  rw [h] at hLower
  rw [← digit?_toLower]
  exact exists_digit?_of_mem_fixed hLower

theorem exists_digit?_of_mem_ofBytes {bytes : List UInt8} (h : c ∈ ofBytes bytes) :
    ∃ k, digit? c = some k := by
  obtain ⟨byte, -, hByte⟩ := List.mem_flatMap.mp h
  have hSmall := byte.toNat_lt
  simp only [List.mem_cons, List.not_mem_nil, or_false] at hByte
  rcases hByte with rfl | rfl
  · exact ⟨_, digit?_digit (by omega)⟩
  · exact ⟨_, digit?_digit (by omega)⟩

theorem toNat_lt_of_digit? {k : Nat} (h : digit? c = some k) : c.toNat < 128 := by
  unfold digit? at h
  grind

theorem isBlank_of_digit? {k : Nat} (h : digit? c = some k) : Blank.isBlank c = false := by
  have hSpan : 48 ≤ c.toNat ∧ c.toNat ≤ 102 := by
    unfold digit? at h
    grind
  simp only [Blank.isBlank, Blank.ranges, List.any_cons, List.any_nil, Bool.or_eq_false_iff,
    Bool.and_eq_false_iff, decide_eq_false_iff_not]
  grind

theorem dropMark_of_digits (h : ∀ c ∈ digits, ∃ k, digit? c = some k) : dropMark digits = digits := by
  rw [dropMark.eq_def]
  split
  next rest =>
    obtain ⟨k, hMark⟩ := h 'x' (by simp)
    cases hMark
  next => rfl

end Hex

namespace Hash

theorem octets_ofList {text : List Char} (hAscii : ∀ c ∈ text, c.toNat < 128) :
    octets (String.ofList text) = text := by
  have hBack : ∀ c ∈ text, Char.ofNat (UInt8.ofNat c.toNat).toNat = c := by
    intro c hMem
    have hSmall := hAscii c hMem
    rw [UInt8.toNat_ofNat', Nat.mod_eq_of_lt (by omega), Char.ofNat_toNat]
  rw [octets, String.toList_ofList, Utf8.bytes_of_ascii hAscii, List.map_map]
  exact (List.map_congr_left hBack).trans (List.map_id text)

theorem length_ofBytes (bytes : List UInt8) : (Hex.ofBytes bytes).length = 2 * bytes.length := by
  induction bytes with
  | nil => rfl
  | cons byte rest ih =>
      rw [Hex.ofBytes] at ih ⊢
      simp only [List.flatMap_cons, List.length_append, ih, List.length_cons, List.length_nil]
      omega

/-- A hash is read from its own digits, wherever the mark has gone. -/
theorem parse_of_digits {hash : Hash} {text : String}
    (h : Hex.dropMark (octets text) = Hex.ofBytes hash.bytes) : parse text = .ok hash := by
  have hLength : (Hex.dropMark (octets text)).length = 64 := by
    rw [h, length_ofBytes, hash.bytes_length]
  have hRead : Hex.toBytes (Hex.dropMark (octets text)) = .ok hash.bytes := by
    rw [h]
    exact Hex.toBytesFrom_ofBytes 0 hash.bytes
  rw [parse, dif_pos hLength]
  split
  next fault hBytes =>
    rw [hRead] at hBytes
    cases hBytes
  next bytes hBytes =>
    rw [hRead] at hBytes
    cases hBytes
    rfl

theorem ofBytes_ascii {hash : Hash} {c : Char} (h : c ∈ Hex.ofBytes hash.bytes) : c.toNat < 128 := by
  obtain ⟨k, hDigit⟩ := Hex.exists_digit?_of_mem_ofBytes h
  exact Hex.toNat_lt_of_digit? hDigit

@[simp] theorem parse_text (hash : Hash) : parse hash.text = .ok hash := by
  apply parse_of_digits
  rw [text, octets_ofList fun _ => ofBytes_ascii]
  exact Hex.dropMark_of_digits fun _ => Hex.exists_digit?_of_mem_ofBytes

/-- The mark in front makes no difference. -/
@[simp] theorem parse_marked (hash : Hash) : parse ("0x" ++ hash.text) = .ok hash := by
  have hText : "0x" ++ hash.text = String.ofList ('0' :: 'x' :: Hex.ofBytes hash.bytes) := by
    rw [text, ← String.toList_inj]
    simp
  apply parse_of_digits
  rw [hText, octets_ofList, Hex.dropMark]
  intro c hMem
  simp only [List.mem_cons] at hMem
  rcases hMem with rfl | rfl | hMem
  · decide
  · decide
  · exact ofBytes_ascii hMem

end Hash

namespace Compact

variable {bits : UInt32} {digits : List Char}

/-- Once mark and blanks are gone, the eight digits of a word are read in either case. -/
theorem parse_of_written {text : String} (hWritten : Hex.Written 8 bits.toNat digits)
    (hText : Hex.dropMark (Blank.trim text.toList) = digits) : parse text = .ok bits := by
  have hLength := hWritten.length
  have hBytes : (Utf8.bytes digits).length = 8 := by
    rw [Utf8.bytes_of_ascii, List.length_map, hLength]
    intro c hMem
    obtain ⟨k, hDigit⟩ := hWritten.exists_digit? hMem
    exact Hex.toNat_lt_of_digit? hDigit
  have hPlus : dropPlus digits = digits := by
    rw [dropPlus.eq_def]
    split
    next rest =>
      obtain ⟨k, hDigit⟩ := hWritten.exists_digit? (c := '+') (by simp)
      cases hDigit
    next => rfl
  have hFilled : digits ≠ [] := by
    rintro rfl
    cases hLength
  have hNumber : Hex.number? digits = some bits.toNat := hWritten.number? bits.toNat_lt
  simp only [parse, hText, hPlus, hNumber, hFilled, hBytes, Nat.lt_irrefl, or_self, if_false]
  rw [UInt32.ofNat_toNat]

section Surrounded

variable {front back : List Char}

/-- White space on both sides of the digits is passed over. -/
theorem parse_surrounded (hFront : ∀ c ∈ front, Blank.isBlank c = true)
    (hBack : ∀ c ∈ back, Blank.isBlank c = true) (hWritten : Hex.Written 8 bits.toNat digits) :
    parse (String.ofList (front ++ digits ++ back)) = .ok bits := by
  apply parse_of_written hWritten
  rw [String.toList_ofList, (Blank.trims_of_dense hFront hBack _).trim_eq]
  · exact Hex.dropMark_of_digits fun _ => hWritten.exists_digit?
  · intro c hMem
    obtain ⟨k, hDigit⟩ := hWritten.exists_digit? hMem
    exact Hex.isBlank_of_digit? hDigit

theorem parse_surrounded_marked (hFront : ∀ c ∈ front, Blank.isBlank c = true)
    (hBack : ∀ c ∈ back, Blank.isBlank c = true) (hWritten : Hex.Written 8 bits.toNat digits) :
    parse (String.ofList (front ++ '0' :: 'x' :: digits ++ back)) = .ok bits := by
  apply parse_of_written hWritten
  rw [String.toList_ofList, (Blank.trims_of_dense hFront hBack _).trim_eq, Hex.dropMark]
  intro c hMem
  simp only [List.mem_cons] at hMem
  rcases hMem with rfl | rfl | hMem
  · decide
  · decide
  · obtain ⟨k, hDigit⟩ := hWritten.exists_digit? hMem
    exact Hex.isBlank_of_digit? hDigit

end Surrounded

theorem parse_digits (hWritten : Hex.Written 8 bits.toNat digits) :
    parse (String.ofList digits) = .ok bits := by
  have hBare : parse (String.ofList ([] ++ digits ++ [])) = .ok bits :=
    parse_surrounded (by simp) (by simp) hWritten
  rwa [List.nil_append, List.append_nil] at hBare

theorem parse_marked (hWritten : Hex.Written 8 bits.toNat digits) :
    parse (String.ofList ('0' :: 'x' :: digits)) = .ok bits := by
  have hBare : parse (String.ofList ([] ++ '0' :: 'x' :: digits ++ [])) = .ok bits :=
    parse_surrounded_marked (by simp) (by simp) hWritten
  rwa [List.nil_append, List.append_nil] at hBare

end Compact

end PowRules

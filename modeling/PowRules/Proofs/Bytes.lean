import Mathlib.Data.Nat.Digits.Defs
import Mathlib.Tactic.Ring
import Mathlib.Tactic.Tauto
import PowRules.Hash
import PowRules.Proofs.Text.Digits

/-! Little-endian numbers below the capacity of their width are read back, so a digest is a number
below `2 ^ 256`. -/
namespace PowRules

namespace LittleEndian

theorem value_lt (bytes : List UInt8) : value bytes < 256 ^ bytes.length := by
  induction bytes with
  | nil => simp [value]
  | cons byte rest ih =>
      have hByte := byte.toNat_lt
      simp only [value, List.length_cons, Nat.pow_succ]
      omega

@[simp] theorem value_encode {width n : Nat} (h : n < 256 ^ width) :
    value (encode width n) = n := by
  induction width generalizing n with
  | zero => simp at h; subst n; rfl
  | succ width ih =>
      have hDiv : n / 256 < 256 ^ width := by
        rw [Nat.pow_succ] at h
        omega
      simp only [encode, value, ih hDiv, UInt8.toNat_ofNat']
      omega

/-- The bytes behind count by the capacity of those in front. -/
theorem value_append (first second : List UInt8) :
    value (first ++ second) = value first + 256 ^ first.length * value second := by
  induction first with
  | nil => simp [value]
  | cons byte rest ih =>
      simp only [List.cons_append, value, ih, List.length_cons, Nat.pow_succ]
      ring

/-- The value is the one that `Nat.ofDigits` gives the bytes in base 256. -/
theorem value_eq_ofDigits (bytes : List UInt8) :
    value bytes = Nat.ofDigits 256 (bytes.map UInt8.toNat) := by
  induction bytes with
  | nil => rfl
  | cons byte rest ih => rw [value, ih, List.map_cons, Nat.ofDigits_cons]

end LittleEndian

/-- A digest is a number of at most 256 bits. -/
theorem Hash.value_lt (hash : Hash) : hash.value < 2 ^ 256 := by
  have hValue := LittleEndian.value_lt hash.bytes
  rw [hash.bytes_length] at hValue
  exact hValue

/-! Numbers written with the byte that counts most in front. Strings of one length stand in the order of their
numbers, and so do the digits they are written with, since two digits for each byte keep the order of bytes. -/

/-- The order of a dictionary: two lists are the same, or the first one is less where they first differ, or it
ends there. -/
def InOrder {α : Type} [LT α] (first second : List α) : Prop :=
  first = second ∨ List.Lex (· < ·) first second

namespace BigEndian

/-- The number that a byte string denotes, its first byte counting most. -/
def value (bytes : List UInt8) : Nat :=
  bytes.foldl (fun n byte => 256 * n + byte.toNat) 0

def encode (width n : Nat) : List UInt8 :=
  (LittleEndian.encode width n).reverse

/-- Both orders of bytes give one number when the string is turned around. -/
theorem value_eq (bytes : List UInt8) : value bytes = LittleEndian.value bytes.reverse := by
  induction bytes using List.reverseRecOn with
  | nil => rfl
  | append_singleton front byte ih =>
      rw [List.reverse_append, List.reverse_singleton, List.singleton_append, LittleEndian.value, ← ih,
        value, value, List.foldl_append, List.foldl_cons, List.foldl_nil, Nat.add_comm]

/-- Here it is the bytes in front that count by the capacity of those behind. -/
theorem value_append (first second : List UInt8) :
    value (first ++ second) = value first * 256 ^ second.length + value second := by
  rw [value_eq, value_eq, value_eq, List.reverse_append, LittleEndian.value_append, List.length_reverse,
    Nat.add_comm, Nat.mul_comm]

theorem value_cons (byte : UInt8) (rest : List UInt8) :
    value (byte :: rest) = byte.toNat * 256 ^ rest.length + value rest := by
  have hByte : value [byte] = byte.toNat := by rw [value_eq]; rfl
  rw [← hByte, ← value_append, List.singleton_append]

theorem value_zeros (count : Nat) : value (List.replicate count 0) = 0 := by
  induction count with
  | zero => rfl
  | succ count ih => rw [List.replicate_succ, value_cons, ih, UInt8.toNat_zero, Nat.zero_mul]

theorem value_lt (bytes : List UInt8) : value bytes < 256 ^ bytes.length := by
  have hValue := LittleEndian.value_lt bytes.reverse
  rwa [List.length_reverse, ← value_eq] at hValue

@[simp] theorem encode_length (width n : Nat) : (encode width n).length = width := by
  rw [encode, List.length_reverse, LittleEndian.encode_length]

theorem value_encode {width n : Nat} (h : n < 256 ^ width) : value (encode width n) = n := by
  rw [value_eq, encode, List.reverse_reverse, LittleEndian.value_encode h]

/-- The last byte counts least, so it is the one that division by 256 takes away. -/
theorem encode_succ (width n : Nat) :
    encode (width + 1) n = encode width (n / 256) ++ [UInt8.ofNat n] := by
  rw [encode, LittleEndian.encode, List.reverse_cons]
  rfl

theorem encode_value (bytes : List UInt8) : encode bytes.length (value bytes) = bytes := by
  rw [encode, value_eq, ← List.length_reverse, LittleEndian.encode_value, List.reverse_reverse]

section Order

variable {first second : List UInt8}

/-- Strings of one length are told apart by their numbers. Zeros in front would hide it for others. -/
theorem value_inj (hLength : first.length = second.length) : value first = value second ↔ first = second := by
  constructor
  · intro hValues
    rw [← encode_value first, hValues, hLength, encode_value]
  · exact congrArg value

/-- What follows the first byte counts for less than one unit of it. -/
theorem lex_iff_value_lt (hLength : first.length = second.length) :
    List.Lex (· < ·) first second ↔ value first < value second := by
  induction first generalizing second with
  | nil =>
      obtain rfl := List.length_eq_zero_iff.mp hLength.symm
      exact iff_of_false List.not_lex_nil (Nat.lt_irrefl _)
  | cons byte rest ih =>
      cases second with
      | nil => cases hLength
      | cons other others =>
          have hRest : rest.length = others.length := Nat.succ.inj hLength
          have hFirst := value_lt rest
          have hSecond := value_lt others
          rw [List.cons_lex_cons_iff, ih hRest, value_cons, value_cons, UInt8.lt_iff_toNat_lt,
            ← UInt8.toNat_inj]
          rw [hRest] at hFirst ⊢
          generalize 256 ^ others.length = unit at hFirst hSecond ⊢
          rcases Nat.lt_trichotomy byte.toNat other.toNat with hLess | hSame | hGreater
          · have hUnit : (byte.toNat + 1) * unit ≤ other.toNat * unit := Nat.mul_le_mul_right unit hLess
            rw [Nat.succ_mul] at hUnit
            exact iff_of_true (.inl hLess) (by omega)
          · rw [hSame]
            omega
          · have hUnit : (other.toNat + 1) * unit ≤ byte.toNat * unit := Nat.mul_le_mul_right unit hGreater
            rw [Nat.succ_mul] at hUnit
            exact iff_of_false (by omega) (by omega)

theorem inOrder_iff_value_le (hLength : first.length = second.length) :
    InOrder first second ↔ value first ≤ value second := by
  rw [InOrder, lex_iff_value_lt hLength, ← value_inj hLength]
  omega

end Order

end BigEndian

namespace Hex

variable {first second : List UInt8}

theorem digit_mem_alphabet {n : Nat} (h : n < 16) : digit n ∈ alphabet := by
  have hAll : ∀ m : Fin 16, digit m.val ∈ alphabet := by decide
  exact hAll ⟨n, h⟩

/-- The digits above nine stand behind the decimal ones in the order of characters, as in that of
values. -/
theorem digit_lt_digit {m n : Nat} (hm : m < 16) (hn : n < 16) : digit m < digit n ↔ m < n := by
  have hAll : ∀ k l : Fin 16, digit k.val < digit l.val ↔ k.val < l.val := by decide
  exact hAll ⟨m, hm⟩ ⟨n, hn⟩

theorem digit_eq_digit {m n : Nat} (hm : m < 16) (hn : n < 16) : digit m = digit n ↔ m = n :=
  ⟨digit_inj hm hn, congrArg digit⟩

theorem mem_alphabet_of_mem_ofBytes {bytes : List UInt8} {c : Char} (h : c ∈ ofBytes bytes) :
    c ∈ alphabet := by
  obtain ⟨byte, -, hByte⟩ := List.mem_flatMap.mp h
  have hSmall := byte.toNat_lt
  simp only [List.mem_cons, List.not_mem_nil, or_false] at hByte
  rcases hByte with rfl | rfl
  · exact digit_mem_alphabet (by omega)
  · exact digit_mem_alphabet (by omega)

theorem ofBytes_append (first second : List UInt8) :
    ofBytes (first ++ second) = ofBytes first ++ ofBytes second :=
  List.flatMap_append

theorem ofBytes_inj : ofBytes first = ofBytes second ↔ first = second := by
  constructor
  · intro h
    have hRead := toBytesFrom_ofBytes 0 first
    rw [h, toBytesFrom_ofBytes] at hRead
    exact (Except.ok.inj hRead).symm
  · exact congrArg ofBytes

/-- The digit of the high half decides, and where it is the same the digit of the low half. -/
theorem lex_ofBytes_iff :
    List.Lex (· < ·) (ofBytes first) (ofBytes second) ↔ List.Lex (· < ·) first second := by
  induction first generalizing second with
  | nil =>
      cases second with
      | nil => exact iff_of_false List.not_lex_nil List.not_lex_nil
      | cons other others => exact iff_of_true .nil .nil
  | cons byte rest ih =>
      cases second with
      | nil => exact iff_of_false List.not_lex_nil List.not_lex_nil
      | cons other others =>
          have hByte := byte.toNat_lt
          have hOther := other.toNat_lt
          have hLess : byte < other ↔ byte.toNat / 16 < other.toNat / 16 ∨
              byte.toNat / 16 = other.toNat / 16 ∧ byte.toNat % 16 < other.toNat % 16 := by
            rw [UInt8.lt_iff_toNat_lt]
            omega
          have hSame : byte = other ↔ byte.toNat / 16 = other.toNat / 16 ∧
              byte.toNat % 16 = other.toNat % 16 := by
            rw [← UInt8.toNat_inj]
            omega
          rw [ofBytes_cons, ofBytes_cons, List.cons_lex_cons_iff, List.cons_lex_cons_iff,
            List.cons_lex_cons_iff, ih, digit_lt_digit (by omega) (by omega),
            digit_lt_digit (by omega) (by omega), digit_eq_digit (by omega) (by omega),
            digit_eq_digit (by omega) (by omega), hLess, hSame]
          tauto

/-- Digits in pairs stand in the order of the bytes they are written for. -/
theorem inOrder_ofBytes_iff : InOrder (ofBytes first) (ofBytes second) ↔ InOrder first second := by
  rw [InOrder, InOrder, ofBytes_inj, lex_ofBytes_iff]

/-- Two digits are one byte. -/
theorem fixed_eq_ofBytes (width n : Nat) : fixed (2 * width) n = ofBytes (BigEndian.encode width n) := by
  induction width generalizing n with
  | zero => rfl
  | succ width ih =>
      have hByte : (UInt8.ofNat n).toNat = n % 256 := UInt8.toNat_ofNat'
      have hHigh : n % 256 / 16 = n / 16 % 16 := by omega
      have hLow : n % 256 % 16 = n % 16 := by omega
      have hRest : n / 16 / 16 = n / 256 := by omega
      rw [BigEndian.encode_succ, ofBytes_append, ← ih, ofBytes_cons, hByte, hHigh, hLow, Nat.mul_succ,
        fixed, fixed, hRest, List.append_assoc]
      rfl

end Hex

end PowRules

import Mathlib.Tactic.Ring
import PowRules.Compact

/-! Encoding keeps the leading bytes of a number and drops the rest. What is kept is the greatest number
up to the given one that some word can carry, so the number of a word is itself kept whole. -/
namespace PowRules.Compact

theorem shiftLeft_bytes (n count : Nat) : n <<< (8 * count) = n * 256 ^ count := by
  rw [Nat.shiftLeft_eq, Nat.pow_mul]

theorem shiftRight_bytes (n count : Nat) : n >>> (8 * count) = n / 256 ^ count := by
  rw [Nat.shiftRight_eq_div_pow, Nat.pow_mul]

theorem pow_bytes_pos (count : Nat) : 0 < 256 ^ count :=
  Nat.pow_pos (by decide)

theorem byteCount_le_iff {n count : Nat} : byteCount n ≤ count ↔ n < 256 ^ count := by
  unfold byteCount
  split
  next hZero =>
    subst hZero
    simp
  next hPositive =>
    have hPower : 256 ^ count = 2 ^ (8 * count) := by rw [Nat.pow_mul]
    rw [hPower, ← Nat.log2_lt hPositive]
    omega

/-- The size that a number is encoded with. It is one more than the number of its bytes where these
would set the sign. -/
def exponent (n : Nat) : Nat :=
  byteCount (2 * n)

theorem exponent_le_iff {n count : Nat} : exponent n ≤ count ↔ 2 * n < 256 ^ count :=
  byteCount_le_iff

/-- A size that is too small leaves half the capacity below the number. -/
theorem pow_le_of_lt_exponent {n count : Nat} (h : count < exponent n) : 256 ^ count ≤ 2 * n := by
  have hNot : ¬exponent n ≤ count := by omega
  rw [exponent_le_iff] at hNot
  omega

theorem exponent_mono {m n : Nat} (h : m ≤ n) : exponent m ≤ exponent n := by
  have hBound := exponent_le_iff.mp (Nat.le_refl (exponent n))
  rw [exponent_le_iff]
  omega

/-- How often the unit of a word of this size fits into a number. -/
def units (n size : Nat) : Nat :=
  n * 256 ^ 3 / 256 ^ size

theorem units_of_size_le {n size : Nat} (h : size ≤ 3) : units n size = n * 256 ^ (3 - size) := by
  have hSplit : 256 ^ 3 = 256 ^ (3 - size) * 256 ^ size := by
    rw [← Nat.pow_add, Nat.sub_add_cancel h]
  rw [units, hSplit, ← Nat.mul_assoc, Nat.mul_div_cancel _ (pow_bytes_pos size)]

theorem units_of_lt_size {n size : Nat} (h : 3 < size) : units n size = n / 256 ^ (size - 3) := by
  have hSplit : 256 ^ size = 256 ^ (size - 3) * 256 ^ 3 := by
    rw [← Nat.pow_add, Nat.sub_add_cancel (Nat.le_of_lt h)]
  rw [units, hSplit, Nat.mul_div_mul_right _ _ (pow_bytes_pos 3)]

theorem units_succ (n size : Nat) : units n (size + 1) = units n size / 256 := by
  rw [units, units, Nat.div_div_eq_div_mul, ← Nat.pow_succ]

/-- The sign stays clear for all sizes from the exponent on, and is reached by the one below. -/
theorem units_lt_iff {n size : Nat} : units n size < 0x800000 ↔ exponent n ≤ size := by
  rw [units, Nat.div_lt_iff_lt_mul (pow_bytes_pos size), exponent_le_iff]
  omega

theorem units_exponent_lt (n : Nat) : units n (exponent n) < 0x800000 :=
  units_lt_iff.mpr (Nat.le_refl _)

/-- Both shifts of `leading` are one division, after all bytes are moved up by three. -/
theorem leading_eq_units (n : Nat) : leading n = units n (byteCount n) := by
  unfold leading
  split
  next hShort => rw [shiftLeft_bytes, units_of_size_le hShort]
  next hLong => rw [shiftRight_bytes, units_of_lt_size (Nat.lt_of_not_le hLong)]

/-- One formula for both branches of `encode`: in either one the size is the least that leaves the sign
clear. -/
theorem encode_eq (n : Nat) :
    encode n = UInt32.ofNat (exponent n * 0x1000000 + units n (exponent n)) := by
  have hBytes : byteCount n ≤ exponent n := by
    have hBound := exponent_le_iff.mp (Nat.le_refl (exponent n))
    rw [byteCount_le_iff]
    omega
  have hNext : exponent n ≤ byteCount n + 1 := by
    have hBound := byteCount_le_iff.mp (Nat.le_refl (byteCount n))
    rw [exponent_le_iff, Nat.pow_succ]
    omega
  unfold encode
  rw [leading_eq_units, ← units_succ]
  split
  next hFits =>
    have hExponent : exponent n = byteCount n := Nat.le_antisymm (units_lt_iff.mp hFits) hBytes
    rw [hExponent]
  next hSign =>
    have hExponent : exponent n = byteCount n + 1 := by
      rw [units_lt_iff] at hSign
      omega
    rw [hExponent]

/-- Numbers whose size is one byte. The words of larger ones mean nothing. -/
def IsEncodable (n : Nat) : Prop :=
  2 * n < 256 ^ 255

theorem limit_eq : limit = 2 ^ 256 := by
  decide

/-- Targets are far below the numbers whose size would need a second byte. -/
theorem isEncodable_of_lt_limit {n : Nat} (h : n < limit) : IsEncodable n := by
  have hLimit : 2 * limit < 256 ^ 255 := by decide
  unfold IsEncodable
  omega

section Encodable

variable {n : Nat}

/-- Neither the size nor the leading bytes of an encodable number run into each other. -/
theorem toNat_encode (h : IsEncodable n) :
    (encode n).toNat = exponent n * 0x1000000 + units n (exponent n) := by
  have hExponent : exponent n ≤ 255 := exponent_le_iff.mpr h
  have hUnits := units_exponent_lt n
  rw [encode_eq, UInt32.toNat_ofNat']
  omega

theorem size_encode (h : IsEncodable n) : size (encode n) = exponent n := by
  have hUnits := units_exponent_lt n
  rw [size, toNat_encode h]
  omega

theorem mantissa_encode (h : IsEncodable n) : mantissa (encode n) = units n (exponent n) := by
  have hUnits := units_exponent_lt n
  rw [mantissa, toNat_encode h]
  omega

theorem isNegative_encode (h : IsEncodable n) : isNegative (encode n) = false := by
  have hUnits := units_exponent_lt n
  rw [isNegative, toNat_encode h, decide_eq_false_iff_not]
  omega

end Encodable

theorem expand_of_size_le {bits : UInt32} (h : size bits ≤ 3) :
    expand bits = mantissa bits / 256 ^ (3 - size bits) := by
  rw [expand, if_pos h, shiftRight_bytes]

theorem expand_of_lt_size {bits : UInt32} (h : 3 < size bits) :
    expand bits = mantissa bits * 256 ^ (size bits - 3) := by
  rw [expand, if_neg (Nat.not_le_of_lt h), shiftLeft_bytes]

theorem exponent_expand_le (bits : UInt32) : exponent (expand bits) ≤ size bits := by
  have hMantissa : mantissa bits < 0x800000 := Nat.mod_lt _ (by decide)
  rw [← units_lt_iff]
  by_cases h : size bits ≤ 3
  · rw [units_of_size_le h, expand_of_size_le h]
    exact Nat.lt_of_le_of_lt (Nat.div_mul_le_self _ _) hMantissa
  · have hLong := Nat.lt_of_not_le h
    rw [units_of_lt_size hLong, expand_of_lt_size hLong, Nat.mul_div_cancel _ (pow_bytes_pos _)]
    exact hMantissa

/-- No word carries a number whose size needs more than one byte. -/
theorem isEncodable_expand (bits : UInt32) : IsEncodable (expand bits) := by
  have hSize : size bits ≤ 255 := by
    have hWord := bits.toNat_lt
    unfold size
    omega
  exact exponent_le_iff.mp (Nat.le_trans (exponent_expand_le bits) hSize)

/-- Whole units: a number that some word carries ends in the zero bytes that its own size leaves out. -/
theorem pow_dvd_expand (bits : UInt32) :
    256 ^ (exponent (expand bits) - 3) ∣ expand bits := by
  have hSize := exponent_expand_le bits
  by_cases h : size bits ≤ 3
  · have hZero : exponent (expand bits) - 3 = 0 := by omega
    simp [hZero]
  · have hPower : 256 ^ (exponent (expand bits) - 3) ∣ 256 ^ (size bits - 3) :=
      Nat.pow_dvd_pow 256 (by omega)
    rw [expand_of_lt_size (Nat.lt_of_not_le h)] at *
    exact Dvd.dvd.mul_left hPower _

/-- The number that an encoded number is read back as. -/
def round (n : Nat) : Nat :=
  expand (encode n)

section Round

variable {n : Nat}

/-- Rounding goes down to a multiple of the unit. Sizes up to three have a unit of one. -/
theorem round_eq (h : IsEncodable n) :
    round n = n / 256 ^ (exponent n - 3) * 256 ^ (exponent n - 3) := by
  by_cases hSize : exponent n ≤ 3
  · have hZero : exponent n - 3 = 0 := by omega
    rw [round, expand_of_size_le (by rw [size_encode h]; exact hSize), size_encode h,
      mantissa_encode h, units_of_size_le hSize, Nat.mul_div_cancel _ (pow_bytes_pos _), hZero]
    simp
  · have hLong := Nat.lt_of_not_le hSize
    rw [round, expand_of_lt_size (by rw [size_encode h]; exact hLong), size_encode h,
      mantissa_encode h, units_of_lt_size hLong]

theorem round_le (n : Nat) : round n ≤ n := by
  by_cases h : IsEncodable n
  · rw [round_eq h]
    exact Nat.div_mul_le_self _ _
  · -- Such a number is encoded with the size cut off, as a word for a smaller one.
    have hRound : 2 * round n < 256 ^ 255 := isEncodable_expand (encode n)
    unfold IsEncodable at h
    omega

/-- Multiples of the unit below a number survive its rounding. -/
theorem le_round_of_dvd (h : IsEncodable n) {m : Nat} (hUnit : 256 ^ (exponent n - 3) ∣ m)
    (hle : m ≤ n) : m ≤ round n := by
  obtain ⟨count, rfl⟩ := hUnit
  rw [round_eq h, Nat.mul_comm]
  apply Nat.mul_le_mul_right
  rw [Nat.le_div_iff_mul_le (pow_bytes_pos _), Nat.mul_comm]
  exact hle

/-- No word carries a number between an encodable number and what that is rounded to. -/
theorem expand_le_round (h : IsEncodable n) {bits : UInt32} (hle : expand bits ≤ n) :
    expand bits ≤ round n := by
  have hExponent := exponent_mono hle
  rcases Nat.lt_or_eq_of_le hExponent with hLess | hEq
  · -- The least number of the greater size is a multiple of its unit and lies between the two.
    have hAbove := exponent_le_iff.mp (Nat.le_refl (exponent (expand bits)))
    by_cases hSize : exponent n ≤ 3
    · apply le_round_of_dvd h _ hle
      have hZero : exponent n - 3 = 0 := by omega
      simp [hZero]
    · have hBelow := pow_le_of_lt_exponent (show exponent n - 1 < exponent n by omega)
      have hSplit : 256 ^ (exponent n - 1) = 2 * (256 ^ (exponent n - 3) * (128 * 256)) := by
        have hCount : exponent n - 1 = exponent n - 3 + 2 := by omega
        rw [hCount, Nat.pow_add]
        ring
      have hPower : 256 ^ exponent (expand bits) ≤ 256 ^ (exponent n - 1) :=
        Nat.pow_le_pow_right (by decide) (by omega)
      have hBetween := le_round_of_dvd h (Nat.dvd_mul_right (256 ^ (exponent n - 3)) (128 * 256))
        (by omega)
      omega
  · apply le_round_of_dvd h _ hle
    rw [← hEq]
    exact pow_dvd_expand bits

/-- What a word stands for is kept by rounding, whatever its size. -/
theorem round_expand (bits : UInt32) : round (expand bits) = expand bits :=
  Nat.le_antisymm (round_le _) (expand_le_round (isEncodable_expand bits) (Nat.le_refl _))

/-- A positive number never rounds to zero, since one is the number of a word. -/
theorem round_pos (h : IsEncodable n) (hPositive : 0 < n) : 0 < round n := by
  have hOne : expand 0x01010000 = 1 := by decide
  have hle : expand 0x01010000 ≤ round n := expand_le_round h (by omega)
  omega

end Round

/-- Decoding gives back exactly what rounding keeps, unless nothing is kept. -/
theorem decode?_encode {n : Nat} (hPositive : 0 < n) (hLimit : n < limit) :
    decode? (encode n) = some (round n) := by
  have hEncodable := isEncodable_of_lt_limit hLimit
  have hRound := round_le n
  rw [decode?_eq_some_iff]
  refine ⟨isNegative_encode hEncodable, rfl, round_pos hEncodable hPositive, ?_⟩
  omega

/-- Zero is the only number with the word zero. -/
theorem encode_eq_zero_iff {n : Nat} (h : IsEncodable n) : encode n = 0 ↔ n = 0 := by
  constructor
  · intro hZero
    by_contra hNonzero
    have hPositive := round_pos h (Nat.pos_of_ne_zero hNonzero)
    rw [round, hZero] at hPositive
    exact absurd hPositive (by decide)
  · rintro rfl
    rfl

end PowRules.Compact

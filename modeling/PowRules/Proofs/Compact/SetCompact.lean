import Mathlib.Data.Nat.Bitwise
import PowRules.Proofs.Target

/-! The classic reading of a compact word looks at 32 bits only: it judges the sign after the bytes below the
unit are lost, and the size by a table of how many leading bytes are in use. Decoding looks at the sign first
and at the whole number last. Both find the same words valid, and the same number in them. -/
namespace PowRules.Compact

/-- What the classic reading finds: a number, and whether it is negative or has too many bits. -/
structure Reading where
  value : Nat
  negative : Bool
  overflow : Bool
deriving DecidableEq

def topByte (bits : UInt32) : UInt32 :=
  bits >>> 24

/-- The leading bytes of a word, less its sign and what lies below the unit. -/
def significant (bits : UInt32) : UInt32 :=
  if topByte bits ≤ 3 then (bits &&& 0x7fffff) >>> (8 * (3 - topByte bits)) else bits &&& 0x7fffff

/-- The classic reading of a compact word. Where no leading byte is left, neither fault is found. -/
def setCompact (bits : UInt32) : Reading where
  value :=
    if topByte bits ≤ 3 then (significant bits).toNat
    else (significant bits).toNat <<< (8 * ((topByte bits).toNat - 3))
  negative := significant bits ≠ 0 ∧ bits &&& 0x800000 ≠ 0
  overflow := significant bits ≠ 0 ∧
    (34 < topByte bits ∨ 0xff < significant bits ∧ 33 < topByte bits ∨
      0xffff < significant bits ∧ 32 < topByte bits)

section Fields

variable (bits : UInt32)

theorem toNat_topByte : (topByte bits).toNat = size bits := by
  rw [topByte, UInt32.toNat_shiftRight]
  exact Nat.shiftRight_eq_div_pow _ 24

theorem toNat_mantissa : (bits &&& 0x7fffff).toNat = mantissa bits := by
  rw [UInt32.toNat_and]
  exact Nat.and_two_pow_sub_one_eq_mod _ 23

theorem sign_ne_zero_iff : bits &&& 0x800000 ≠ 0 ↔ isNegative bits = true := by
  have hSign : (bits &&& 0x800000).toNat = (bits.toNat.testBit 23).toNat * 2 ^ 23 := by
    rw [UInt32.toNat_and]
    exact Nat.and_two_pow _ 23
  have hBit : bits.toNat.testBit 23 = isNegative bits := Nat.testBit_eq_decide_div_mod_eq
  rw [Ne, ← UInt32.toNat_inj, hSign, hBit]
  cases isNegative bits with
  | false => simp
  | true => simp

theorem topByte_le_three_iff : topByte bits ≤ 3 ↔ size bits ≤ 3 := by
  rw [UInt32.le_iff_toNat_le, toNat_topByte]
  rfl

end Fields

variable {bits : UInt32}

theorem toNat_significant_of_size_le (h : size bits ≤ 3) :
    (significant bits).toNat = expand bits := by
  have hTop := (topByte_le_three_iff bits).mpr h
  have hShift : (8 * (3 - topByte bits)).toNat % 32 = 8 * (3 - size bits) := by
    rw [UInt32.toNat_mul, UInt32.toNat_sub_of_le _ _ hTop, toNat_topByte]
    change 8 * (3 - size bits) % 2 ^ 32 % 32 = 8 * (3 - size bits)
    omega
  rw [significant, if_pos hTop, UInt32.toNat_shiftRight, hShift, toNat_mantissa, expand, if_pos h]

theorem toNat_significant_of_lt_size (h : 3 < size bits) :
    (significant bits).toNat = mantissa bits := by
  have hTop : ¬topByte bits ≤ 3 := by
    rw [topByte_le_three_iff]
    exact Nat.not_le_of_lt h
  rw [significant, if_neg hTop, toNat_mantissa]

/-- The classic reading has the same number, although it takes its masks and shifts from the word. -/
theorem setCompact_value (bits : UInt32) : (setCompact bits).value = expand bits := by
  rw [setCompact]
  dsimp only
  by_cases h : size bits ≤ 3
  · rw [if_pos ((topByte_le_three_iff bits).mpr h), toNat_significant_of_size_le h]
  · have hTop : ¬topByte bits ≤ 3 := by
      rw [topByte_le_three_iff]
      exact h
    rw [if_neg hTop, toNat_significant_of_lt_size (Nat.lt_of_not_le h), toNat_topByte, expand,
      if_neg h]

/-- No leading byte is left exactly where the number is zero. -/
theorem significant_eq_zero_iff : significant bits = 0 ↔ expand bits = 0 := by
  rw [← UInt32.toNat_inj]
  change (significant bits).toNat = 0 ↔ _
  by_cases h : size bits ≤ 3
  · rw [toNat_significant_of_size_le h]
  · have hLong := Nat.lt_of_not_le h
    rw [toNat_significant_of_lt_size hLong, expand_of_lt_size hLong, Nat.mul_eq_zero,
      or_iff_left (Nat.ne_of_gt (pow_bytes_pos _))]

theorem setCompact_negative_iff :
    (setCompact bits).negative = true ↔ expand bits ≠ 0 ∧ isNegative bits = true := by
  change decide _ = true ↔ _
  rw [decide_eq_true_iff, Ne, significant_eq_zero_iff, sign_ne_zero_iff]

/-- A sign is no fault where the one byte that the size leaves is zero. -/
example : setCompact 0x01803456 = ⟨0, false, false⟩ := by decide

/-- The table of sizes. Above 31 bytes below the unit any number is too large, with 31 or 30 of them it
depends on how many leading bytes are in use, and with fewer three leading bytes never reach the limit. -/
theorem limit_le_mul_pow_iff {leading count : Nat} (h : leading < 0x800000) :
    limit ≤ leading * 256 ^ count ↔
      leading ≠ 0 ∧ (31 < count ∨ 0xff < leading ∧ 30 < count ∨ 0xffff < leading ∧ 29 < count) := by
  have hLimit : limit = 256 ^ 32 := by rw [limit_eq, Nat.pow_mul 2 8 32]
  rcases Nat.lt_or_ge count 30 with hFew | hMany
  · have hPower : 256 ^ count ≤ 256 ^ 29 := Nat.pow_le_pow_right (by decide) (Nat.le_of_lt_succ hFew)
    have hBelow : leading * 256 ^ count < 256 ^ 32 := by
      calc leading * 256 ^ count ≤ leading * 256 ^ 29 := Nat.mul_le_mul_left _ hPower
        _ < 0x800000 * 256 ^ 29 := Nat.mul_lt_mul_of_pos_right h (pow_bytes_pos 29)
        _ ≤ 256 ^ 32 := by decide
    omega
  · obtain rfl | rfl | hAbove : count = 30 ∨ count = 31 ∨ 32 ≤ count := by omega
    · omega
    · omega
    · have hPower : 256 ^ 32 ≤ 256 ^ count := Nat.pow_le_pow_right (by decide) hAbove
      constructor
      · intro hReached
        have hNonzero : leading ≠ 0 := by
          rintro rfl
          rw [hLimit] at hReached
          simp at hReached
        exact ⟨hNonzero, .inl hAbove⟩
      · rintro ⟨hNonzero, _⟩
        calc limit ≤ 1 * 256 ^ count := by omega
          _ ≤ leading * 256 ^ count := Nat.mul_le_mul_right _ (Nat.pos_of_ne_zero hNonzero)

/-- The classic test compares the size with a bound that depends on how many leading bytes there are. It
finds just the numbers from `limit` on. -/
theorem setCompact_overflow_iff : (setCompact bits).overflow = true ↔ limit ≤ expand bits := by
  have hMantissa : mantissa bits < 0x800000 := Nat.mod_lt _ (by decide)
  have hTable : (setCompact bits).overflow = true ↔ expand bits ≠ 0 ∧
      (34 < size bits ∨ 0xff < (significant bits).toNat ∧ 33 < size bits ∨
        0xffff < (significant bits).toNat ∧ 32 < size bits) := by
    change decide _ = true ↔ _
    rw [decide_eq_true_iff, Ne, significant_eq_zero_iff]
    simp only [UInt32.lt_iff_toNat_lt, toNat_topByte, UInt32.reduceToNat]
  rw [hTable]
  by_cases h : size bits ≤ 3
  · have hSmall : expand bits < limit := by
      rw [expand_of_size_le h]
      have hShifted := Nat.div_le_self (mantissa bits) (256 ^ (3 - size bits))
      have hLimit : 0x800000 ≤ limit := by decide
      omega
    omega
  · have hLong := Nat.lt_of_not_le h
    have hZero : expand bits = 0 ↔ mantissa bits = 0 := by
      rw [← significant_eq_zero_iff, ← UInt32.toNat_inj, toNat_significant_of_lt_size hLong]
      rfl
    rw [Ne, hZero, toNat_significant_of_lt_size hLong, expand_of_lt_size hLong,
      limit_le_mul_pow_iff hMantissa]
    omega

/-- Decoding accepts exactly the words in which the classic reading finds a nonzero number and no fault, with
that number, and names the word otherwise. Accepted numbers are positive and have at most 256 bits. -/
theorem ofBits_eq_setCompact (bits : UInt32) :
    (∀ n, Target.ofBits bits = .ok ⟨n⟩ ↔
      (setCompact bits).negative = false ∧ (setCompact bits).overflow = false ∧
        (setCompact bits).value ≠ 0 ∧ n = (setCompact bits).value) ∧
    (Target.ofBits bits = .error (.malformedTarget bits) ↔
      (setCompact bits).negative = true ∨ (setCompact bits).overflow = true ∨
        (setCompact bits).value = 0) ∧
    ∀ n, Target.ofBits bits = .ok ⟨n⟩ → 0 < n ∧ n < 2 ^ 256 := by
  have hOverflow : (setCompact bits).overflow = false ↔ expand bits < limit := by
    rw [← Bool.not_eq_true, setCompact_overflow_iff, Nat.not_le]
  have hNegative : (setCompact bits).negative = false ↔
      ¬(expand bits ≠ 0 ∧ isNegative bits = true) := by
    rw [← Bool.not_eq_true, setCompact_negative_iff]
  refine ⟨?_, ?_, ?_⟩
  · intro n
    rw [Target.ofBits_eq_ok_iff, decode?_eq_some_iff, hNegative, hOverflow, setCompact_value]
    constructor
    · rintro ⟨hSign, rfl, hPositive, hLimit⟩
      exact ⟨by simp [hSign], hLimit, Nat.ne_of_gt hPositive, rfl⟩
    · rintro ⟨hSign, hLimit, hNonzero, rfl⟩
      have hPlus : isNegative bits = false :=
        Bool.not_eq_true _ ▸ fun hMinus => hSign ⟨hNonzero, hMinus⟩
      exact ⟨hPlus, rfl, Nat.pos_of_ne_zero hNonzero, hLimit⟩
  · rw [Target.ofBits_eq_error_iff, and_iff_left rfl, decode?_eq_none_iff, setCompact_negative_iff,
      setCompact_overflow_iff, setCompact_value]
    -- A sign on the number zero is a fault of one side only, and then zero is the fault of both.
    by_cases hZero : expand bits = 0
    · simp [hZero]
    · simp [hZero]
  · intro n hBits
    have hExact := Target.isExact_of_ofBits hBits
    exact ⟨hExact.pos, limit_eq ▸ hExact.lt_limit⟩

end PowRules.Compact

import Mathlib.Order.Bounds.Basic
import PowRules.Proofs.Target

/-! Several words may stand for one number, and encoding writes one of them: the word with the least size, whose
leading bytes then start at the top and end in zeros where the size leaves fewer than three of them. -/
namespace PowRules.Compact

/-- One place further up the leading bytes would reach the sign, and none of their bits lies below the unit. -/
def IsCanonical (bits : UInt32) : Prop :=
  0x8000 ≤ mantissa bits ∧ (size bits < 3 → mantissa bits % 2 ^ (8 * (3 - size bits)) = 0)

instance (bits : UInt32) : Decidable (IsCanonical bits) :=
  inferInstanceAs (Decidable (_ ∧ _))

variable {bits : UInt32} {n : Nat}

/-- The size is the least one that leaves room for the sign, so the upper two places are in use. -/
theorem le_units_exponent (h : 0 < n) : 0x8000 ≤ units n (exponent n) := by
  have hExponent : 0 < exponent n := by
    have hBytes := exponent_le_iff.mp (Nat.le_refl (exponent n))
    apply Nat.pos_of_ne_zero
    intro hZero
    rw [hZero] at hBytes
    omega
  have hBelow : ¬units n (exponent n - 1) < 0x800000 := by
    rw [units_lt_iff]
    omega
  have hStep := units_succ n (exponent n - 1)
  rw [Nat.sub_add_cancel hExponent] at hStep
  omega

/-- Encoding writes the canonical word of a positive number. -/
theorem isCanonical_encode (hPositive : 0 < n) (h : IsEncodable n) : IsCanonical (encode n) := by
  unfold IsCanonical
  rw [mantissa_encode h, size_encode h]
  refine ⟨le_units_exponent hPositive, ?_⟩
  intro hShort
  rw [units_of_size_le (Nat.le_of_lt hShort), Nat.pow_mul]
  exact Nat.mul_mod_left _ _

/-- A number read from a canonical word has as many units as the word has leading bytes, nothing being lost. -/
theorem units_expand (h : IsCanonical bits) : units (expand bits) (size bits) = mantissa bits := by
  by_cases hSize : size bits ≤ 3
  · rw [units_of_size_le hSize, expand_of_size_le hSize]
    apply Nat.div_mul_cancel
    rcases Nat.lt_or_eq_of_le hSize with hShort | hThree
    · apply Nat.dvd_of_mod_eq_zero
      have hZeros := h.2 hShort
      rwa [Nat.pow_mul] at hZeros
    · simp [hThree]
  · have hLong := Nat.lt_of_not_le hSize
    rw [units_of_lt_size hLong, expand_of_lt_size hLong, Nat.mul_div_cancel _ (pow_bytes_pos _)]

theorem exponent_expand (h : IsCanonical bits) : exponent (expand bits) = size bits := by
  apply Nat.le_antisymm (exponent_expand_le bits)
  apply Nat.le_of_not_lt
  intro hLess
  -- With one byte less the units would fill all three places and reach the sign.
  have hBelow : units (expand bits) (size bits - 1) < 0x800000 := units_lt_iff.mpr (by omega)
  have hStep := units_succ (expand bits) (size bits - 1)
  rw [Nat.sub_add_cancel (by omega), units_expand h] at hStep
  have hMantissa := h.1
  omega

theorem toNat_of_not_isNegative (h : isNegative bits = false) :
    bits.toNat = size bits * 0x1000000 + mantissa bits := by
  rw [isNegative, decide_eq_false_iff_not] at h
  unfold size mantissa
  omega

/-- A canonical word is the one that its number is encoded with. -/
theorem encode_expand (hSign : isNegative bits = false) (h : IsCanonical bits) :
    encode (expand bits) = bits := by
  apply UInt32.toNat_inj.mp
  rw [toNat_encode (isEncodable_expand bits), exponent_expand h, units_expand h,
    toNat_of_not_isNegative hSign]

end PowRules.Compact

namespace PowRules.Target

open PowRules.Compact

/-- Encoding a decoded target gives a word for the same target, and gives back the word it came from exactly
when that was canonical. Every positive target of at most 256 bits is encoded as a canonical word that
decodes. -/
theorem bits_eq_iff_isCanonical :
    (∀ (bits : UInt32) (target : Target), ofBits bits = .ok target →
      ofBits target.bits = .ok target ∧ (target.bits = bits ↔ IsCanonical bits)) ∧
    ∀ target : Target, 0 < target.value → target.value < 2 ^ 256 →
      ofBits target.bits = .ok target.rounded ∧ IsCanonical target.bits := by
  constructor
  · intro bits target hBits
    have hExact := isExact_of_ofBits hBits
    obtain ⟨hSign, hExpand, _⟩ := decode?_eq_some_iff.mp (ofBits_eq_ok_iff.mp hBits)
    refine ⟨hExact.ofBits_bits, ?_⟩
    constructor
    · intro hSame
      have hCanonical := isCanonical_encode hExact.pos (isEncodable_of_lt_limit hExact.lt_limit)
      exact hSame ▸ hCanonical
    · intro hCanonical
      rw [Target.bits, ← hExpand]
      exact encode_expand hSign hCanonical
  · intro target hPositive hBound
    have hLimit : target.value < limit := limit_eq ▸ hBound
    refine ⟨?_, isCanonical_encode hPositive (isEncodable_of_lt_limit hLimit)⟩
    exact ofBits_eq_ok_iff.mpr (decode?_encode hPositive hLimit)

/-- A word with a leading zero byte is not written back, and the greatest number of 256 bits needs the size
33. -/
theorem bits_eq_iff_isCanonical_leadingZero :
    ofBits 0x04001234 = .ok ⟨0x123400⟩ ∧ bits ⟨0x123400⟩ ≠ 0x04001234 ∧
      IsCanonical (bits ⟨2 ^ 256 - 1⟩) ∧ bits ⟨2 ^ 256 - 1⟩ = 0x2100ffff := by
  have hBits : ofBits 0x04001234 = .ok ⟨0x123400⟩ := by rfl
  obtain ⟨hRead, hWritten⟩ := bits_eq_iff_isCanonical
  obtain ⟨_, hCanonical⟩ := hWritten ⟨2 ^ 256 - 1⟩ (by decide) (by decide)
  refine ⟨hBits, ?_, hCanonical, by decide⟩
  rw [Ne, (hRead _ _ hBits).2]
  decide

end PowRules.Target

/-! Rounding to compact form gives the best lower approximation that a word can carry, for all numbers of up to 255
bytes whose top bit is clear. What is lost lies below the fifteenth leading bit, and a cap may be applied before
or after. -/
namespace PowRules.Compact

variable {m n : Nat}

theorem isEncodable_iff : IsEncodable n ↔ n < 2 ^ 2039 := by
  have hPower : 256 ^ 255 = 2 * 2 ^ 2039 := by decide +kernel
  rw [IsEncodable, hPower, Nat.mul_lt_mul_left (by decide)]

theorem IsEncodable.mono (h : IsEncodable n) (hle : m ≤ n) : IsEncodable m :=
  Nat.lt_of_le_of_lt (Nat.mul_le_mul_left 2 hle) h

/-- Of all words without a sign, the encoded one comes closest to the number from below. -/
theorem isGreatest_round_expand (h : IsEncodable n) :
    IsGreatest {m | ∃ bits, isNegative bits = false ∧ expand bits = m ∧ m ≤ n} (round n) := by
  constructor
  · exact ⟨encode n, isNegative_encode h, rfl, round_le n⟩
  · rintro _ ⟨bits, _, rfl, hle⟩
    exact expand_le_round h hle

theorem round_mono (h : IsEncodable n) (hle : m ≤ n) : round m ≤ round n :=
  expand_le_round h (Nat.le_trans (round_le m) hle)

/-- Rounding may be done before or after taking the lesser of two numbers, since it keeps their order.
-/
theorem round_min (hFirst : IsEncodable m) (hSecond : IsEncodable n) :
    round (min m n) = min (round m) (round n) := by
  rcases Nat.le_total m n with hle | hle
  · rw [Nat.min_eq_left hle, Nat.min_eq_left (round_mono hSecond hle)]
  · rw [Nat.min_eq_right hle, Nat.min_eq_right (round_mono hFirst hle)]

/-- Less than one unit is lost, and the number has at least `2 ^ 15` of them. -/
theorem round_loss (h : IsEncodable n) (hPositive : 0 < n) : (n - round n) * 2 ^ 15 < n := by
  have hUnits := le_units_exponent hPositive
  by_cases hSize : exponent n ≤ 3
  · have hZero : exponent n - 3 = 0 := by omega
    have hSame : round n = n := by
      rw [round_eq h, hZero]
      simp
    omega
  · rw [units_of_lt_size (Nat.lt_of_not_le hSize)] at hUnits
    rw [round_eq h]
    have hUnit := pow_bytes_pos (exponent n - 3)
    generalize 256 ^ (exponent n - 3) = unit at hUnits hUnit ⊢
    have hRest : n - n / unit * unit < unit := by
      rw [Nat.mul_comm, ← Nat.mod_eq_sub_mul_div]
      exact Nat.mod_lt n hUnit
    calc (n - n / unit * unit) * 2 ^ 15 < unit * 2 ^ 15 :=
          Nat.mul_lt_mul_of_pos_right hRest (by decide)
      _ ≤ n / unit * unit := by
          rw [Nat.mul_comm]
          exact Nat.mul_le_mul_right unit hUnits
      _ ≤ n := Nat.div_mul_le_self n unit

end PowRules.Compact

namespace PowRules.Target

open PowRules.Compact

/-- A rounded target is the greatest one for a word without sign, at most as large as the given one. No positive
target is rounded to zero, and less than one part in `2 ^ 15` is lost. Rounding again changes nothing, the order
is kept, and a cap may be rounded on its own. -/
theorem isGreatest_rounded (target : Target) (h : target.value < 2 ^ 2039) :
    IsGreatest {n | ∃ bits, isNegative bits = false ∧ Compact.expand bits = n ∧ n ≤ target.value}
      target.rounded.value ∧
    (0 < target.value → 0 < target.rounded.value ∧
      (target.value - target.rounded.value) * 2 ^ 15 < target.value) ∧
    target.rounded.rounded = target.rounded ∧
    ∀ other : Target, other.value < 2 ^ 2039 →
      (other.value ≤ target.value → other.rounded.value ≤ target.rounded.value) ∧
        (target.capped other).rounded = target.rounded.capped other.rounded := by
  have hEncodable := isEncodable_iff.mpr h
  refine ⟨isGreatest_round_expand hEncodable, ?_, ?_, ?_⟩
  · intro hPositive
    exact ⟨round_pos hEncodable hPositive, round_loss hEncodable hPositive⟩
  · exact ext_value (round_expand target.bits)
  · intro other hOther
    constructor
    · exact round_mono hEncodable
    · apply ext_value
      rw [rounded_value, capped_value, capped_value, rounded_value, rounded_value,
        round_min hEncodable (isEncodable_iff.mpr hOther)]

/-- The greatest number that can be encoded keeps its upper 23 bits. Capped by a number of 37 bits it is rounded to
what that one is rounded to. -/
theorem isGreatest_rounded_allBits :
    (⟨2 ^ 2039 - 1⟩ : Target).rounded.value = 0x7fffff <<< 2016 ∧
      IsGreatest {n | ∃ bits, isNegative bits = false ∧ Compact.expand bits = n ∧
        n ≤ 2 ^ 2039 - 1} (0x7fffff <<< 2016) ∧
      ((⟨2 ^ 2039 - 1⟩ : Target).capped ⟨0x123456789a⟩).rounded =
        (⟨2 ^ 2039 - 1⟩ : Target).rounded.capped ⟨0x1234560000⟩ := by
  have hBound : 2 ^ 2039 - 1 < 2 ^ 2039 := by decide +kernel
  have hOther : 0x123456789a < 2 ^ 2039 := by decide +kernel
  have hRounded : (⟨2 ^ 2039 - 1⟩ : Target).rounded.value = 0x7fffff <<< 2016 := by decide +kernel
  obtain ⟨hGreatest, _, _, hOthers⟩ := isGreatest_rounded ⟨2 ^ 2039 - 1⟩ hBound
  rw [hRounded] at hGreatest
  exact ⟨hRounded, hGreatest, (hOthers ⟨0x123456789a⟩ hOther).2⟩

end PowRules.Target

/-! Encoding keeps the order: compact words compare as plain numbers like the numbers they were written for. Two
numbers share a word exactly when they are rounded to the same one, so the words of rounded targets may stand in for
the targets. -/
namespace PowRules.Compact

variable {m n : Nat}

theorem units_mono (hle : m ≤ n) (size : Nat) : units m size ≤ units n size :=
  Nat.div_le_div_right (Nat.mul_le_mul_right _ hle)

/-- The size stands in front, and a greater one counts for more than all units. -/
theorem encode_mono (h : IsEncodable n) (hle : m ≤ n) : encode m ≤ encode n := by
  rw [UInt32.le_iff_toNat_le, toNat_encode (h.mono hle), toNat_encode h]
  rcases Nat.lt_or_eq_of_le (exponent_mono hle) with hLess | hSame
  · have hUnits := units_exponent_lt m
    omega
  · have hUnits := units_mono hle (exponent n)
    rw [hSame]
    omega

/-- Rounding first makes no difference to the word. -/
theorem encode_round (h : IsEncodable n) : encode (round n) = encode n := by
  rcases Nat.eq_zero_or_pos n with rfl | hPositive
  · rfl
  · exact encode_expand (isNegative_encode h) (isCanonical_encode hPositive h)

/-- Two numbers share their word exactly when they round to the same number. -/
theorem encode_eq_iff_round_eq (hFirst : IsEncodable m) (hSecond : IsEncodable n) :
    encode m = encode n ↔ round m = round n := by
  constructor
  · intro hWords
    exact congrArg expand hWords
  · intro hRounded
    rw [← encode_round hFirst, hRounded, encode_round hSecond]

end PowRules.Compact

namespace PowRules.Target

open PowRules.Compact

variable {first second : Target}

/-- Every number that survives rounding fits a word. -/
theorem isEncodable_of_rounded_eq (h : first.rounded = first) : IsEncodable first.value := by
  rw [← h]
  exact isEncodable_expand first.bits

theorem bits_eq_iff_rounded_eq (hFirst : IsEncodable first.value) (hSecond : IsEncodable second.value) :
    first.bits = second.bits ↔ first.rounded = second.rounded := by
  rw [bits, bits, encode_eq_iff_round_eq hFirst hSecond]
  constructor
  · intro hValues
    exact ext_value hValues
  · intro hTargets
    exact congrArg value hTargets

/-- Rounded targets have the same word only when they are the same. -/
theorem bits_inj (hFirst : first.rounded = first) (hSecond : second.rounded = second) :
    first.bits = second.bits ↔ first = second := by
  rw [bits_eq_iff_rounded_eq (isEncodable_of_rounded_eq hFirst) (isEncodable_of_rounded_eq hSecond),
    hFirst, hSecond]

/-- Of two exact targets the easier one has the greater word. Sizes are compared first, and at one size
the leading bytes. -/
theorem bits_lt_bits (hFirst : first.rounded = first) (hSecond : second.rounded = second)
    (hLess : first.value < second.value) : first.bits < second.bits := by
  have hOrder : first.bits ≤ second.bits :=
    encode_mono (isEncodable_of_rounded_eq hSecond) (Nat.le_of_lt hLess)
  have hApart : first.bits ≠ second.bits := by
    rw [Ne, bits_inj hFirst hSecond]
    rintro rfl
    exact Nat.lt_irrefl _ hLess
  exact UInt32.lt_of_le_of_ne hOrder hApart

/-- The words of two targets of up to 255 bytes, with the top bit clear, are in the order of the targets, and equal
exactly when the rounded targets are. Rounded targets compare like their words. -/
theorem compare_bits :
    (∀ first second : Target, first.value < 2 ^ 2039 → second.value < 2 ^ 2039 →
      (first.value ≤ second.value → first.bits ≤ second.bits) ∧
      (first.bits = second.bits ↔ first.rounded = second.rounded)) ∧
    ∀ first second : Target, first.rounded = first → second.rounded = second →
      compare first.bits second.bits = compare first second := by
  constructor
  · intro first second hFirst hSecond
    rw [← isEncodable_iff] at hFirst hSecond
    exact ⟨encode_mono hSecond, bits_eq_iff_rounded_eq hFirst hSecond⟩
  · intro first second hFirst hSecond
    change compare first.bits second.bits = compare first.value second.value
    rcases Nat.lt_trichotomy first.value second.value with hLess | hSame | hGreater
    · rw [Nat.compare_eq_lt.mpr hLess]
      exact Std.compare_eq_lt.mpr (bits_lt_bits hFirst hSecond hLess)
    · rw [Nat.compare_eq_eq.mpr hSame, ext_value hSame]
      exact Std.compare_self
    · rw [Nat.compare_eq_gt.mpr hGreater]
      exact Std.compare_eq_gt.mpr (bits_lt_bits hSecond hFirst hGreater)

/-- From `0x7fffff` on the size goes up and two leading bytes are left. Bytes that are rounded away do not show. -/
theorem compare_bits_nextSize :
    bits ⟨0x7fffff⟩ = 0x037fffff ∧ bits ⟨0x800000⟩ = 0x04008000 ∧
      bits ⟨0x7fffff⟩ ≤ bits ⟨0x800000⟩ ∧
      bits ⟨0x7f001234⟩ = bits ⟨0x7f0012ff⟩ ∧ bits ⟨0x7f001234⟩ ≠ bits ⟨0x7f001334⟩ ∧
      compare (bits ⟨0x7fffff⟩) (bits ⟨0x800000⟩) = .lt := by
  have hBound : ∀ n, n ≤ 0x7f001334 → (⟨n⟩ : Target).value < 2 ^ 2039 := by
    intro n hn
    exact Nat.lt_of_le_of_lt hn (by decide +kernel)
  obtain ⟨hWords, hOrder⟩ := compare_bits
  have hNext := hWords ⟨0x7fffff⟩ ⟨0x800000⟩ (hBound _ (by decide)) (hBound _ (by decide))
  have hEqual := hWords ⟨0x7f001234⟩ ⟨0x7f0012ff⟩ (hBound _ (by decide)) (hBound _ (by decide))
  have hOther := hWords ⟨0x7f001234⟩ ⟨0x7f001334⟩ (hBound _ (by decide)) (hBound _ (by decide))
  have hCompare := hOrder ⟨0x7fffff⟩ ⟨0x800000⟩ (by rfl) (by rfl)
  refine ⟨by rfl, by rfl, hNext.1 (by decide), hEqual.2.mpr (by rfl), ?_, hCompare⟩
  rw [Ne, hOther.2]
  decide

end PowRules.Target

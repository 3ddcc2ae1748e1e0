import Mathlib.Tactic.Ring
import PowRules.Proofs.Bytes
import PowRules.Proofs.Target
import PowRules.Proofs.Words

/-! Compact words and targets in machine words. Targets are numbers of any size, but the number of their bytes, and all
that a compact word is put together from, has a word of its own. -/
namespace PowRules.Words

variable {ε : Type}

def expand (bits : UInt32) : Run ε Nat :=
  if Compact.size bits ≤ 3 then do
    let missing ← sub 3 (Compact.size bits)
    let shift ← hold 64 (8 * missing)
    return Compact.mantissa bits >>> shift
  else do
    let more ← sub (Compact.size bits) 3
    let shift ← hold 64 (8 * more)
    return Compact.mantissa bits <<< shift

def ofBits (bits : UInt32) : Run RuleError Target := do
  let n ← expand bits
  if Compact.isNegative bits ∨ n = 0 ∨ Compact.limit ≤ n then fail (.malformedTarget bits) else return ⟨n⟩

/-- The greatest size of a compact word for a number of 256 bits. -/
def maxSize : Nat := 33

/-- The compact word of a size and the bytes below it. -/
def pack (size low : Nat) : Run ε UInt32 :=
  if maxSize < size then fault .overflow
  else do
    let top ← hold 8 size
    let word ← hold 32 (top * 0x1000000 + low)
    return UInt32.ofNat word

/-- The bytes of a number, most significant first. Zeros follow where there are fewer than three. -/
def padded (n : Nat) : List UInt8 :=
  BigEndian.encode (Compact.byteCount n) n ++ List.replicate (3 - Compact.byteCount n) 0

def leading (n : Nat) : Run ε Nat := do
  let first ← element (padded n) 0
  let second ← element (padded n) 1
  let third ← element (padded n) 2
  hold 32 (first.toNat * 0x10000 + second.toNat * 0x100 + third.toNat)

/-- The compact word of a number, which has to have at most 256 bits. -/
def encode (n : Nat) : Run ε UInt32 := do
  -- A number has no word, so nothing but its caller keeps it within these bits.
  let held ← hold 256 n
  let count ← hold 32 (Compact.byteCount held)
  let low ← leading held
  if low < 0x800000 then pack count low
  else
    let size ← hold 32 (count + 1)
    pack size (low / 256)

def rounded (target : Target) : Run ε Target := do
  let bits ← encode target.value
  let n ← expand bits
  return ⟨n⟩

def rescale (target : Target) (actual expected : Nat) (cap : Target) : Run ε Target := do
  let quotient ← div (target.value * actual) (max expected 1)
  rounded (Target.capped ⟨quotient⟩ cap)

theorem size_lt (bits : UInt32) : Compact.size bits < 2 ^ 8 := by
  have hBits := bits.toNat_lt
  unfold Compact.size
  omega

/-- Neither shift is negative, as the size decides which of the two it is. -/
theorem expand_eq (bits : UInt32) : (expand bits : Run ε Nat) = .ok (Compact.expand bits) := by
  have hSize := size_lt bits
  unfold expand Compact.expand
  split
  next hShort =>
    have hShift : 8 * (3 - Compact.size bits) < 2 ^ 64 := by omega
    rw [sub_eq hShort, ok_bind, hold_eq hShift]
    rfl
  next hLong =>
    have hShift : 8 * (Compact.size bits - 3) < 2 ^ 64 := by omega
    rw [sub_eq (by omega), ok_bind, hold_eq hShift]
    rfl

theorem ofBits_eq (bits : UInt32) : ofBits bits = lift (Target.ofBits bits) := by
  rw [ofBits, expand_eq, ok_bind, Target.ofBits, Compact.decode?]
  split <;> rfl

theorem pack_eq {size low : Nat} (hSize : size ≤ maxSize) (hLow : low < 0x1000000) :
    (pack size low : Run ε UInt32) = .ok (UInt32.ofNat (size * 0x1000000 + low)) := by
  have hByte : size < 2 ^ 8 := Nat.lt_of_le_of_lt hSize (by decide)
  have hWord : size * 0x1000000 + low < 2 ^ 32 := by
    unfold maxSize at hSize
    omega
  rw [pack, if_neg (Nat.not_lt_of_le hSize), hold_eq hByte, ok_bind, hold_eq hWord]
  rfl

theorem length_padded (n : Nat) : (padded n).length = max (Compact.byteCount n) 3 := by
  rw [padded, List.length_append, BigEndian.encode_length, List.length_replicate]
  omega

/-- Zeros behind a short number move its bytes up to the front. -/
theorem value_padded (n : Nat) : BigEndian.value (padded n) = n * 256 ^ (3 - Compact.byteCount n) := by
  have hBytes := Compact.byteCount_le_iff.mp (Nat.le_refl (Compact.byteCount n))
  rw [padded, BigEndian.value_append, BigEndian.value_encode hBytes, BigEndian.value_zeros, List.length_replicate,
    Nat.add_zero]

/-- Padding first and dividing then gives the leading bytes in one way for short and long numbers. -/
theorem leading_eq_value_padded (n : Nat) :
    Compact.leading n = BigEndian.value (padded n) / 256 ^ ((padded n).length - 3) := by
  rw [value_padded, length_padded, Compact.leading]
  split
  next hShort =>
    rw [Compact.shiftLeft_bytes, Nat.max_eq_right hShort, Nat.sub_self, Nat.pow_zero, Nat.div_one]
  next hLong =>
    have hMore : 3 ≤ Compact.byteCount n := Nat.le_of_not_le hLong
    rw [Compact.shiftRight_bytes, Nat.max_eq_left hMore, Nat.sub_eq_zero_of_le hMore, Nat.pow_zero, Nat.mul_one]

theorem value_div_pow_length (first second third : UInt8) (rest : List UInt8) :
    BigEndian.value (first :: second :: third :: rest) / 256 ^ rest.length =
      first.toNat * 0x10000 + second.toNat * 0x100 + third.toNat := by
  have hSplit : BigEndian.value (first :: second :: third :: rest) =
      BigEndian.value rest + (first.toNat * 0x10000 + second.toNat * 0x100 + third.toNat) * 256 ^ rest.length := by
    simp only [BigEndian.value_cons, List.length_cons]
    ring
  rw [hSplit, Nat.add_mul_div_right _ _ (Compact.pow_bytes_pos _), Nat.div_eq_of_lt (BigEndian.value_lt rest),
    Nat.zero_add]

/-- The three leading bytes are in their places. -/
theorem exists_padded (n : Nat) :
    ∃ first second third rest, padded n = first :: second :: third :: rest ∧
      Compact.leading n = first.toNat * 0x10000 + second.toNat * 0x100 + third.toNat := by
  have hLength : 3 ≤ (padded n).length := by
    rw [length_padded]
    omega
  rcases hPadded : padded n with _ | ⟨first, _ | ⟨second, _ | ⟨third, rest⟩⟩⟩
  · simp [hPadded] at hLength
  · simp [hPadded] at hLength
  · simp [hPadded] at hLength
  · refine ⟨first, second, third, rest, rfl, ?_⟩
    rw [leading_eq_value_padded, hPadded, ← value_div_pow_length first second third rest]
    rfl

theorem leading_lt (n : Nat) : Compact.leading n < 0x1000000 := by
  obtain ⟨first, second, third, _, _, hLeading⟩ := exists_padded n
  have hFirst := first.toNat_lt
  have hSecond := second.toNat_lt
  have hThird := third.toNat_lt
  omega

theorem leading_eq (n : Nat) : (leading n : Run ε Nat) = .ok (Compact.leading n) := by
  have hRange := leading_lt n
  obtain ⟨first, second, third, rest, hPadded, hLeading⟩ := exists_padded n
  have hFirst : (padded n)[0]? = some first := by rw [hPadded]; rfl
  have hSecond : (padded n)[1]? = some second := by rw [hPadded]; rfl
  have hThird : (padded n)[2]? = some third := by rw [hPadded]; rfl
  rw [leading, element_eq hFirst, ok_bind, element_eq hSecond, ok_bind, element_eq hThird, ok_bind, ← hLeading]
  exact hold_eq (by omega)

/-- For 256 bits or fewer, no part of the word overflows. -/
theorem encode_eq {n : Nat} (h : n < 2 ^ 256) : (encode n : Run ε UInt32) = .ok (Compact.encode n) := by
  have hLow := leading_lt n
  have hCount : Compact.byteCount n ≤ 32 := Compact.byteCount_le_iff.mpr (by omega)
  have hCountWord : Compact.byteCount n < 2 ^ 32 := by omega
  have hNextWord : Compact.byteCount n + 1 < 2 ^ 32 := by omega
  unfold encode Compact.encode
  rw [hold_eq h, ok_bind, hold_eq hCountWord, ok_bind, leading_eq, ok_bind]
  split
  next hFits => exact pack_eq (Nat.le_succ_of_le hCount) hLow
  next hSign =>
    rw [hold_eq hNextWord, ok_bind]
    exact pack_eq (Nat.succ_le_succ hCount) (by omega)

/-- The first number without a compact word of its own. -/
example : (encode (2 ^ 256) : Run ε UInt32) = fault .overflow := by rfl

theorem rounded_eq {target : Target} (h : target.value < 2 ^ 256) :
    (rounded target : Run ε Target) = .ok target.rounded := by
  rw [rounded, encode_eq h, ok_bind, expand_eq]
  rfl

/-- The cap keeps the scaled number within the range of compact words. -/
theorem rescale_eq {cap : Target} (h : cap.value < 2 ^ 256) (target : Target) (actual expected : Nat) :
    (rescale target actual expected cap : Run ε Target) = .ok (target.rescale actual expected cap) := by
  have hCapped : ((⟨target.value * actual / max expected 1⟩ : Target).capped cap).value < 2 ^ 256 := by
    rw [Target.capped_value]
    omega
  rw [rescale, div_eq (by omega), ok_bind, rounded_eq hCapped]
  rfl

end PowRules.Words

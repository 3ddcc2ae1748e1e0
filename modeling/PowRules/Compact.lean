import PowRules.Text

/-! The compact form of a target: a word whose top byte counts bytes and whose low 23 bits are the
three leading bytes of the number. The bit between them is a sign, never set in a valid word. -/
namespace PowRules.Compact

/-- The byte count of a compact word. -/
def size (bits : UInt32) : Nat :=
  bits.toNat / 0x1000000

/-- The leading bytes of a compact word, without the sign. -/
def mantissa (bits : UInt32) : Nat :=
  bits.toNat % 0x800000

def isNegative (bits : UInt32) : Bool :=
  bits.toNat / 0x800000 % 2 = 1

/-- The number a compact word stands for, whatever its sign and size. Bytes below the unit are lost. -/
def expand (bits : UInt32) : Nat :=
  if size bits ≤ 3 then mantissa bits >>> (8 * (3 - size bits))
  else mantissa bits <<< (8 * (size bits - 3))

/-- Numbers of more than 256 bits begin here. -/
def limit : Nat :=
  1 <<< 256

/-- The number of a valid compact word. A word that is negative, zero or not below `limit` has none. -/
def decode? (bits : UInt32) : Option Nat :=
  if isNegative bits ∨ expand bits = 0 ∨ limit ≤ expand bits then none else some (expand bits)

/-- How many bytes a number needs. Zero needs none. -/
def byteCount (n : Nat) : Nat :=
  if n = 0 then 0 else n.log2 / 8 + 1

/-- The three leading bytes of a number, padded on the right when it is shorter. -/
def leading (n : Nat) : Nat :=
  if byteCount n ≤ 3 then n <<< (8 * (3 - byteCount n)) else n >>> (8 * (byteCount n - 3))

/-- The compact word of a number, which keeps its leading bytes. Where these would set the sign, only
two of them are kept and the size is one more. Nothing checks that the size fits into its byte: of a
size above 255 the upper bits are lost. -/
def encode (n : Nat) : UInt32 :=
  if leading n < 0x800000 then UInt32.ofNat (byteCount n * 0x1000000 + leading n)
  else UInt32.ofNat ((byteCount n + 1) * 0x1000000 + leading n / 256)

def text (bits : UInt32) : String :=
  String.ofList (Hex.fixed 8 bits.toNat)

/-- A word is valid when its sign is clear and its number is positive and below `limit`. The size byte
as such is not limited. -/
theorem decode?_eq_some_iff {bits : UInt32} {n : Nat} :
    decode? bits = some n ↔
      isNegative bits = false ∧ expand bits = n ∧ 0 < n ∧ n < limit := by
  unfold decode?
  split
  next h =>
    constructor
    · intro hNone
      cases hNone
    · rintro ⟨hSign, rfl, hPositive, hBound⟩
      rcases h with h | h | h
      · simp [hSign] at h
      · omega
      · omega
  next h =>
    simp only [not_or, Bool.not_eq_true] at h
    constructor
    · intro hSome
      cases hSome
      exact ⟨h.1, rfl, by omega, by omega⟩
    · rintro ⟨_, rfl, _, _⟩
      rfl

theorem decode?_eq_none_iff {bits : UInt32} :
    decode? bits = none ↔
      isNegative bits = true ∨ expand bits = 0 ∨ limit ≤ expand bits := by
  unfold decode?
  split
  next h => exact iff_of_true rfl h
  next h => exact iff_of_false (Option.some_ne_none _) h

end PowRules.Compact

/-! A compact word is read from one to eight digits, with white space around them and `0x` or a plus
sign in front. -/
namespace PowRules

inductive BitsTextError where
  /-- The digits are missing or take more than eight bytes. -/
  | length (text : String)
  /-- A character is no digit. -/
  | digits (text : String)
deriving DecidableEq

/-- The message, and the messages of its causes from the outside in. -/
def BitsTextError.messages : BitsTextError → List String
  | length text => [s!"invalid compact bits '{text}': expected 1 to 8 hex digits"]
  | digits text => [s!"invalid compact bits '{text}'", "invalid digit found in string"]

namespace Compact

/-- A text without the plus sign in front, which is taken away once. -/
def dropPlus : List Char → List Char
  | '+' :: rest => rest
  | text => text

/-- Read a compact word. The plus sign counts towards the length. -/
def parse (text : String) : Except BitsTextError UInt32 :=
  let word := Hex.dropMark (Blank.trim text.toList)
  if word = [] ∨ 8 < (Utf8.bytes word).length then .error (.length text)
  else if dropPlus word = [] then .error (.digits text)
  else
    match Hex.number? (dropPlus word) with
    | some n => .ok (UInt32.ofNat n)
    | none => .error (.digits text)

end Compact

end PowRules

import PowRules.Text

/-! Fixed-width little-endian numbers. Encoding the value of a byte string gives the string back. -/
namespace PowRules.LittleEndian

/-- The low `width` bytes of a number, least significant first. -/
def encode : Nat → Nat → List UInt8
  | 0, _ => []
  | width + 1, n => UInt8.ofNat n :: encode width (n / 256)

/-- The number that a byte string denotes, its first byte counting least. -/
def value : List UInt8 → Nat
  | [] => 0
  | byte :: rest => byte.toNat + 256 * value rest

@[simp] theorem encode_length (width n : Nat) : (encode width n).length = width := by
  induction width generalizing n with
  | zero => rfl
  | succ width ih => simp [encode, ih]

/-- No byte string is lost by taking it for a number, since the width is kept apart from the value. -/
@[simp] theorem encode_value (bytes : List UInt8) : encode bytes.length (value bytes) = bytes := by
  induction bytes with
  | nil => rfl
  | cons byte rest ih =>
      have hByte := byte.toNat_lt
      have hHead : UInt8.ofNat (byte.toNat + 256 * value rest) = byte := by
        apply UInt8.toNat.inj
        rw [UInt8.toNat_ofNat']
        omega
      have hTail : (byte.toNat + 256 * value rest) / 256 = value rest := by omega
      simp [encode, value, hHead, hTail, ih]

end PowRules.LittleEndian

namespace PowRules

/-- Thirty-two bytes in wire order: a link to a header, a Merkle root or a digest. -/
structure Hash where
  bytes : List UInt8
  bytes_length : bytes.length = 32
deriving DecidableEq

namespace Hash

/-- The hash of zero bytes only: the link of genesis and the easiest digest. -/
def zero : Hash :=
  ⟨List.replicate 32 0, by simp⟩

instance : Inhabited Hash :=
  ⟨zero⟩

def ofBytes? (bytes : List UInt8) : Option Hash :=
  if h : bytes.length = 32 then some ⟨bytes, h⟩ else none

/-- The number a hash stands for as a digest. The last byte counts most. -/
def value (hash : Hash) : Nat :=
  LittleEndian.value hash.bytes

@[simp] theorem value_zero : zero.value = 0 := by
  decide

end Hash

/-! A hash is written as 64 digits in wire order and read with or without `0x` in front. Lengths and
positions count bytes of the text. -/

inductive HashTextError where
  /-- The text has the digits of this many whole bytes. -/
  | length (bytes : Nat)
  /-- The text has a byte that is no digit. -/
  | digit (fault : Hex.BadDigit)
deriving DecidableEq

def HashTextError.message : HashTextError → String
  | .length bytes => s!"invalid hex length: expected 32 bytes, got {bytes} bytes"
  | .digit fault =>
      s!"invalid hex: Invalid character {Quoted.quote fault.character} at position {fault.position}"

namespace Hash

/-- The bytes of a text in UTF-8, each as the character of that number. -/
def octets (text : String) : List Char :=
  (Utf8.bytes text.toList).map fun byte => Char.ofNat byte.toNat

/-- Sixty-four digits, the bytes in wire order. -/
def text (hash : Hash) : String :=
  String.ofList (Hex.ofBytes hash.bytes)

/-- Read 64 digits of either case, behind an optional `0x`. -/
def parse (text : String) : Except HashTextError Hash :=
  let digits := Hex.dropMark (octets text)
  if hLength : digits.length = 64 then
    match hBytes : Hex.toBytes digits with
    | .error fault => .error (.digit fault)
    | .ok bytes => .ok ⟨bytes, by
        have hCount := Hex.toBytesFrom_length hBytes
        omega⟩
  else
    .error (.length (digits.length / 2))

def inspect (hash : Hash) : String :=
  s!"Hash32({hash.text})"

end Hash

end PowRules

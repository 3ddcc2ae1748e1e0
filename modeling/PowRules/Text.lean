/-! What texts are made of, and how numbers and bytes are read from digits and written with them. A text
is a list of characters here. -/
namespace PowRules.Utf8

def bytes (text : List Char) : List UInt8 :=
  text.flatMap String.utf8EncodeChar

end PowRules.Utf8

/-! White space in the sense of the Unicode property `White_Space`. -/
namespace PowRules.Blank

/-- Code points of white space, as ranges with both ends included. -/
def ranges : List (Nat × Nat) :=
  [(0x09, 0x0d), (0x20, 0x20), (0x85, 0x85), (0xa0, 0xa0), (0x1680, 0x1680), (0x2000, 0x200a),
    (0x2028, 0x2029), (0x202f, 0x202f), (0x205f, 0x205f), (0x3000, 0x3000)]

def isBlank (c : Char) : Bool :=
  ranges.any fun range => range.1 ≤ c.toNat && c.toNat ≤ range.2

def trim (text : List Char) : List Char :=
  ((text.dropWhile isBlank).reverse.dropWhile isBlank).reverse

end PowRules.Blank

/-! Decimal numbers over lists of characters. Only the digits `0` to `9` count. -/
namespace PowRules.Decimal

def isDigit (c : Char) : Bool :=
  48 ≤ c.toNat && c.toNat ≤ 57

/-- The number that some digits denote. Zeros in front are allowed, an empty text is not. -/
def number? (digits : List Char) : Option Nat :=
  if digits ≠ [] ∧ digits.all isDigit then
    some (digits.foldl (fun n c => 10 * n + (c.toNat - 48)) 0)
  else none

/-- The number that some digits denote behind an optional sign. -/
def signed? : List Char → Option Int
  | '-' :: digits => (number? digits).map fun n => -(n : Int)
  | '+' :: digits => (number? digits).map Int.ofNat
  | digits => (number? digits).map Int.ofNat

/-- Read a word of 32 bits behind an optional sign. -/
def word? (text : List Char) : Option UInt32 :=
  (signed? text).bind fun n =>
    if 0 ≤ n ∧ n < 0x100000000 then some (UInt32.ofNat n.toNat) else none

end PowRules.Decimal

/-! Hexadecimal text over lists of characters. Digits of both cases are read; lower case is written. -/
namespace PowRules.Hex

/-- The value of a digit of either case. -/
def digit? (c : Char) : Option Nat :=
  if 48 ≤ c.toNat ∧ c.toNat ≤ 57 then some (c.toNat - 48)
  else if 97 ≤ c.toNat ∧ c.toNat ≤ 102 then some (c.toNat - 87)
  else if 65 ≤ c.toNat ∧ c.toNat ≤ 70 then some (c.toNat - 55)
  else none

/-- The digit for a value below sixteen. -/
def digit (n : Nat) : Char :=
  Char.ofNat (if n < 10 then 48 + n else 87 + n)

/-- The low `width` digits of a number, most significant first. -/
def fixed : Nat → Nat → List Char
  | 0, _ => []
  | width + 1, n => fixed width (n / 16) ++ [digit (n % 16)]

/-- How many digits a number needs. Zero needs one. -/
def digitCount (n : Nat) : Nat :=
  n.log2 / 4 + 1

/-- All digits of a number, with zeros in front up to `width`. -/
def padded (width n : Nat) : List Char :=
  fixed (max width (digitCount n)) n

/-- A text without the mark `0x` in front, which is taken away once. -/
def dropMark : List Char → List Char
  | '0' :: 'x' :: rest => rest
  | text => text

/-- The number a text of digits denotes. The empty text is zero. -/
def number? (digits : List Char) : Option Nat :=
  digits.foldlM (fun n c => (digit? c).map (16 * n + ·)) 0

/-- Two digits for each byte, high half first. -/
def ofBytes (bytes : List UInt8) : List Char :=
  bytes.flatMap fun byte => [digit (byte.toNat / 16), digit (byte.toNat % 16)]

/-- A character that is no digit, with its position in the text. -/
structure BadDigit where
  character : Char
  position : Nat
deriving DecidableEq

/-- Read pairs of digits as bytes, counting positions from `start`. The fault reported is the
first from the left, and a last digit without a partner is left unread. -/
def toBytesFrom (start : Nat) : List Char → Except BadDigit (List UInt8)
  | high :: low :: rest =>
      match digit? high, digit? low with
      | none, _ => .error ⟨high, start⟩
      | some _, none => .error ⟨low, start + 1⟩
      | some h, some l => (toBytesFrom (start + 2) rest).map (UInt8.ofNat (16 * h + l) :: ·)
  | _ => .ok []

def toBytes (digits : List Char) : Except BadDigit (List UInt8) :=
  toBytesFrom 0 digits

theorem digit?_lt {c : Char} {n : Nat} (h : digit? c = some n) : n < 16 := by
  unfold digit? at h
  split at h
  · cases h; omega
  · split at h
    · cases h; omega
    · split at h
      · cases h; omega
      · cases h

@[simp] theorem digit?_digit {n : Nat} (h : n < 16) : digit? (digit n) = some n := by
  have hAll : ∀ m : Fin 16, digit? (digit m.val) = some m.val := by decide
  exact hAll ⟨n, h⟩

@[simp] theorem fixed_length (width n : Nat) : (fixed width n).length = width := by
  induction width generalizing n with
  | zero => rfl
  | succ width ih => simp [fixed, ih]

/-- Two digits make one byte, and an odd one at the end makes none. -/
theorem toBytesFrom_length {start : Nat} {digits : List Char} {bytes : List UInt8}
    (h : toBytesFrom start digits = .ok bytes) : bytes.length = digits.length / 2 := by
  fun_induction toBytesFrom start digits generalizing bytes with
  | case1 => cases h
  | case2 => cases h
  | case3 start high low rest h' hHigh l hLow ih =>
      cases hRest : toBytesFrom (start + 2) rest with
      | error fault => rw [hRest] at h; cases h
      | ok tail =>
          rw [hRest] at h
          cases h
          simp only [List.length_cons, ih hRest]
          omega
  | case4 digits _ hShort =>
      cases h
      match digits, hShort with
      | [], _ => rfl
      | [_], _ => simp
      | _ :: _ :: _, hShort => exact absurd rfl (hShort _ _ _)

/-- Bytes written as digits are read back, wherever the count of positions starts. -/
@[simp] theorem toBytesFrom_ofBytes (start : Nat) (bytes : List UInt8) :
    toBytesFrom start (ofBytes bytes) = .ok bytes := by
  induction bytes generalizing start with
  | nil => rfl
  | cons byte rest ih =>
      have hByte := byte.toNat_lt
      have hHigh : digit? (digit (byte.toNat / 16)) = some (byte.toNat / 16) :=
        digit?_digit (by omega)
      have hLow : digit? (digit (byte.toNat % 16)) = some (byte.toNat % 16) :=
        digit?_digit (by omega)
      have hWhole : 16 * (byte.toNat / 16) + byte.toNat % 16 = byte.toNat := Nat.div_add_mod _ _
      change toBytesFrom start (digit (byte.toNat / 16) :: digit (byte.toNat % 16) ::
        ofBytes rest) = .ok (byte :: rest)
      rw [toBytesFrom, hHigh, hLow]
      simp only [ih, hWhole, UInt8.ofNat_toNat]
      rfl

end PowRules.Hex

/-! A single character between apostrophes, as error messages show it. The control characters, the
no-break space and the soft hyphen stand as escapes. Only characters below 256 are told apart here,
since the messages show single bytes. -/
namespace PowRules.Quoted

/-- The mark at both ends of a quoted character. -/
def mark : Char := Char.ofNat 39

/-- Whether a character below 256 can be shown as it is. -/
def isShown (c : Char) : Bool :=
  (0x20 ≤ c.toNat && c.toNat < 0x7f) || (0xa0 < c.toNat && c.toNat ≠ 0xad)

/-- A character with the escape it needs between marks. A double quote needs none. -/
def escape (c : Char) : List Char :=
  if c.toNat = 0 then ['\\', '0']
  else if c = '\t' then ['\\', 't']
  else if c = '\n' then ['\\', 'n']
  else if c = '\r' then ['\\', 'r']
  else if c = '\\' then ['\\', '\\']
  else if c = mark then ['\\', mark]
  else if isShown c then [c]
  else ['\\', 'u', '\x7b'] ++ Hex.padded 1 c.toNat ++ ['\x7d']

def quote (c : Char) : String :=
  String.ofList (mark :: escape c ++ [mark])

end PowRules.Quoted

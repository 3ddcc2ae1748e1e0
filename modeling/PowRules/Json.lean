import PowRules.Text

/-! JSON values, and how the fields of a record are taken from them. -/
namespace PowRules

/-- A JSON value. Whole numbers have a constructor of their own, and members keep their order. -/
inductive Json where
  | null
  | bool (value : Bool)
  | integer (value : Int)
  /-- A number written with a fraction or an exponent, or the negative zero. -/
  | decimal (literal : List Char)
  | string (value : String)
  | array (items : List Json)
  | object (members : List (String × Json))

namespace Json

/-- A record written as an object with some of these names, each at most once, or as an array of
values for the first of them, in order. -/
def record? (names : List String) : Json → Option (List (String × Json))
  | object members =>
      if (members.map Prod.fst).Nodup ∧ ∀ name ∈ members.map Prod.fst, name ∈ names then
        some members
      else none
  | array items => if items.length ≤ names.length then some (names.zip items) else none
  | _ => none

def items? : Json → Option (List Json)
  | array items => some items
  | _ => none

def string? : Json → Option String
  | string value => some value
  | _ => none

/-- A whole number from 0 to the last one of 32 bits. -/
def word? : Json → Option UInt32
  | integer n => if 0 ≤ n ∧ n < 0x100000000 then some (UInt32.ofNat n.toNat) else none
  | _ => none

/-- A whole number of 32 bits in two's complement. -/
def int32? : Json → Option Int32
  | integer n => if -0x80000000 ≤ n ∧ n < 0x80000000 then some (Int32.ofInt n) else none
  | _ => none

/-- Nothing for `null`, and otherwise what `read` makes of the value. -/
def nullable? {α : Type} (read : Json → Option α) : Json → Option (Option α)
  | null => some none
  | value => (read value).map some

def required? {α : Type} (members : List (String × Json)) (name : String)
    (read : Json → Option α) : Option α :=
  (members.lookup name).bind read

/-- A member that may be left out. -/
def optional? {α : Type} (members : List (String × Json)) (name : String) (absent : α)
    (read : Json → Option α) : Option α :=
  match members.lookup name with
  | none => some absent
  | some value => read value

end Json

end PowRules

/-! The tokens of a JSON text. Strings may hold no raw control characters and no half of a surrogate
pair, and numbers no superfluous zero in front. -/
namespace PowRules.Json

inductive Token where
  | openObject
  | closeObject
  | openArray
  | closeArray
  | colon
  | comma
  /-- A value without parts. -/
  | scalar (value : Json)

namespace Token

def isBlank (c : Char) : Bool :=
  c = ' ' || c = '\t' || c = '\n' || c = '\r'

def mark? (c : Char) : Option Token :=
  if c = '\x7b' then some openObject
  else if c = '\x7d' then some closeObject
  else if c = '[' then some openArray
  else if c = ']' then some closeArray
  else if c = ':' then some colon
  else if c = ',' then some comma
  else none

/-- The character that a backslash and a letter stand for. -/
def escaped? (c : Char) : Option Char :=
  if c = '"' then some '"'
  else if c = '\\' then some '\\'
  else if c = '/' then some '/'
  else if c = 'b' then some '\x08'
  else if c = 'f' then some '\x0c'
  else if c = 'n' then some '\n'
  else if c = 'r' then some '\r'
  else if c = 't' then some '\t'
  else none

/-- The unit of 16 bits that four digits stand for. -/
def unit? (a b c d : Char) : Option Nat :=
  Hex.number? [a, b, c, d]

def isHigh (unit : Nat) : Bool :=
  0xd800 ≤ unit && unit < 0xdc00

def isLow (unit : Nat) : Bool :=
  0xdc00 ≤ unit && unit < 0xe000

/-- The character that two halves stand for. -/
def pair (high low : Nat) : Char :=
  Char.ofNat (0x10000 + (high - 0xd800) * 0x400 + (low - 0xdc00))

/-- The characters of a string up to its closing quote, and the text behind it. -/
def readString : List Char → Option (List Char × List Char)
  | [] => none
  | '"' :: rest => some ([], rest)
  | '\\' :: 'u' :: a :: b :: c :: d :: '\\' :: 'u' :: e :: f :: g :: h :: rest =>
      match unit? a b c d, unit? e f g h with
      | some first, some second =>
          if isHigh first then
            if isLow second then (readString rest).map fun s => (pair first second :: s.1, s.2)
            else none
          else if isLow first then none
          else
            (readString ('\\' :: 'u' :: e :: f :: g :: h :: rest)).map fun s =>
              (Char.ofNat first :: s.1, s.2)
      | _, _ => none
  | '\\' :: 'u' :: a :: b :: c :: d :: rest =>
      match unit? a b c d with
      | some unit =>
          if isHigh unit || isLow unit then none
          else (readString rest).map fun s => (Char.ofNat unit :: s.1, s.2)
      | none => none
  | '\\' :: letter :: rest =>
      match escaped? letter with
      | some c => (readString rest).map fun s => (c :: s.1, s.2)
      | none => none
  | c :: rest =>
      if c.toNat < 0x20 then none else (readString rest).map fun s => (c :: s.1, s.2)

/-- Whether a text is a whole number as JSON writes it, without sign. -/
def isWhole (digits : List Char) : Bool :=
  digits != [] && digits.all Decimal.isDigit && (digits.head? != some '0' || digits.length == 1)

def isExponent : List Char → Bool
  | mark :: rest =>
      (mark = 'e' || mark = 'E') &&
        match rest with
        | '+' :: digits | '-' :: digits => digits != [] && digits.all Decimal.isDigit
        | digits => digits != [] && digits.all Decimal.isDigit
  | [] => false

/-- Whether a text is a fraction, with or without an exponent. -/
def isFraction : List Char → Bool
  | '.' :: rest =>
      let digits := rest.takeWhile Decimal.isDigit
      let tail := rest.dropWhile Decimal.isDigit
      digits != [] && (tail = [] || isExponent tail)
  | _ => false

/-- Whether a text is a number, without sign, that has a fraction or an exponent. -/
def isDecimal (text : List Char) : Bool :=
  let tail := text.dropWhile Decimal.isDigit
  isWhole (text.takeWhile Decimal.isDigit) && (isFraction tail || isExponent tail)

/-- The number without sign that a text stands for. -/
def unsigned? (text : List Char) : Option Json :=
  if isWhole text then (Decimal.number? text).map fun n => integer n
  else if isDecimal text then some (decimal text)
  else none

def number? : List Char → Option Json
  | '-' :: text =>
      match unsigned? text with
      | some (integer n) => if n = 0 then some (decimal ('-' :: text)) else some (integer (-n))
      | some _ => some (decimal ('-' :: text))
      | none => none
  | text => unsigned? text

/-- The value of a word, which is a name or a number. -/
def word? (word : List Char) : Option Json :=
  if word = ['n', 'u', 'l', 'l'] then some null
  else if word = ['t', 'r', 'u', 'e'] then some (bool true)
  else if word = ['f', 'a', 'l', 's', 'e'] then some (bool false)
  else number? word

/-- Whether a character goes on with a word. -/
def inWord (c : Char) : Bool :=
  !isBlank c && (mark? c).isNone && c != '"'

/-- What stands behind a string is shorter, which lets the scan of the tokens recur on it. -/
theorem readString_length {text rest chars : List Char}
    (h : readString text = some (chars, rest)) : rest.length < text.length := by
  fun_induction readString text generalizing chars rest <;>
    simp_all [Option.map_eq_some_iff]
  all_goals grind

/-- Whether a character stands for itself in a string. -/
def isPlain (c : Char) : Bool :=
  0x20 ≤ c.toNat && c != '"' && c != '\\'

def scan : List Char → Option (List Token)
  | [] => some []
  | c :: rest =>
      if isBlank c then scan rest
      else
        match mark? c with
        | some token => (scan rest).map (token :: ·)
        | none =>
            if c = '"' then
              match hString : readString rest with
              | some (chars, behind) =>
                  have := readString_length hString
                  (scan behind).map (scalar (string (String.ofList chars)) :: ·)
              | none => none
            else
              match word? (c :: rest.takeWhile inWord) with
              | some value => (scan (rest.dropWhile inWord)).map (scalar value :: ·)
              | none => none
termination_by text => text.length
decreasing_by
  · simp
  · simp
  · simp only [List.length_cons]
    omega
  · have hShorter := (List.dropWhile_suffix (l := rest) inWord).length_le
    simp only [List.length_cons]
    omega

@[simp] theorem scan_nil : scan [] = some [] := by
  rw [scan]

theorem scan_blank {c : Char} {rest : List Char} (hBlank : isBlank c = true) :
    scan (c :: rest) = scan rest := by
  rw [scan, if_pos hBlank]

theorem scan_mark {c : Char} {rest : List Char} {token : Token} (hBlank : isBlank c = false)
    (hMark : mark? c = some token) : scan (c :: rest) = (scan rest).map (token :: ·) := by
  rw [scan, if_neg (by simp [hBlank])]
  simp [hMark]

theorem scan_string {rest chars behind : List Char}
    (hString : readString rest = some (chars, behind)) :
    scan ('"' :: rest) = (scan behind).map (scalar (string (String.ofList chars)) :: ·) := by
  rw [scan, if_neg (by decide)]
  simp only [show mark? '"' = none by decide, ↓reduceIte]
  split
  next chars' behind' h =>
    rw [hString] at h
    cases h
    rfl
  next h =>
    rw [hString] at h
    cases h

theorem scan_word {c : Char} {rest : List Char} {value : Json} (hWord : inWord c = true)
    (hValue : word? (c :: rest.takeWhile inWord) = some value) :
    scan (c :: rest) = (scan (rest.dropWhile inWord)).map (scalar value :: ·) := by
  simp only [inWord, Bool.and_eq_true, Bool.not_eq_true', Option.isNone_iff_eq_none, bne_iff_ne,
    ne_eq] at hWord
  rw [scan, if_neg (by simp [hWord.1.1])]
  simp [hWord.1.2, hWord.2, hValue]

end Token

end PowRules.Json

/-! A JSON value is read from its tokens by a machine with a stack of the containers that are not
closed yet. One token is one step. -/
namespace PowRules.Json

/-- A container that waits for a value. Its contents so far stand last first. -/
inductive Frame where
  | array (items : List Json)
  | object (members : List (String × Json)) (key : String)

/-- What has been read so far, inside the containers of a stack. -/
inductive Progress where
  /-- A value has to follow. -/
  | expectValue (frames : List Frame)
  /-- An array has just been opened. -/
  | arrayOpened (frames : List Frame)
  /-- An object has just been opened. -/
  | objectOpened (frames : List Frame)
  /-- The last of these items is complete. -/
  | item (items : List Json) (frames : List Frame)
  /-- The last of these members is complete. -/
  | member (members : List (String × Json)) (frames : List Frame)
  /-- A key has to follow. -/
  | expectKey (members : List (String × Json)) (frames : List Frame)
  /-- A colon has to follow. -/
  | expectColon (members : List (String × Json)) (key : String) (frames : List Frame)
  /-- The outermost value is complete. -/
  | done (value : Json)

namespace Progress

/-- Hand a complete value to the innermost container. -/
def put (value : Json) : List Frame → Progress
  | [] => done value
  | .array items :: frames => item (value :: items) frames
  | .object members key :: frames => member ((key, value) :: members) frames

def start (frames : List Frame) : Token → Option Progress
  | .scalar value => some (put value frames)
  | .openArray => some (arrayOpened frames)
  | .openObject => some (objectOpened frames)
  | _ => none

def step : Progress → Token → Option Progress
  | expectValue frames, token => start frames token
  | arrayOpened frames, .closeArray => some (put (.array []) frames)
  | arrayOpened frames, token => start (.array [] :: frames) token
  | objectOpened frames, .closeObject => some (put (.object []) frames)
  | objectOpened frames, .scalar (.string key) => some (expectColon [] key frames)
  | item items frames, .comma => some (expectValue (.array items :: frames))
  | item items frames, .closeArray => some (put (.array items.reverse) frames)
  | member members frames, .comma => some (expectKey members frames)
  | member members frames, .closeObject => some (put (.object members.reverse) frames)
  | expectKey members frames, .scalar (.string name) => some (expectColon members name frames)
  | expectColon members name frames, .colon => some (expectValue (.object members name :: frames))
  | _, _ => none

end Progress

def ofTokens? (tokens : List Token) : Option Json :=
  match tokens.foldlM Progress.step (.expectValue []) with
  | some (.done value) => some value
  | _ => none

/-- The value of a text, which may have white space around it and between its tokens. -/
def parse? (text : String) : Option Json :=
  (Token.scan text.toList).bind ofTokens?

end PowRules.Json

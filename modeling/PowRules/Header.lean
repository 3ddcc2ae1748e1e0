import PowRules.Hash

namespace PowRules

/-- A block header. Times are seconds, and `bits` is a target in compact form. -/
structure Header where
  version : Int32 := 0
  prev : Hash := .zero
  merkleRoot : Hash := .zero
  time : UInt32 := 0
  bits : UInt32 := 0
  nonce : UInt32 := 0
deriving DecidableEq, Inhabited

/-- Why a byte string is not an encoded header. -/
inductive HeaderCodeError where
  | tooShort
  | tooLong
deriving DecidableEq

def HeaderCodeError.message : HeaderCodeError → String
  | tooShort => "Unexpected length of input"
  | tooLong => "Not all bytes read"

/-- Why a header cannot be handed on to be digested. -/
inductive HeaderEncodingError where
  /-- The encoding has another length than that of a header. -/
  | unexpectedLength
deriving DecidableEq

def HeaderEncodingError.message : HeaderEncodingError → String
  | unexpectedLength => "invalid value: header encoding has unexpected length"

namespace Header

def wireLength : Nat := 80

/-- The wire form: the fields in order, numbers with their least significant byte first and a
negative version in two's complement. -/
def encode (header : Header) : List UInt8 :=
  LittleEndian.encode 4 header.version.toUInt32.toNat ++ header.prev.bytes ++
    header.merkleRoot.bytes ++ LittleEndian.encode 4 header.time.toNat ++
    LittleEndian.encode 4 header.bits.toNat ++ LittleEndian.encode 4 header.nonce.toNat

@[simp] theorem encode_length (header : Header) : header.encode.length = wireLength := by
  simp [encode, wireLength, header.prev.bytes_length, header.merkleRoot.bytes_length]

/-- The encoding with its length checked, as it goes into a digest. -/
def wireForm (header : Header) : Except HeaderEncodingError (List UInt8) :=
  if header.encode.length = wireLength then .ok header.encode else .error .unexpectedLength

theorem wireForm_eq (header : Header) : header.wireForm = .ok header.encode :=
  if_pos header.encode_length

/-- The check of the length never fails. -/
theorem wireForm_ne_error (header : Header) (error : HeaderEncodingError) :
    header.wireForm ≠ .error error := by
  rw [wireForm_eq]
  nofun

/-- The word in the four bytes from `start` on. -/
def wordAt (start : Nat) (bytes : List UInt8) : UInt32 :=
  UInt32.ofNat (LittleEndian.value ((bytes.drop start).take 4))

/-- The header in a string of exactly `wireLength` bytes. -/
def decode (bytes : List UInt8) : Except HeaderCodeError Header :=
  if hShort : bytes.length < wireLength then .error .tooShort
  else if hLong : wireLength < bytes.length then .error .tooLong
  else
    have hLength : bytes.length = 80 := by
      simp only [wireLength] at hShort hLong
      omega
    .ok
      { version := (wordAt 0 bytes).toInt32
        prev := ⟨(bytes.drop 4).take 32, by simp [hLength]⟩
        merkleRoot := ⟨(bytes.drop 36).take 32, by simp [hLength]⟩
        time := wordAt 68 bytes
        bits := wordAt 72 bytes
        nonce := wordAt 76 bytes }

def inspect (header : Header) : String :=
  s!"BlockHeader \x7b version: {header.version}, prev: {header.prev.inspect}, " ++
    s!"merkle_root: {header.merkleRoot.inspect}, time: {header.time}, " ++
    s!"bits: {header.bits}, nonce: {header.nonce} \x7d"

end Header

end PowRules

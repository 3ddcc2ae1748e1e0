import PowRules.Chain
import PowRules.Compact
import PowRules.Directory
import PowRules.Json

/-! A chain file is a JSON text with the height of its first header and the headers. Its shape is
decided for the whole text before any field is looked into. -/
namespace PowRules

/-- A header as a chain file has it. -/
structure Entry where
  version : Int32
  prev : Option String
  merkleRoot : Option String
  time : UInt32
  bits : String
  nonce : UInt32
deriving DecidableEq

inductive EntryError where
  | prev (text : String) (error : HashTextError)
  | merkleRoot (text : String) (error : HashTextError)
  | bits (error : BitsTextError)
deriving DecidableEq

def EntryError.messages : EntryError → List String
  | prev text error => ["prev", s!"invalid hash '{text}': {error.message}"]
  | merkleRoot text error => ["merkle_root", s!"invalid hash '{text}': {error.message}"]
  | bits error => error.messages

namespace Entry

def names : List String :=
  ["version", "prev", "merkle_root", "time", "bits", "nonce"]

/-- Only the time and the bits have to be there. -/
def ofJson? (json : Json) : Option Entry := do
  let members ← json.record? names
  let version ← Json.optional? members "version" 0 Json.int32?
  let prev ← Json.optional? members "prev" none (Json.nullable? Json.string?)
  let merkleRoot ← Json.optional? members "merkle_root" none (Json.nullable? Json.string?)
  let time ← Json.required? members "time" Json.word?
  let bits ← Json.required? members "bits" Json.string?
  let nonce ← Json.optional? members "nonce" 0 Json.word?
  return { version, prev, merkleRoot, time, bits, nonce }

/-- A hash that may be left out, which then is zero. -/
def hash (text : Option String) : Except (String × HashTextError) Hash :=
  match text with
  | none => .ok .zero
  | some text => (Hash.parse text).mapError (text, ·)

/-- The header of an entry. Of several faults the first field in order counts. -/
def toHeader (entry : Entry) : Except EntryError Header := do
  let prev ← (hash entry.prev).mapError fun fault => .prev fault.1 fault.2
  let merkleRoot ← (hash entry.merkleRoot).mapError fun fault => .merkleRoot fault.1 fault.2
  let bits ← (Compact.parse entry.bits).mapError .bits
  return { version := entry.version, prev, merkleRoot, time := entry.time, bits, nonce := entry.nonce }

end Entry

/-- A chain file of the right shape. -/
structure ChainFile where
  base : UInt32
  entries : List Entry
deriving DecidableEq

/-- Why a text is not a chain file. -/
inductive ChainFileError where
  /-- The text is no JSON, or the value has another shape. -/
  | shape
  | noHeaders
  /-- The last header would lie above the last height. -/
  | heightOverflow
  /-- The first entry that is no header. -/
  | entry (index : Nat) (error : EntryError)
deriving DecidableEq

def ChainFileError.messages : ChainFileError → List String
  | shape => ["not a chain file"]
  | noHeaders => ["chain file has no headers"]
  | heightOverflow => ["chain heights overflow u32"]
  | entry index error => s!"header #{index}" :: error.messages

namespace ChainFile

/-- The height of the first header may be left out, and then is zero. -/
def ofJson? (json : Json) : Option ChainFile := do
  let members ← json.record? ["base_height", "headers"]
  let base ← Json.optional? members "base_height" 0 Json.word?
  let items ← Json.required? members "headers" Json.items?
  let entries ← items.mapM Entry.ofJson?
  return { base, entries }

/-- The headers of some entries, the first of which has this index. -/
def headersFrom : Nat → List Entry → Except ChainFileError (List Header)
  | _, [] => .ok []
  | index, entry :: rest =>
      match entry.toHeader with
      | .error error => .error (.entry index error)
      | .ok header => (headersFrom (index + 1) rest).map (header :: ·)

/-- The segment a chain file describes. It has a header, and no height above the last one. -/
def toSegment (file : ChainFile) : Except ChainFileError Segment :=
  if file.entries = [] then .error .noHeaders
  else if maxHeight < file.base.toNat + (file.entries.length - 1) then .error .heightOverflow
  else (headersFrom 0 file.entries).map fun headers => ⟨file.base, headers.toArray⟩

def parse (text : String) : Except ChainFileError Segment :=
  match (Json.parse? text).bind ofJson? with
  | none => .error .shape
  | some file => file.toSegment

end ChainFile

inductive LoadError where
  | reading (path : String) (error : FileError)
  | parsing (path : String) (error : ChainFileError)
deriving DecidableEq

def LoadError.messages : LoadError → List String
  | reading path error => [s!"reading {path}", error.message]
  | parsing path error => s!"parsing {path}" :: error.messages

def ChainFile.load (path : String) (content : Except FileError ByteArray) :
    Except LoadError Segment :=
  match content with
  | .error error => .error (.reading path error)
  | .ok bytes =>
      match String.fromUTF8? bytes with
      | none => .error (.reading path .notUtf8)
      | some text => (parse text).mapError (.parsing path)

end PowRules

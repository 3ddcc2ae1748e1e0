import Mathlib.Data.List.Forall2
import PowRules.ChainFile
import PowRules.Proofs.Chain.Segment
import PowRules.Proofs.Json

/-! The format of chain files, as the texts of a segment: members in any order, members left out where the field
is zero, several spellings of hashes and compact words. Every such text is read as that segment. -/
namespace PowRules

/-- The ways to write a hash. -/
inductive Hash.Spells (hash : Hash) : Json → Prop where
  | text : Spells hash (.string hash.text)
  | marked : Spells hash (.string ("0x" ++ hash.text))
  | null (hZero : hash = .zero) : Spells hash .null

/-- The ways to write a compact word. -/
inductive Compact.Spells (bits : UInt32) : Json → Prop where
  | digits {digits : List Char} (hDigits : Hex.Written 8 bits.toNat digits) :
      Spells bits (.string (String.ofList digits))
  | marked {digits : List Char} (hDigits : Hex.Written 8 bits.toNat digits) :
      Spells bits (.string (String.ofList ('0' :: 'x' :: digits)))

theorem Compact.Spells.exists_text {bits : UInt32} {value : Json} (h : Spells bits value) :
    ∃ text, Json.string? value = some text ∧ parse text = .ok bits := by
  cases h with
  | digits hDigits => exact ⟨_, rfl, parse_digits hDigits⟩
  | marked hDigits => exact ⟨_, rfl, parse_marked hDigits⟩

namespace Entry

/-- The members of an entry for a header. -/
structure Members (header : Header) (members : List (String × Json)) : Prop where
  distinct : (members.map Prod.fst).Nodup
  known : ∀ name ∈ members.map Prod.fst, name ∈ names
  version : Json.Carries members "version" (· = .integer header.version.toInt) (header.version = 0)
  prev : Json.Carries members "prev" header.prev.Spells (header.prev = .zero)
  merkleRoot : Json.Carries members "merkle_root" header.merkleRoot.Spells (header.merkleRoot = .zero)
  time : Json.Carries members "time" (· = .integer header.time.toNat) False
  bits : Json.Carries members "bits" (Compact.Spells header.bits) False
  nonce : Json.Carries members "nonce" (· = .integer header.nonce.toNat) (header.nonce = 0)

variable {header : Header} {members : List (String × Json)}

/-- Whether a hash is written out, is `null` or is left out as zero, the same hash comes from it. -/
theorem exists_hashText {name : String} {hash : Hash}
    (h : Json.Carries members name hash.Spells (hash = .zero)) :
    ∃ text, Json.optional? members name none (Json.nullable? Json.string?) = some text ∧
      Entry.hash text = .ok hash := by
  apply h.exists_optional?
  · intro value hValue
    cases hValue with
    | text => exact ⟨some hash.text, rfl, by rw [Entry.hash, Hash.parse_text]; rfl⟩
    | marked => exact ⟨some ("0x" ++ hash.text), rfl, by rw [Entry.hash, Hash.parse_marked]; rfl⟩
    | null hZero => exact ⟨none, rfl, by rw [hZero]; rfl⟩
  · rintro rfl
    rfl

theorem toHeader_eq {entry : Entry} (hVersion : entry.version = header.version)
    (hPrev : hash entry.prev = .ok header.prev) (hRoot : hash entry.merkleRoot = .ok header.merkleRoot)
    (hTime : entry.time = header.time) (hBits : Compact.parse entry.bits = .ok header.bits)
    (hNonce : entry.nonce = header.nonce) : entry.toHeader = .ok header := by
  rw [toHeader, hPrev, hRoot, hBits, hVersion, hTime, hNonce]
  rfl

/-- An object with the members for a header is read as an entry with that header. -/
theorem Members.exists_entry (h : Members header members) :
    ∃ entry, ofJson? (.object members) = some entry ∧ entry.toHeader = .ok header := by
  have hRecord : (Json.object members).record? names = some members :=
    if_pos ⟨h.distinct, h.known⟩
  have hVersion := Json.optional?_of_carries h.version (Json.int32?_integer _)
  obtain ⟨prev, hPrev, hPrevHash⟩ := exists_hashText h.prev
  obtain ⟨merkleRoot, hRoot, hRootHash⟩ := exists_hashText h.merkleRoot
  have hTime := Json.required?_of_carries h.time (Json.word?_integer _)
  obtain ⟨bits, hBits, hWord⟩ := h.bits.exists_required? fun _ => Compact.Spells.exists_text
  have hNonce := Json.optional?_of_carries h.nonce (Json.word?_integer _)
  refine ⟨⟨header.version, prev, merkleRoot, header.time, bits, header.nonce⟩, ?_,
    toHeader_eq rfl hPrevHash hRootHash rfl hWord rfl⟩
  simp only [ofJson?, hRecord, hVersion, hPrev, hRoot, hTime, hBits, hNonce, Option.bind_eq_bind,
    Option.bind_some, Option.pure_def]

def Writes (header : Header) (json : Json) : Prop :=
  ∃ members, json = .object members ∧ Members header members

/-- The entries have these headers, one by one. -/
abbrev Describe (entries : List Entry) (headers : List Header) : Prop :=
  List.Forall₂ (fun entry header => entry.toHeader = .ok header) entries headers

/-- Item by item, what is written for the headers of a list is read as entries for them. -/
theorem exists_entries {headers : List Header} {items : List Json}
    (h : List.Forall₂ Writes headers items) :
    ∃ entries, items.mapM ofJson? = some entries ∧ Describe entries headers := by
  induction h with
  | nil => exact ⟨[], rfl, .nil⟩
  | cons hFirst _ ih =>
      obtain ⟨members, rfl, hMembers⟩ := hFirst
      obtain ⟨entry, hEntry, hHeader⟩ := hMembers.exists_entry
      obtain ⟨entries, hEntries, hHeaders⟩ := ih
      refine ⟨entry :: entries, ?_, .cons hHeader hHeaders⟩
      rw [List.mapM_cons, hEntry, hEntries]
      rfl

end Entry

namespace ChainFile

/-- The members of a chain file for a segment. -/
structure Members (base : UInt32) (headers : List Header) (members : List (String × Json)) : Prop where
  distinct : (members.map Prod.fst).Nodup
  known : ∀ name ∈ members.map Prod.fst, name ∈ ["base_height", "headers"]
  base : Json.Carries members "base_height" (· = .integer base.toNat) (base = 0)
  headers : Json.Carries members "headers"
    (fun value => ∃ items, value = .array items ∧ List.Forall₂ Entry.Writes headers items) False

/-- The texts of a chain file for a segment. -/
def Writes (base : UInt32) (headers : List Header) (text : String) : Prop :=
  ∃ members, Members base headers members ∧ Json.Token.Written (Json.object members).tokens text.toList

variable {base : UInt32} {headers : List Header}

/-- The members of a chain file are read in any order, and each header gets its entry. -/
theorem Members.exists_file {members : List (String × Json)} (h : Members base headers members) :
    ∃ entries, ofJson? (.object members) = some ⟨base, entries⟩ ∧ Entry.Describe entries headers := by
  have hRecord : (Json.object members).record? ["base_height", "headers"] = some members :=
    if_pos ⟨h.distinct, h.known⟩
  have hBase := Json.optional?_of_carries h.base (Json.word?_integer _)
  have hItems : ∃ items, Json.required? members "headers" Json.items? = some items ∧
      List.Forall₂ Entry.Writes headers items := by
    apply h.headers.exists_required?
    rintro _ ⟨items, rfl, hItems⟩
    exact ⟨items, rfl, hItems⟩
  obtain ⟨items, hFound, hWritten⟩ := hItems
  obtain ⟨entries, hEntries, hHeaders⟩ := Entry.exists_entries hWritten
  refine ⟨entries, ?_, hHeaders⟩
  simp only [ofJson?, hRecord, hBase, hFound, hEntries, Option.bind_eq_bind, Option.bind_some,
    Option.pure_def]

theorem headersFrom_eq {entries : List Entry} (h : Entry.Describe entries headers) (index : Nat) :
    headersFrom index entries = .ok headers := by
  induction h generalizing index with
  | nil => rfl
  | cons hFirst _ ih =>
      rw [headersFrom, hFirst]
      simp only [ih]
      rfl

/-- With at least one header and heights that fit, only the entries could have a fault. -/
theorem toSegment_eq {entries : List Entry} (hFilled : headers ≠ [])
    (hHeights : base.toNat + (headers.length - 1) ≤ maxHeight)
    (h : Entry.Describe entries headers) :
    toSegment ⟨base, entries⟩ = .ok ⟨base, headers.toArray⟩ := by
  have hLength := h.length_eq
  have hEntries : entries ≠ [] := by
    rintro rfl
    cases h
    exact hFilled rfl
  have hFits : ¬maxHeight < base.toNat + (entries.length - 1) := by omega
  rw [toSegment, if_neg hEntries, if_neg hFits, headersFrom_eq h]
  rfl

/-- Each text written for a segment that fits the heights is read as that segment. -/
theorem parse_of_writes {text : String} (hFilled : headers ≠ []) (hCount : headers.length < 2 ^ 32)
    (hHeights : base.toNat + (headers.length - 1) ≤ maxHeight) (hText : Writes base headers text) :
    parse text = .ok ⟨base, headers.toArray⟩ ∧
      Segment.tipHeight ⟨base, headers.toArray⟩ = some (base.toNat + (headers.length - 1)) := by
  have hPositive := List.length_pos_iff.mpr hFilled
  constructor
  · obtain ⟨members, hMembers, hWritten⟩ := hText
    obtain ⟨entries, hFile, hHeaders⟩ := hMembers.exists_file
    rw [parse, Json.parse?_of_written hWritten, Option.bind_some, hFile]
    exact toSegment_eq hFilled hHeights hHeaders
  · rw [Segment.tipHeight_eq_some_iff]
    simp only [List.size_toArray]
    unfold maxHeight at *
    omega

/-- One header without the fields that are zero, and the base behind it. -/
def sparseMembers : List (String × Json) :=
  [("headers", .array [.object
      [("bits", .string "0x1D00ffff"), ("time", .integer 1523716600), ("prev", .null)]]),
    ("base_height", .integer 7)]

def sparseText : String :=
  "\x7b\"headers\": [\x7b\"bits\": \"0x1D00ffff\", \"time\": 1523716600, \"prev\":null\x7d],\n" ++
    "\"base_height\": 7\x7d"

def sparseHeader : Header :=
  { time := 1523716600, bits := 0x1d00ffff }

open Json.Token in
theorem written_sparse : Written (Json.object sparseMembers).tokens sparseText.toList := by
  have hBase := Written.blank (c := ' ') rfl (.word (.integer 7) (.mark (c := '\x7d') rfl .nil))
  have hTail := Written.mark (c := ']') rfl (.mark (c := ',') rfl (.blank (c := '\n') rfl
    (.plain "base_height" (by decide) (.mark (c := ':') rfl hBase))))
  have hPrev := Written.blank (c := ' ') rfl (.plain "prev" (by decide) (.mark (c := ':') rfl
    (.word .null (.mark (c := '\x7d') rfl hTail))))
  have hTime := Written.blank (c := ' ') rfl (.plain "time" (by decide) (.mark (c := ':') rfl
    (.blank (c := ' ') rfl (.word (.integer 1523716600) (.mark (c := ',') rfl hPrev)))))
  have hBits := Written.mark (c := '\x7b') rfl (.plain "bits" (by decide) (.mark (c := ':') rfl
    (.blank (c := ' ') rfl (.plain "0x1D00ffff" (by decide) (.mark (c := ',') rfl hTime)))))
  have hText := Written.mark (c := '\x7b') rfl (.plain "headers" (by decide) (.mark (c := ':') rfl
    (.blank (c := ' ') rfl (.mark (c := '[') rfl hBits))))
  exact hText

theorem entry_sparse : Entry.Members sparseHeader
    [("bits", .string "0x1D00ffff"), ("time", .integer 1523716600), ("prev", .null)] where
  distinct := by decide
  known := by decide
  version := ⟨by simp, .inr rfl⟩
  prev := ⟨by simpa [sparseHeader] using Hash.Spells.null rfl, .inl (by decide)⟩
  merkleRoot := ⟨by simp, .inr rfl⟩
  time := ⟨by simp [sparseHeader], .inl (by decide)⟩
  bits := by
    have hDigits : Hex.Written 8 (UInt32.toNat 0x1d00ffff) "1D00ffff".toList := by
      unfold Hex.Written
      decide
    exact ⟨by simpa [sparseHeader] using Compact.Spells.marked hDigits, .inl (by decide)⟩
  nonce := ⟨by simp, .inr rfl⟩

theorem members_sparse : Members 7 [sparseHeader] sparseMembers where
  distinct := by decide
  known := by decide
  base := ⟨by simp [sparseMembers], .inl (by decide)⟩
  headers := by
    refine ⟨fun value hMember => ?_, .inl (by decide)⟩
    simp only [sparseMembers, List.mem_cons, Prod.mk.injEq, true_and, String.reduceEq, false_and,
      List.not_mem_nil, or_false] at hMember
    exact ⟨_, hMember, .cons ⟨_, rfl, entry_sparse⟩ .nil⟩

theorem parse_of_writes_sparse :
    parse sparseText = .ok ⟨7, #[sparseHeader]⟩ ∧
      Segment.tipHeight ⟨7, #[sparseHeader]⟩ = some 7 :=
  parse_of_writes (by decide) (by decide) (by decide) ⟨sparseMembers, members_sparse, written_sparse⟩

end ChainFile

end PowRules

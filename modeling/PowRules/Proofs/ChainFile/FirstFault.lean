import Mathlib.Data.List.Forall2
import PowRules.Proofs.ChainFile

/-! What becomes of a chain file of the right shape. The number of headers comes first, then their heights, then the
entries from the first one on, and in each entry the links before the bits. The first fault in this order is the one
reported, and a file without a fault is a segment that holds the fields of each entry at its own height. -/
namespace PowRules

/-- What a hash text that may be left out stands for. -/
inductive Hash.Given : Option String → Hash → Prop where
  | absent : Given none .zero
  | read {text : String} {hash : Hash} (h : parse text = .ok hash) : Given (some text) hash

namespace Entry

/-- The header has the fields of the entry. -/
structure HasFields (entry : Entry) (header : Header) : Prop where
  version : entry.version = header.version
  prev : Hash.Given entry.prev header.prev
  merkleRoot : Hash.Given entry.merkleRoot header.merkleRoot
  time : entry.time = header.time
  bits : Compact.parse entry.bits = .ok header.bits
  nonce : entry.nonce = header.nonce

/-- Some field has a text that is read as no value. -/
def IsFaulty (entry : Entry) : Prop :=
  (∃ text error, entry.prev = some text ∧ Hash.parse text = .error error) ∨
    (∃ text error, entry.merkleRoot = some text ∧ Hash.parse text = .error error) ∨
      ∃ error, Compact.parse entry.bits = .error error

/-- The first field with such a text. Those in front of it have values. -/
inductive Fault (entry : Entry) : EntryError → Prop where
  | prev {text : String} {error : HashTextError}
      (hText : entry.prev = some text) (hBad : Hash.parse text = .error error) :
      Fault entry (.prev text error)
  | merkleRoot {prev : Hash} {text : String} {error : HashTextError}
      (hPrev : Hash.Given entry.prev prev)
      (hText : entry.merkleRoot = some text) (hBad : Hash.parse text = .error error) :
      Fault entry (.merkleRoot text error)
  | bits {prev merkleRoot : Hash} {error : BitsTextError}
      (hPrev : Hash.Given entry.prev prev) (hRoot : Hash.Given entry.merkleRoot merkleRoot)
      (hBad : Compact.parse entry.bits = .error error) : Fault entry (.bits error)

variable {entry : Entry} {header : Header} {error : EntryError}

theorem hash_of_given {text : Option String} {value : Hash} (h : Hash.Given text value) :
    hash text = .ok value := by
  cases h with
  | absent => rfl
  | read h => rw [hash, h]; rfl

theorem given_or_bad (text : Option String) :
    (∃ value, Hash.Given text value) ∨
      ∃ bad error, text = some bad ∧ Hash.parse bad = .error error := by
  cases text with
  | none => exact .inl ⟨_, .absent⟩
  | some text =>
      cases hText : Hash.parse text with
      | ok value => exact .inl ⟨value, .read hText⟩
      | error error => exact .inr ⟨text, error, rfl, hText⟩

theorem not_given_of_bad {bad : String} {hashError : HashTextError} {value : Hash}
    (hBad : Hash.parse bad = .error hashError) : ¬Hash.Given (some bad) value := by
  intro h
  cases h with
  | read hRead => cases hBad.symm.trans hRead

theorem HasFields.toHeader_eq (h : entry.HasFields header) : entry.toHeader = .ok header :=
  Entry.toHeader_eq h.version (hash_of_given h.prev) (hash_of_given h.merkleRoot) h.time h.bits h.nonce

/-- The fields are read in their order, so the error is that of the first bad one. -/
theorem Fault.toHeader_eq (h : entry.Fault error) : entry.toHeader = .error error := by
  unfold toHeader
  cases h with
  | prev hText hBad =>
      rw [hText, hash, hBad]
      rfl
  | merkleRoot hPrev hText hBad =>
      rw [hash_of_given hPrev, hText, hash, hBad]
      rfl
  | bits hPrev hRoot hBad =>
      rw [hash_of_given hPrev, hash_of_given hRoot, hBad]
      rfl

/-- The three texts are tried in the order of their fields, and the first bad one is the fault. -/
theorem exists_hasFields_or_fault (entry : Entry) :
    (∃ header, entry.HasFields header) ∨ ∃ error, entry.Fault error := by
  rcases given_or_bad entry.prev with ⟨prev, hPrev⟩ | ⟨_, _, hText, hBad⟩
  · rcases given_or_bad entry.merkleRoot with ⟨merkleRoot, hRoot⟩ | ⟨_, _, hText, hBad⟩
    · cases hBits : Compact.parse entry.bits with
      | ok bits =>
          exact .inl ⟨⟨entry.version, prev, merkleRoot, entry.time, bits, entry.nonce⟩,
            rfl, hPrev, hRoot, rfl, hBits, rfl⟩
      | error error => exact .inr ⟨_, .bits hPrev hRoot hBits⟩
    · exact .inr ⟨_, .merkleRoot hPrev hText hBad⟩
  · exact .inr ⟨_, .prev hText hBad⟩

theorem HasFields.not_isFaulty (h : entry.HasFields header) : ¬entry.IsFaulty := by
  rintro (⟨_, _, hText, hBad⟩ | ⟨_, _, hText, hBad⟩ | ⟨_, hBad⟩)
  · exact not_given_of_bad hBad (hText ▸ h.prev)
  · exact not_given_of_bad hBad (hText ▸ h.merkleRoot)
  · cases hBad.symm.trans h.bits

/-- Only the three texts can have a fault. The numbers are right by their types. -/
theorem exists_hasFields (h : ¬entry.IsFaulty) : ∃ header, entry.HasFields header := by
  refine (exists_hasFields_or_fault entry).resolve_right ?_
  rintro ⟨error, hFault⟩
  cases hFault with
  | prev hText hBad => exact h (.inl ⟨_, _, hText, hBad⟩)
  | merkleRoot _ hText hBad => exact h (.inr (.inl ⟨_, _, hText, hBad⟩))
  | bits _ _ hBad => exact h (.inr (.inr ⟨_, hBad⟩))

theorem IsFaulty.exists_fault (h : entry.IsFaulty) : ∃ error, entry.Fault error := by
  refine (exists_hasFields_or_fault entry).resolve_left ?_
  rintro ⟨header, hFields⟩
  exact hFields.not_isFaulty h

end Entry

namespace ChainFile

/-- The entry with this index is the first one with a fault, and this is its first fault. -/
structure FirstFault (entries : List Entry) (index : Nat) (error : EntryError) : Prop where
  fault : ∃ entry, entries[index]? = some entry ∧ entry.Fault error
  sound : ∀ k entry, k < index → entries[k]? = some entry → ¬entry.IsFaulty

variable {file : ChainFile} {entries : List Entry} {index : Nat} {error : EntryError}

/-- The entries are read in order, so those in front of the first fault are passed. The induction moves
the index and the start together. -/
theorem headersFrom_of_firstFault (h : FirstFault entries index error) (start : Nat) :
    headersFrom start entries = .error (.entry (start + index) error) := by
  induction entries generalizing index start with
  | nil =>
      obtain ⟨entry, hEntry, _⟩ := h.fault
      cases hEntry
  | cons first rest ih =>
      rw [headersFrom]
      cases index with
      | zero =>
          obtain ⟨entry, hEntry, hFault⟩ := h.fault
          obtain rfl : first = entry := Option.some.inj hEntry
          rw [hFault.toHeader_eq]
          rfl
      | succ index =>
          obtain ⟨header, hFields⟩ := Entry.exists_hasFields (h.sound 0 first (Nat.succ_pos _) rfl)
          have hRest : FirstFault rest index error :=
            ⟨h.fault, fun k entry hk => h.sound (k + 1) entry (Nat.succ_lt_succ hk)⟩
          rw [hFields.toHeader_eq]
          simp only [ih hRest, Except.map]
          rw [Nat.add_assoc, Nat.add_comm 1]

/-- Among faulty entries there is a first one, and in it a first fault. -/
theorem exists_firstFault (h : ∃ entry ∈ entries, entry.IsFaulty) :
    ∃ index error, FirstFault entries index error := by
  induction entries with
  | nil =>
      obtain ⟨_, hMem, _⟩ := h
      cases hMem
  | cons first rest ih =>
      by_cases hFirst : first.IsFaulty
      · obtain ⟨error, hFault⟩ := hFirst.exists_fault
        exact ⟨0, error, ⟨first, rfl, hFault⟩, fun k _ hk => absurd hk (Nat.not_lt_zero k)⟩
      · obtain ⟨entry, hMem, hFaulty⟩ := h
        have hLater : entry ∈ rest := by
          rcases List.mem_cons.mp hMem with rfl | hLater
          · exact absurd hFaulty hFirst
          · exact hLater
        obtain ⟨index, error, hFault, hSound⟩ := ih ⟨entry, hLater, hFaulty⟩
        refine ⟨index + 1, error, hFault, ?_⟩
        intro k other hk hOther
        cases k with
        | zero =>
            obtain rfl : first = other := Option.some.inj hOther
            exact hFirst
        | succ k => exact hSound k other (Nat.lt_of_succ_lt_succ hk) hOther

theorem exists_headers (h : ∀ entry ∈ entries, ¬entry.IsFaulty) :
    ∃ headers, List.Forall₂ Entry.HasFields entries headers := by
  induction entries with
  | nil => exact ⟨[], .nil⟩
  | cons first rest ih =>
      obtain ⟨header, hFields⟩ := Entry.exists_hasFields (h first List.mem_cons_self)
      obtain ⟨headers, hRest⟩ := ih fun entry hMem => h entry (List.mem_cons_of_mem _ hMem)
      exact ⟨header :: headers, .cons hFields hRest⟩

/-- The segment holds a header with the fields of each entry, at the height of the entry, and no others. -/
structure HeldBy (file : ChainFile) (segment : Segment) : Prop where
  headers : ∀ index entry, file.entries[index]? = some entry →
    ∃ header, segment.headerAt (file.base.toNat + index) = some header ∧ entry.HasFields header
  others : ∀ height, (∀ index, index < file.entries.length → height ≠ file.base.toNat + index) →
    segment.headerAt height = none

/-- The array of the headers is looked up at the heights of the entries. No height is above the last
one, so none is hidden. -/
theorem heldBy_of_hasFields {headers : List Header}
    (hHeights : file.base.toNat + (file.entries.length - 1) ≤ maxHeight)
    (h : List.Forall₂ Entry.HasFields file.entries headers) :
    file.HeldBy ⟨file.base, headers.toArray⟩ := by
  obtain ⟨hLength, hFields⟩ := List.forall₂_iff_get.mp h
  constructor
  · intro index entry hEntry
    obtain ⟨hIndex, rfl⟩ := List.getElem?_eq_some_iff.mp hEntry
    have hIndex' : index < headers.length := hLength ▸ hIndex
    refine ⟨headers[index], ?_, hFields index hIndex hIndex'⟩
    rw [Segment.headerAt_eq_getElem? (Nat.le_add_right _ _) (by dsimp only; omega)]
    simp [hIndex']
  · intro height hApart
    unfold Segment.headerAt
    split
    next hHeld =>
      have hBase : file.base.toNat ≤ height := hHeld.2
      rw [Array.getElem?_eq_none_iff, List.size_toArray, ← hLength]
      apply Nat.le_of_not_lt
      intro hIndex
      exact hApart (height - file.base.toNat) hIndex (by omega)
    next => rfl

/-- Without a fault the segment has the base of the file and as many headers as there are entries. -/
theorem exists_segment (hFilled : file.entries ≠ [])
    (hHeights : file.base.toNat + (file.entries.length - 1) ≤ maxHeight)
    (hSound : ∀ entry ∈ file.entries, ¬entry.IsFaulty) :
    ∃ segment, file.toSegment = .ok segment ∧ segment.base = file.base ∧
      segment.headers.size = file.entries.length ∧ file.HeldBy segment := by
  obtain ⟨headers, hFields⟩ := exists_headers hSound
  have hLength := hFields.length_eq
  have hSome : headers ≠ [] := by
    rintro rfl
    exact hFilled (List.eq_nil_of_length_eq_zero hLength)
  refine ⟨⟨file.base, headers.toArray⟩, ?_, rfl, hLength.symm, heldBy_of_hasFields hHeights hFields⟩
  exact toSegment_eq hSome (hLength ▸ hHeights) (hFields.imp fun _ _ => Entry.HasFields.toHeader_eq)

theorem toSegment_of_firstFault (hFilled : file.entries ≠ [])
    (hHeights : file.base.toNat + (file.entries.length - 1) ≤ maxHeight)
    (h : FirstFault file.entries index error) : file.toSegment = .error (.entry index error) := by
  rw [toSegment, if_neg hFilled, if_neg (Nat.not_lt_of_le hHeights), headersFrom_of_firstFault h,
    Nat.zero_add]
  rfl

/-- The text is refused for this reason, with these messages from the outside in. -/
def Refuses (text : String) (error : ChainFileError) (messages : List String) : Prop :=
  parse text = .error error ∧ error.messages = messages

/-- A text of the right shape is refused when there are no headers, else when they lie too high, else when an entry
has a fault, of which the first field of the first such entry is named. Otherwise it is a segment with just the
headers of the entries, and with a tip unless there are too many of them. -/
theorem parse_of_shape {text : String} (hShape : (Json.parse? text).bind ofJson? = some file) :
    (file.entries = [] → Refuses text .noHeaders ["chain file has no headers"]) ∧
    (file.entries ≠ [] → maxHeight < file.base.toNat + (file.entries.length - 1) →
      Refuses text .heightOverflow ["chain heights overflow u32"]) ∧
    (file.entries ≠ [] → file.base.toNat + (file.entries.length - 1) ≤ maxHeight →
      ((∃ entry ∈ file.entries, entry.IsFaulty) → ∃ index error, FirstFault file.entries index error ∧
        Refuses text (.entry index error) (s!"header #{index}" :: error.messages)) ∧
      ((∀ entry ∈ file.entries, ¬entry.IsFaulty) → ∃ segment, parse text = .ok segment ∧
        file.HeldBy segment ∧
        (file.entries.length < 2 ^ 32 →
          segment.tipHeight = some (file.base.toNat + (file.entries.length - 1)) ∧
          ∃ tip, segment.tip = some tip ∧
            tip.height = file.base.toNat + (file.entries.length - 1)))) := by
  have hParse : parse text = file.toSegment := by rw [parse, hShape]
  unfold Refuses
  rw [hParse]
  refine ⟨?_, ?_, ?_⟩
  · intro hEmpty
    exact ⟨by rw [toSegment, if_pos hEmpty], rfl⟩
  · intro hFilled hOver
    exact ⟨by rw [toSegment, if_neg hFilled, if_pos hOver], rfl⟩
  · intro hFilled hHeights
    constructor
    · intro hFaulty
      obtain ⟨index, error, hFirst⟩ := exists_firstFault hFaulty
      exact ⟨index, error, hFirst, toSegment_of_firstFault hFilled hHeights hFirst, rfl⟩
    · intro hSound
      obtain ⟨segment, hSegment, hBase, hSize, hHeld⟩ := exists_segment hFilled hHeights hSound
      refine ⟨segment, hSegment, hHeld, ?_⟩
      intro hCount
      have hPositive := List.length_pos_iff.mpr hFilled
      have hTip : segment.tipHeight = some (file.base.toNat + (file.entries.length - 1)) := by
        rw [Segment.tipHeight_eq_some_iff, hBase, hSize]
        unfold maxHeight at *
        omega
      exact ⟨hTip, Segment.exists_tip hTip⟩

/-- A header, one with bad bits behind this Merkle root, and one whose fault comes first in the order of the
fields. -/
def threeEntries (root : Option String) : ChainFile where
  base := 7
  entries := [⟨1, none, none, 480, "1", 0⟩, ⟨1, none, root, 960, "xyz", 0⟩, ⟨1, some "", none, 1440, "1", 0⟩]

def threeEntriesText (root : String) : String :=
  "\x7b\"base_height\": 7, \"headers\": [[1, null, null, 480, \"1\"],\n" ++
    "[1, null, " ++ root ++ ", 960, \"xyz\"], [1, \"\", null, 1440, \"1\"]]\x7d"

/-- The second entry is reported. Its bits are named only where its Merkle root has no fault. -/
theorem parse_of_shape_threeEntries :
    FirstFault (threeEntries (some "abcd")).entries 1 (.merkleRoot "abcd" (.length 2)) ∧
      Refuses (threeEntriesText "\"abcd\"") (.entry 1 (.merkleRoot "abcd" (.length 2)))
        ["header #1", "merkle_root",
          "invalid hash 'abcd': invalid hex length: expected 32 bytes, got 2 bytes"] ∧
      FirstFault (threeEntries none).entries 1 (.bits (.digits "xyz")) ∧
      Refuses (threeEntriesText "null") (.entry 1 (.bits (.digits "xyz")))
        ["header #1", "invalid compact bits 'xyz'", "invalid digit found in string"] := by
  have hBits : Compact.parse "xyz" = .error (.digits "xyz") := by rfl
  have hHeights : (7 : UInt32).toNat + (3 - 1) ≤ maxHeight := by decide
  have hReports {root : Option String} {text : String} {error : EntryError}
      (hShape : (Json.parse? text).bind ofJson? = some (threeEntries root))
      (hSegment : (threeEntries root).toSegment = .error (.entry 1 error)) :
      FirstFault (threeEntries root).entries 1 error ∧
        Refuses text (.entry 1 error) ("header #1" :: error.messages) := by
    have hFaulty : ∃ entry ∈ (threeEntries root).entries, entry.IsFaulty :=
      ⟨⟨1, none, root, 960, "xyz", 0⟩, .tail _ (.head _), .inr (.inr ⟨_, hBits⟩)⟩
    have hRead : parse text = .error (.entry 1 error) := by rw [parse, hShape, ← hSegment]
    obtain ⟨_, _, hFirst, hParse, hMessages⟩ :=
      ((parse_of_shape hShape).2.2 (List.cons_ne_nil _ _) hHeights).1 hFaulty
    obtain ⟨rfl, rfl⟩ := ChainFileError.entry.inj (Except.error.inj (hRead.symm.trans hParse))
    exact ⟨hFirst, hParse, hMessages⟩
  have hRootShape : (Json.parse? (threeEntriesText "\"abcd\"")).bind ofJson? =
      some (threeEntries (some "abcd")) := by decide +kernel
  have hBitsShape : (Json.parse? (threeEntriesText "null")).bind ofJson? =
      some (threeEntries none) := by decide +kernel
  obtain ⟨hRootFirst, hRootRefused⟩ := hReports hRootShape rfl
  obtain ⟨hBitsFirst, hBitsRefused⟩ := hReports hBitsShape rfl
  exact ⟨hRootFirst, hRootRefused, hBitsFirst, hBitsRefused⟩

end ChainFile

end PowRules

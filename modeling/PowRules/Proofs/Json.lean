import Mathlib.Data.List.Basic
import Mathlib.Data.List.Chain
import PowRules.Json
import PowRules.Proofs.Text

/-! A member of an object is found under its name wherever it stands. Some members may be left out, and then the
value for an absent one is read. -/
namespace PowRules.Json

/-- Every member of this name has one of some spellings, and only under a condition is there none. -/
structure Carries (members : List (String × Json)) (name : String) (Spells : Json → Prop)
    (MayBeAbsent : Prop) : Prop where
  spelled : ∀ value, (name, value) ∈ members → Spells value
  present : name ∈ members.map Prod.fst ∨ MayBeAbsent

namespace Carries

variable {members : List (String × Json)} {name : String} {Spells : Json → Prop} {MayBeAbsent : Prop}

theorem spells_of_lookup (h : Carries members name Spells MayBeAbsent) {value : Json}
    (hValue : members.lookup name = some value) : Spells value := by
  obtain ⟨before, after, rfl, -⟩ := List.lookup_eq_some_iff.mp hValue
  exact h.spelled value (by simp)

theorem absent_of_lookup (h : Carries members name Spells MayBeAbsent)
    (hNone : members.lookup name = none) : MayBeAbsent := by
  refine h.present.resolve_left fun hName => ?_
  obtain ⟨member, hMember, rfl⟩ := List.mem_map.mp hName
  have hOther := List.lookup_eq_none_iff.mp hNone member hMember
  simp at hOther

variable {α : Type} {read : Json → Option α} {absent : α} {Fits : α → Prop}

/-- What is read has any property that the readings of all spellings have, and the value for an
absent member. -/
theorem exists_optional? (h : Carries members name Spells MayBeAbsent)
    (hRead : ∀ value, Spells value → ∃ result, read value = some result ∧ Fits result)
    (hAbsent : MayBeAbsent → Fits absent) :
    ∃ result, optional? members name absent read = some result ∧ Fits result := by
  rw [optional?]
  cases hValue : members.lookup name with
  | none => exact ⟨absent, rfl, hAbsent (h.absent_of_lookup hValue)⟩
  | some value => exact hRead value (h.spells_of_lookup hValue)

theorem exists_required? (h : Carries members name Spells False)
    (hRead : ∀ value, Spells value → ∃ result, read value = some result ∧ Fits result) :
    ∃ result, required? members name read = some result ∧ Fits result := by
  rw [required?]
  cases hValue : members.lookup name with
  | none => exact (h.absent_of_lookup hValue).elim
  | some value => exact hRead value (h.spells_of_lookup hValue)

end Carries

section Numbers

variable {members : List (String × Json)} {name : String}

theorem word?_integer (word : UInt32) : word? (integer word.toNat) = some word := by
  have hSize := word.toNat_lt
  rw [word?, if_pos (by omega), Int.toNat_natCast, UInt32.ofNat_toNat]

theorem int32?_integer (number : Int32) : int32? (integer number.toInt) = some number := by
  have hLeast := number.le_toInt
  have hMost := number.toInt_lt
  rw [int32?, if_pos (by omega), Int32.ofInt_toInt]

variable {α : Type} {value : α} {json : Json} {read : Json → Option α}

theorem optional?_of_carries [OfNat α 0] (h : Carries members name (· = json) (value = 0))
    (hRead : read json = some value) : optional? members name 0 read = some value := by
  have hExists : ∃ result, optional? members name 0 read = some result ∧ result = value :=
    h.exists_optional? (fun _ hJson => ⟨value, hJson ▸ hRead, rfl⟩) Eq.symm
  obtain ⟨_, hFound, rfl⟩ := hExists
  exact hFound

theorem required?_of_carries (h : Carries members name (· = json) False)
    (hRead : read json = some value) : required? members name read = some value := by
  have hExists : ∃ result, required? members name read = some result ∧ result = value :=
    h.exists_required? fun _ hJson => ⟨value, hJson ▸ hRead, rfl⟩
  obtain ⟨_, hFound, rfl⟩ := hExists
  exact hFound

end Numbers

end PowRules.Json

/-! The texts of a list of tokens: white space may stand in front of each token and at the end, a character of a
string may be escaped, and whole numbers are written in decimal. Scanning such a text gives the tokens back
where no two values without parts follow each other. -/
namespace PowRules.Json.Token

section Strings

/-- The ways to write a character of a string. One above the first `2 ^ 16` is escaped as two halves. -/
inductive WrittenChar : Char → List Char → Prop where
  | plain {char : Char} (hPlain : isPlain char = true) : WrittenChar char [char]
  | letter {char letter : Char} (hLetter : escaped? letter = some char) :
      WrittenChar char ['\\', letter]
  | unit {char a b c d : Char} (hSmall : char.toNat < 0x10000)
      (hUnit : Hex.Written 4 char.toNat [a, b, c, d]) :
      WrittenChar char ['\\', 'u', a, b, c, d]
  | pair {char a b c d e f g h : Char} (hLarge : 0x10000 ≤ char.toNat)
      (hHigh : Hex.Written 4 (0xd800 + (char.toNat - 0x10000) / 0x400) [a, b, c, d])
      (hLow : Hex.Written 4 (0xdc00 + (char.toNat - 0x10000) % 0x400) [e, f, g, h]) :
      WrittenChar char ['\\', 'u', a, b, c, d, '\\', 'u', e, f, g, h]

/-- The characters of a string, each written in one of its ways. -/
inductive WrittenString : List Char → List Char → Prop where
  | nil : WrittenString [] []
  | cons {char : Char} {form chars written : List Char} (hChar : WrittenChar char form)
      (h : WrittenString chars written) : WrittenString (char :: chars) (form ++ written)

variable {rest chars behind : List Char}

theorem readString_cons_plain {char : Char} (hPlain : isPlain char = true)
    (h : readString rest = some (chars, behind)) :
    readString (char :: rest) = some (char :: chars, behind) := by
  simp only [isPlain, Bool.and_eq_true, decide_eq_true_eq, bne_iff_ne, ne_eq] at hPlain
  rw [readString.eq_def]
  split <;> simp_all

theorem readString_cons_letter {char letter : Char} (hLetter : escaped? letter = some char)
    (h : readString rest = some (chars, behind)) :
    readString ('\\' :: letter :: rest) = some (char :: chars, behind) := by
  have hUnit : letter ≠ 'u' := by
    rintro rfl
    cases hLetter
  rw [readString.eq_def]
  split <;> grind

theorem exists_unit? {a b c d : Char}
    (h : readString ('\\' :: 'u' :: a :: b :: c :: d :: rest) = some (chars, behind)) :
    ∃ unit, unit? a b c d = some unit := by
  rw [readString.eq_def] at h
  split at h <;> grind

theorem not_isHalf_toNat (char : Char) :
    isHigh char.toNat = false ∧ isLow char.toNat = false := by
  have hValid : char.toNat < 0xd800 ∨ 0xdfff < char.toNat ∧ char.toNat < 0x110000 := char.valid
  simp only [isHigh, isLow, Bool.and_eq_false_iff, decide_eq_false_iff_not]
  omega

theorem readString_cons_unit {char a b c d : Char} (hSmall : char.toNat < 0x10000)
    (hUnit : Hex.Written 4 char.toNat [a, b, c, d]) (h : readString rest = some (chars, behind)) :
    readString ('\\' :: 'u' :: a :: b :: c :: d :: rest) = some (char :: chars, behind) := by
  have hNumber : unit? a b c d = some char.toNat := hUnit.number? hSmall
  obtain ⟨hHigh, hLow⟩ := not_isHalf_toNat char
  rw [readString.eq_def]
  split
  -- Another escape of this kind may follow. It is read for itself, since this one is no first half.
  case h_3 hText =>
    cases hText
    obtain ⟨next, hNext⟩ := exists_unit? h
    simp [hNumber, hNext, hHigh, hLow, h]
  case h_4 hText =>
    cases hText
    simp [hNumber, hHigh, hLow, h]
  all_goals grind

/-- A character above the first `2 ^ 16` is put together from its two halves. -/
theorem readString_cons_pair {char a b c d e f g k : Char} (hLarge : 0x10000 ≤ char.toNat)
    (hFirst : Hex.Written 4 (0xd800 + (char.toNat - 0x10000) / 0x400) [a, b, c, d])
    (hSecond : Hex.Written 4 (0xdc00 + (char.toNat - 0x10000) % 0x400) [e, f, g, k])
    (h : readString rest = some (chars, behind)) :
    readString ('\\' :: 'u' :: a :: b :: c :: d :: '\\' :: 'u' :: e :: f :: g :: k :: rest) =
      some (char :: chars, behind) := by
  have hValid : char.toNat < 0xd800 ∨ 0xdfff < char.toNat ∧ char.toNat < 0x110000 := char.valid
  have hHigh : isHigh (0xd800 + (char.toNat - 0x10000) / 0x400) = true := by
    simp only [isHigh, Bool.and_eq_true, decide_eq_true_eq]
    omega
  have hLow : isLow (0xdc00 + (char.toNat - 0x10000) % 0x400) = true := by
    simp only [isLow, Bool.and_eq_true, decide_eq_true_eq]
    omega
  have hPair : pair (0xd800 + (char.toNat - 0x10000) / 0x400)
      (0xdc00 + (char.toNat - 0x10000) % 0x400) = char := by
    rw [pair, show 0x10000 + (0xd800 + (char.toNat - 0x10000) / 0x400 - 0xd800) * 0x400 +
      (0xdc00 + (char.toNat - 0x10000) % 0x400 - 0xdc00) = char.toNat by omega, Char.ofNat_toNat]
  have hFirstUnit : unit? a b c d = some (0xd800 + (char.toNat - 0x10000) / 0x400) :=
    hFirst.number? (by omega)
  have hSecondUnit : unit? e f g k = some (0xdc00 + (char.toNat - 0x10000) % 0x400) :=
    hSecond.number? (by omega)
  rw [readString, hFirstUnit, hSecondUnit]
  simp only [hHigh, hLow, hPair, h, if_true, Option.map_some]

/-- Whatever way a character is written in, it is read as itself. -/
theorem readString_append {char : Char} {form : List Char} (hChar : WrittenChar char form)
    (h : readString rest = some (chars, behind)) :
    readString (form ++ rest) = some (char :: chars, behind) := by
  cases hChar with
  | plain hPlain => exact readString_cons_plain hPlain h
  | letter hLetter => exact readString_cons_letter hLetter h
  | unit hSmall hUnit => exact readString_cons_unit hSmall hUnit h
  | pair hLarge hHigh hLow => exact readString_cons_pair hLarge hHigh hLow h

theorem WrittenString.of_plain (hPlain : ∀ c ∈ chars, isPlain c = true) :
    WrittenString chars chars := by
  induction chars with
  | nil => exact .nil
  | cons c rest ih =>
      have hRest := ih fun d hd => hPlain d (List.mem_cons_of_mem c hd)
      exact .cons (.plain (hPlain c List.mem_cons_self)) hRest

/-- So a written string is read up to its closing mark. -/
theorem readString_of_written {written : List Char} (h : WrittenString chars written) :
    readString (written ++ '"' :: rest) = some (chars, rest) := by
  induction h with
  | nil => rw [List.nil_append, readString]
  | cons hChar _ ih =>
      rw [List.append_assoc]
      exact readString_append hChar ih

end Strings

section Words

/-- The ways to write `null` and a whole number. -/
inductive WrittenWord : Json → List Char → Prop where
  | null : WrittenWord null ['n', 'u', 'l', 'l']
  | integer (n : Int) : WrittenWord (integer n) (toString n).toList

theorem isWhole_toDigits (n : Nat) : isWhole (Nat.toDigits 10 n) = true := by
  have hDigits : (Nat.toDigits 10 n).all Decimal.isDigit = true :=
    List.all_eq_true.mpr fun _ => Decimal.isDigit_of_mem_toDigits
  simp only [isWhole, hDigits, bne_iff_ne, ne_eq, Nat.toDigits_ne_nil, not_false_eq_true,
    Bool.and_eq_true, Bool.or_eq_true, true_and]
  by_cases hZero : n = 0
  · subst hZero
    exact .inr rfl
  · exact .inl (Decimal.head?_toDigits hZero)

theorem unsigned?_toDigits (n : Nat) : unsigned? (Nat.toDigits 10 n) = some (integer n) := by
  rw [unsigned?, if_pos (isWhole_toDigits n), Decimal.number?_toDigits]
  rfl

/-- A negative number is written as its magnitude behind a minus sign. -/
theorem toList_toString (n : Int) :
    (toString n).toList =
      if 0 ≤ n then Nat.toDigits 10 n.toNat else '-' :: Nat.toDigits 10 (-n).toNat := by
  rw [Int.toString_eq_repr, Int.repr_eq_if]
  split
  · rw [Nat.toList_repr]
  · rw [String.toList_append, Nat.toList_repr]
    rfl

theorem number?_toDigits (n : Nat) : number? (Nat.toDigits 10 n) = some (integer n) := by
  have hMinus : '-' ∉ Nat.toDigits 10 n := by
    intro hMem
    cases Decimal.isDigit_of_mem_toDigits hMem
  rw [number?.eq_def]
  split
  next digits hText =>
    rw [hText] at hMinus
    simp at hMinus
  next => exact unsigned?_toDigits n

theorem number?_minus_toDigits {n : Nat} (hZero : n ≠ 0) :
    number? ('-' :: Nat.toDigits 10 n) = some (integer (-n)) := by
  rw [number?, unsigned?_toDigits]
  simp [hZero]

/-- A whole number is read from its own text. Zero comes without a sign, since minus zero is no whole
number here. -/
theorem number?_toString (n : Int) : number? (toString n).toList = some (integer n) := by
  rw [toList_toString]
  split
  next hSign => rw [number?_toDigits, Int.toNat_of_nonneg hSign]
  next hSign =>
    rw [number?_minus_toDigits (by omega)]
    congr 2
    omega

theorem mem_toString {n : Int} {c : Char} (h : c ∈ (toString n).toList) :
    c = '-' ∨ Decimal.isDigit c = true := by
  rw [toList_toString] at h
  split at h
  · exact .inr (Decimal.isDigit_of_mem_toDigits h)
  · rw [List.mem_cons] at h
    exact h.imp_right Decimal.isDigit_of_mem_toDigits

theorem inWord_of_isDigit {c : Char} (h : Decimal.isDigit c = true) : inWord c = true := by
  have hDigits : ∀ k : Fin 10, inWord (Char.ofNat (48 + k.val)) = true := by decide
  simp only [Decimal.isDigit, Bool.and_eq_true, decide_eq_true_eq] at h
  have hDigit := hDigits ⟨c.toNat - 48, by omega⟩
  rwa [Nat.add_sub_cancel' h.1, Char.ofNat_toNat] at hDigit

variable {value : Json} {word : List Char}

theorem WrittenWord.inWord (h : WrittenWord value word) {c : Char} (hMem : c ∈ word) :
    inWord c = true := by
  cases h with
  | null =>
      have hLetters : ['n', 'u', 'l', 'l'].all Token.inWord = true := by decide
      exact List.all_eq_true.mp hLetters c hMem
  | integer n =>
      rcases mem_toString hMem with rfl | hDigit
      · decide
      · exact inWord_of_isDigit hDigit

theorem WrittenWord.word? (h : WrittenWord value word) : word? word = some value := by
  cases h with
  | null => rfl
  | integer n =>
      have hName {c : Char} {rest : List Char} (hLetter : ¬(c = '-' ∨ Decimal.isDigit c = true)) :
          (toString n).toList ≠ c :: rest := by
        intro hText
        exact hLetter (mem_toString (hText ▸ List.mem_cons_self))
      rw [Token.word?, if_neg (hName (by decide)), if_neg (hName (by decide)),
        if_neg (hName (by decide))]
      exact number?_toString n

theorem WrittenWord.ne_nil (h : WrittenWord value word) : word ≠ [] := by
  cases h with
  | null => exact List.cons_ne_nil _ _
  | integer n =>
      rw [toList_toString]
      split
      · exact Nat.toDigits_ne_nil
      · exact List.cons_ne_nil _ _

end Words

section Texts

/-- The texts of a list of tokens. -/
inductive Written : List Token → List Char → Prop where
  | nil : Written [] []
  | blank {c : Char} {tokens : List Token} {text : List Char} (hBlank : isBlank c = true)
      (h : Written tokens text) : Written tokens (c :: text)
  | mark {c : Char} {token : Token} {tokens : List Token} {text : List Char}
      (hMark : mark? c = some token) (h : Written tokens text) :
      Written (token :: tokens) (c :: text)
  | string {tokens : List Token} {chars written text : List Char}
      (hString : WrittenString chars written) (h : Written tokens text) :
      Written (scalar (string (String.ofList chars)) :: tokens) ('"' :: (written ++ '"' :: text))
  | word {value : Json} {tokens : List Token} {word text : List Char} (hWord : WrittenWord value word)
      (h : Written tokens text) : Written (scalar value :: tokens) (word ++ text)

def IsScalar (token : Token) : Prop :=
  ∃ value, token = scalar value

/-- No value without parts follows another one. -/
def Apart (tokens : List Token) : Prop :=
  tokens.IsChain fun first second => ¬(first.IsScalar ∧ second.IsScalar)

variable {tokens : List Token} {text : List Char}

theorem Written.plain (value : String) (hPlain : value.toList.all isPlain = true)
    (h : Written tokens text) :
    Written (scalar (.string value) :: tokens) ('"' :: (value.toList ++ '"' :: text)) := by
  have hString := Written.string (WrittenString.of_plain (List.all_eq_true.mp hPlain)) h
  rwa [String.ofList_toList] at hString

/-- A text whose first token is no scalar cannot prolong a word in front of it. -/
theorem Written.head?_inWord (h : Written tokens text)
    (hFirst : ∀ token ∈ tokens.head?, ¬token.IsScalar) : ∀ c ∈ text.head?, inWord c = false := by
  cases h with
  | nil => simp
  | blank hBlank h => simp [inWord, hBlank]
  | mark hMark h => simp [inWord, hMark]
  | string hString h => simp [inWord]
  | word hWord h => exact absurd ⟨_, rfl⟩ (hFirst _ rfl)

theorem not_isBlank_of_mark? {c : Char} {token : Token} (h : mark? c = some token) :
    isBlank c = false := by
  grind [mark?, isBlank]

theorem span_word {word : List Char} (hWord : ∀ c ∈ word, inWord c = true)
    (hText : ∀ c ∈ text.head?, inWord c = false) :
    (word ++ text).takeWhile inWord = word ∧ (word ++ text).dropWhile inWord = text := by
  have hStop : text.takeWhile inWord = [] ∧ text.dropWhile inWord = text := by
    cases text with
    | nil => exact ⟨rfl, rfl⟩
    | cons c rest =>
        have hHead := hText c rfl
        simp [hHead]
  rw [List.takeWhile_append_of_pos hWord, List.dropWhile_append_of_pos hWord, hStop.1, hStop.2,
    List.append_nil]
  exact ⟨rfl, rfl⟩

/-- A word in front of a text that does not prolong it is the first token. -/
theorem scan_append {value : Json} {word : List Char} (hWord : WrittenWord value word)
    (hText : ∀ c ∈ text.head?, inWord c = false) :
    scan (word ++ text) = (scan text).map (scalar value :: ·) := by
  obtain ⟨c, rest, rfl⟩ := List.exists_cons_of_ne_nil hWord.ne_nil
  have hRest : ∀ d ∈ rest, inWord d = true := fun d hMem => hWord.inWord (List.mem_cons_of_mem c hMem)
  obtain ⟨hTaken, hDropped⟩ := span_word hRest hText
  rw [List.cons_append, scan_word (hWord.inWord List.mem_cons_self), hDropped]
  rw [hTaken, hWord.word?]

/-- Scanning a text of tokens gives the tokens. -/
theorem scan_of_written (h : Written tokens text) (hApart : Apart tokens) : scan text = some tokens := by
  induction h with
  | nil => exact scan_nil
  | blank hBlank _ ih => rw [scan_blank hBlank, ih hApart]
  | mark hMark _ ih =>
      rw [scan_mark (not_isBlank_of_mark? hMark) hMark, ih hApart.tail]
      rfl
  | string hString _ ih =>
      rw [scan_string (readString_of_written hString), ih hApart.tail]
      rfl
  | word hWord h ih =>
      obtain ⟨hNext, hRest⟩ := List.isChain_cons.mp hApart
      have hStop := h.head?_inWord fun token hToken hScalar => hNext token hToken ⟨⟨_, rfl⟩, hScalar⟩
      rw [scan_append hWord hStop, ih hRest]
      rfl

end Texts

end PowRules.Json.Token

/-! A value is read back from its tokens, and so from every text of them. -/
namespace PowRules.Json

open Token (scalar openArray closeArray openObject closeObject colon comma)

mutual

def tokens : Json → List Token
  | array [] => [openArray, closeArray]
  | array (first :: later) => openArray :: (first.tokens ++ laterItems later)
  | object [] => [openObject, closeObject]
  | object (first :: later) => openObject :: (memberTokens first ++ laterMembers later)
  | value => [scalar value]
termination_by structural value => value

/-- The tokens of an array behind one of its items. -/
def laterItems : List Json → List Token
  | [] => [closeArray]
  | next :: later => comma :: (next.tokens ++ laterItems later)

def memberTokens : String × Json → List Token
  | (key, value) => scalar (string key) :: colon :: value.tokens

/-- The tokens of an object behind one of its members. -/
def laterMembers : List (String × Json) → List Token
  | [] => [closeObject]
  | next :: later => comma :: (memberTokens next ++ laterMembers later)

end

namespace Progress

section Steps

variable {frames : List Frame} {tail : List Token}

/-- An item may follow an opening bracket as it may follow a comma. -/
theorem read_arrayOpened (value : Json) :
    (value.tokens ++ tail).foldlM step (arrayOpened frames) =
      (value.tokens ++ tail).foldlM step (expectValue (.array [] :: frames)) := by
  cases value with
  | array items => cases items <;> rfl
  | object members => cases members <;> rfl
  | _ => rfl

/-- A member may follow an opening brace as it may follow a comma. -/
theorem read_objectOpened (first : String × Json) :
    (memberTokens first ++ tail).foldlM step (objectOpened frames) =
      (memberTokens first ++ tail).foldlM step (expectKey [] frames) := by
  obtain ⟨key, value⟩ := first
  rfl

end Steps

mutual

/-- The tokens of a value hand it to the innermost container. -/
theorem read_tokens (value : Json) (frames : List Frame) (tail : List Token) :
    (value.tokens ++ tail).foldlM step (expectValue frames) = tail.foldlM step (put value frames) := by
  match value with
  | .null | .bool _ | .integer _ | .decimal _ | .string _ => rfl
  | .array [] => rfl
  | .array (first :: later) =>
      calc ((array (first :: later)).tokens ++ tail).foldlM step (expectValue frames)
          = (first.tokens ++ (laterItems later ++ tail)).foldlM step (arrayOpened frames) := by
            rw [tokens, List.cons_append, List.append_assoc]
            rfl
        _ = (laterItems later ++ tail).foldlM step (item [first] frames) := by
            rw [read_arrayOpened, read_tokens]
            rfl
        _ = tail.foldlM step (put (array (first :: later)) frames) :=
            read_laterItems later [first] frames tail
  | .object [] => rfl
  | .object (first :: later) =>
      calc ((object (first :: later)).tokens ++ tail).foldlM step (expectValue frames)
          = (memberTokens first ++ (laterMembers later ++ tail)).foldlM step (objectOpened frames) := by
            rw [tokens, List.cons_append, List.append_assoc]
            rfl
        _ = (laterMembers later ++ tail).foldlM step (member [first] frames) := by
            rw [read_objectOpened, read_memberTokens]
        _ = tail.foldlM step (put (object (first :: later)) frames) :=
            read_laterMembers later [first] frames tail

/-- Reading the rest of an array closes it with its items in order. The items read so far are kept in
reverse. -/
theorem read_laterItems (later before : List Json) (frames : List Frame) (tail : List Token) :
    (laterItems later ++ tail).foldlM step (item before frames) =
      tail.foldlM step (put (array (before.reverse ++ later)) frames) := by
  match later with
  | [] =>
      rw [List.append_nil]
      rfl
  | next :: later =>
      calc (laterItems (next :: later) ++ tail).foldlM step (item before frames)
          = (next.tokens ++ (laterItems later ++ tail)).foldlM step
              (expectValue (.array before :: frames)) := by
            rw [laterItems, List.cons_append, List.append_assoc]
            rfl
        _ = (laterItems later ++ tail).foldlM step (item (next :: before) frames) := read_tokens next _ _
        _ = tail.foldlM step (put (array (before.reverse ++ next :: later)) frames) := by
            rw [read_laterItems later, List.reverse_cons, List.append_assoc]
            rfl

theorem read_memberTokens (next : String × Json) (before : List (String × Json)) (frames : List Frame)
    (tail : List Token) :
    (memberTokens next ++ tail).foldlM step (expectKey before frames) =
      tail.foldlM step (member (next :: before) frames) := by
  match next with
  | (key, value) => exact read_tokens value (.object before key :: frames) tail

/-- Reading the rest of an object closes it with its members in order. -/
theorem read_laterMembers (later before : List (String × Json)) (frames : List Frame)
    (tail : List Token) :
    (laterMembers later ++ tail).foldlM step (member before frames) =
      tail.foldlM step (put (object (before.reverse ++ later)) frames) := by
  match later with
  | [] =>
      rw [List.append_nil]
      rfl
  | next :: later =>
      calc (laterMembers (next :: later) ++ tail).foldlM step (member before frames)
          = (memberTokens next ++ (laterMembers later ++ tail)).foldlM step (expectKey before frames) := by
            rw [laterMembers, List.cons_append, List.append_assoc]
            rfl
        _ = (laterMembers later ++ tail).foldlM step (member (next :: before) frames) :=
            read_memberTokens next _ _ _
        _ = tail.foldlM step (put (object (before.reverse ++ next :: later)) frames) := by
            rw [read_laterMembers later, List.reverse_cons, List.append_assoc]
            rfl

end

theorem step_put (value : Json) (frames : List Frame) (second : Json) :
    step (put value frames) (scalar second) = none := by
  match frames with
  | [] | .array _ :: _ | .object _ _ :: _ => rfl

/-- Behind a value without parts no other one may follow. -/
theorem step_scalar_stuck {progress next : Progress} {first : Json}
    (h : step progress (scalar first) = some next) (second : Json) :
    step next (scalar second) = none := by
  cases progress with
  | expectValue frames =>
      cases h
      exact step_put first frames second
  | arrayOpened frames =>
      cases h
      rfl
  | objectOpened frames | expectKey members frames =>
      cases first <;> cases h
      rfl
  | item | member | expectColon | done => cases h

/-- A list of tokens that the machine takes has no two scalars next to each other, since after a value
it waits for something else. -/
theorem apart_of_read {tokens : List Token} {progress last : Progress}
    (h : tokens.foldlM step progress = some last) : Token.Apart tokens := by
  induction tokens generalizing progress with
  | nil => exact .nil
  | cons first later ih =>
      rw [List.foldlM_cons] at h
      obtain ⟨next, hFirst, hLater⟩ := Option.bind_eq_some_iff.mp h
      refine List.isChain_cons.mpr ⟨?_, ih hLater⟩
      rintro second hSecond ⟨⟨value, rfl⟩, ⟨follower, rfl⟩⟩
      obtain ⟨rest, rfl⟩ := List.head?_eq_some_iff.mp hSecond
      rw [List.foldlM_cons, step_scalar_stuck hFirst] at hLater
      cases hLater

end Progress

theorem ofTokens?_tokens (value : Json) : ofTokens? value.tokens = some value := by
  have hRead := Progress.read_tokens value [] []
  rw [List.append_nil] at hRead
  rw [ofTokens?, hRead]
  rfl

/-- So the tokens of a value stand apart, and words among them can be told from each other. -/
theorem apart_tokens (value : Json) : Token.Apart value.tokens := by
  have hRead := Progress.read_tokens value [] []
  rw [List.append_nil] at hRead
  exact Progress.apart_of_read hRead

/-- Every text of a value is read as that value. -/
theorem parse?_of_written {value : Json} {text : String}
    (h : Token.Written value.tokens text.toList) : parse? text = some value := by
  rw [parse?, Token.scan_of_written h (apart_tokens value)]
  exact ofTokens?_tokens value

end PowRules.Json

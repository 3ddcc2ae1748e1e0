import PowRules.Proofs.Bytes
import PowRules.Proofs.Rules

/-! A header and its wire form determine each other: the six fields have their places in 80 bytes and leave none
of them out, and no other number of bytes is read. So the work of two headers is never judged by the digest of
the same bytes. -/
namespace PowRules.Header

/-- The number in the four bytes from `start` on, the first of them counting least. -/
def numberAt (start : Nat) (bytes : List UInt8) : Nat :=
  Nat.ofDigits 256 (((bytes.drop start).take 4).map UInt8.toNat)

/-- The 80 bytes of a header, field by field. A negative version is counted from `2 ^ 32` down. -/
structure LaidOut (header : Header) (bytes : List UInt8) : Prop where
  length : bytes.length = 80
  version : (numberAt 0 bytes : Int) = header.version.toInt % 0x100000000
  prev : (bytes.drop 4).take 32 = header.prev.bytes
  merkleRoot : (bytes.drop 36).take 32 = header.merkleRoot.bytes
  time : numberAt 68 bytes = header.time.toNat
  bits : numberAt 72 bytes = header.bits.toNat
  nonce : numberAt 76 bytes = header.nonce.toNat

variable {header : Header} {bytes : List UInt8} {start : Nat}

section Words

theorem numberAt_eq : numberAt start bytes = LittleEndian.value ((bytes.drop start).take 4) :=
  (LittleEndian.value_eq_ofDigits _).symm

theorem toNat_wordAt (start : Nat) (bytes : List UInt8) :
    (wordAt start bytes).toNat = numberAt start bytes := by
  have hValue := LittleEndian.value_lt ((bytes.drop start).take 4)
  have hWidth : 256 ^ ((bytes.drop start).take 4).length ≤ 256 ^ 4 :=
    Nat.pow_le_pow_right (by decide) (List.length_take_le _ _)
  rw [wordAt, UInt32.toNat_ofNat', numberAt_eq]
  omega

/-- A number written again in four bytes is the slice that it came from. -/
theorem encode_numberAt (h : start + 4 ≤ bytes.length) :
    LittleEndian.encode 4 (numberAt start bytes) = (bytes.drop start).take 4 := by
  have hWidth : ((bytes.drop start).take 4).length = 4 := by
    rw [List.length_take, List.length_drop]
    omega
  have hEncode := LittleEndian.encode_value ((bytes.drop start).take 4)
  rwa [hWidth, ← numberAt_eq] at hEncode

/-- Two's complement. -/
theorem toNat_toUInt32 (version : Int32) :
    (version.toUInt32.toNat : Int) = version.toInt % 0x100000000 := by
  have hWord := version.toUInt32.toNat_lt
  have hSigned : version.toInt =
      if 2 * version.toUInt32.toNat < 0x100000000 then (version.toUInt32.toNat : Int)
      else (version.toUInt32.toNat : Int) - 0x100000000 := BitVec.toInt_eq_toNat_cond _
  rw [hSigned]
  split
  · omega
  · omega

end Words

section Slices

/-- The slices of six strings put together are these strings. -/
theorem slices_append {version prev root time bits nonce : List UInt8} (hVersion : version.length = 4)
    (hPrev : prev.length = 32) (hRoot : root.length = 32) (hTime : time.length = 4)
    (hBits : bits.length = 4) (hNonce : nonce.length = 4)
    (h : bytes = version ++ prev ++ root ++ time ++ bits ++ nonce) :
    (bytes.drop 0).take 4 = version ∧ (bytes.drop 4).take 32 = prev ∧
      (bytes.drop 36).take 32 = root ∧ (bytes.drop 68).take 4 = time ∧
        (bytes.drop 72).take 4 = bits ∧ (bytes.drop 76).take 4 = nonce := by
  simp [h, List.drop_append, hVersion, hPrev, hRoot, hTime, hBits, hNonce, List.take_of_length_le,
    List.drop_eq_nil_of_le]

theorem drop_eq_append (start width : Nat) (bytes : List UInt8) :
    bytes.drop start = (bytes.drop start).take width ++ bytes.drop (start + width) := by
  rw [← List.drop_drop, List.take_append_drop]

/-- The slices follow each other without a gap. -/
theorem append_slices (h : bytes.length = 80) :
    (bytes.drop 0).take 4 ++ (bytes.drop 4).take 32 ++ (bytes.drop 36).take 32 ++
      (bytes.drop 68).take 4 ++ (bytes.drop 72).take 4 ++ (bytes.drop 76).take 4 = bytes := by
  have hLast : (bytes.drop 76).take 4 = bytes.drop 76 := by
    apply List.take_of_length_le
    rw [List.length_drop, h]
  rw [hLast]
  simp only [List.append_assoc]
  rw [← drop_eq_append 72 4, ← drop_eq_append 68 4, ← drop_eq_append 36 32, ← drop_eq_append 4 32,
    ← drop_eq_append 0 4, List.drop_zero]

end Slices

theorem numberAt_of_slice {word : UInt32}
    (h : (bytes.drop start).take 4 = LittleEndian.encode 4 word.toNat) :
    numberAt start bytes = word.toNat := by
  rw [numberAt_eq, h, LittleEndian.value_encode word.toNat_lt]

/-- The encoding puts each field in its place. -/
theorem laidOut_encode (header : Header) : header.LaidOut header.encode := by
  have hFields : header.encode = LittleEndian.encode 4 header.version.toUInt32.toNat ++
      header.prev.bytes ++ header.merkleRoot.bytes ++ LittleEndian.encode 4 header.time.toNat ++
      LittleEndian.encode 4 header.bits.toNat ++ LittleEndian.encode 4 header.nonce.toNat := rfl
  obtain ⟨hVersion, hPrev, hRoot, hTime, hBits, hNonce⟩ :=
    slices_append (LittleEndian.encode_length 4 _) header.prev.bytes_length
      header.merkleRoot.bytes_length (LittleEndian.encode_length 4 _)
      (LittleEndian.encode_length 4 _) (LittleEndian.encode_length 4 _) hFields
  exact
    { length := header.encode_length
      version := by rw [numberAt_of_slice hVersion, toNat_toUInt32]
      prev := hPrev
      merkleRoot := hRoot
      time := numberAt_of_slice hTime
      bits := numberAt_of_slice hBits
      nonce := numberAt_of_slice hNonce }

namespace LaidOut

theorem version_eq (h : header.LaidOut bytes) :
    numberAt 0 bytes = header.version.toUInt32.toNat := by
  have hVersion := h.version
  rw [← toNat_toUInt32] at hVersion
  exact_mod_cast hVersion

/-- There is only one string of bytes with the fields of a header in their places. -/
theorem encode_eq (h : header.LaidOut bytes) : header.encode = bytes := by
  have hLength := h.length
  rw [encode, ← h.version_eq, ← h.prev, ← h.merkleRoot, ← h.time, ← h.bits, ← h.nonce]
  rw [encode_numberAt (by omega), encode_numberAt (by omega), encode_numberAt (by omega),
    encode_numberAt (by omega)]
  exact append_slices hLength

/-- The places determine all six fields, so two headers with the same bytes are equal. -/
theorem unique {other : Header} (h : header.LaidOut bytes) (hOther : other.LaidOut bytes) :
    header = other := by
  have hVersion : header.version = other.version := by
    have hWord := UInt32.toNat_inj.mp (h.version_eq.symm.trans hOther.version_eq)
    rw [← Int32.toInt32_toUInt32 header.version, hWord, Int32.toInt32_toUInt32]
  have hPrev := h.prev.symm.trans hOther.prev
  have hRoot := h.merkleRoot.symm.trans hOther.merkleRoot
  have hTime := UInt32.toNat_inj.mp (h.time.symm.trans hOther.time)
  have hBits := UInt32.toNat_inj.mp (h.bits.symm.trans hOther.bits)
  have hNonce := UInt32.toNat_inj.mp (h.nonce.symm.trans hOther.nonce)
  obtain ⟨version, ⟨prev, _⟩, ⟨root, _⟩, time, bits, nonce⟩ := header
  obtain ⟨version', ⟨prev', _⟩, ⟨root', _⟩, time', bits', nonce'⟩ := other
  dsimp only at hVersion hPrev hRoot hTime hBits hNonce
  subst hVersion hPrev hRoot hTime hBits hNonce
  rfl

end LaidOut

section Decode

/-- Any 80 bytes are a header, since each field takes all values that its bytes can have. -/
theorem exists_decode (h : bytes.length = 80) :
    ∃ header, decode bytes = .ok header ∧ header.LaidOut bytes := by
  have hShort : ¬bytes.length < wireLength := by
    rw [h]
    decide
  have hLong : ¬wireLength < bytes.length := by
    rw [h]
    decide
  unfold decode
  rw [dif_neg hShort, dif_neg hLong]
  refine ⟨_, rfl, ?_⟩
  exact
    { length := h
      version := by rw [← toNat_wordAt, ← toNat_toUInt32, UInt32.toUInt32_toInt32]
      prev := rfl
      merkleRoot := rfl
      time := (toNat_wordAt 68 bytes).symm
      bits := (toNat_wordAt 72 bytes).symm
      nonce := (toNat_wordAt 76 bytes).symm }

theorem decode_of_short (h : bytes.length < 80) : decode bytes = .error .tooShort :=
  dif_pos h

theorem decode_of_long (h : 80 < bytes.length) : decode bytes = .error .tooLong := by
  have hShort : ¬bytes.length < wireLength := Nat.not_lt_of_gt h
  rw [decode, dif_neg hShort]
  exact dif_pos h

/-- Decoding finds the only header that is laid out like this. -/
theorem LaidOut.decode_eq (h : header.LaidOut bytes) : decode bytes = .ok header := by
  obtain ⟨other, hDecode, hOther⟩ := exists_decode h.length
  rw [hDecode, h.unique hOther]

/-- Different headers never have the same encoding. -/
theorem encode_injective {first second : Header} (h : first.encode = second.encode) :
    first = second := by
  have hSecond := laidOut_encode second
  rw [← h] at hSecond
  exact (laidOut_encode first).unique hSecond

end Decode

/-- The calls that two headers lead to are on the same bytes only where the headers are the same. -/
theorem eq_of_digested {params params' : Params} {hasher hasher' : Hasher} {first second : Header}
    {call call' : DigestCall} (hFirst : call ∈ (Rules.proofOfWork params first hasher).digests)
    (hSecond : call' ∈ (Rules.proofOfWork params' second hasher').digests)
    (h : call.data = call'.data) : first = second := by
  rw [Rules.digests_proofOfWork] at hFirst hSecond
  split at hFirst
  · cases hFirst
  · split at hSecond
    · cases hSecond
    · rw [List.mem_singleton.mp hFirst, List.mem_singleton.mp hSecond] at h
      exact encode_injective h

/-- Encoding and decoding are inverse to each other between all headers and all strings of 80 bytes, with each
field in its place. No other string is decoded, and no two headers have the same bytes digested. -/
theorem bijective_encode :
    (∀ header : Header, header.LaidOut header.encode ∧ decode header.encode = .ok header) ∧
    (∀ bytes, bytes.length = 80 → ∃ header, decode bytes = .ok header ∧ header.encode = bytes) ∧
    (∀ bytes, bytes.length ≠ 80 → ∃ error, decode bytes = .error error) ∧
    ∀ params params' first second hasher hasher',
      ∀ call ∈ (Rules.proofOfWork params first hasher).digests,
        ∀ call' ∈ (Rules.proofOfWork params' second hasher').digests,
          first ≠ second → call.data ≠ call'.data := by
  refine ⟨?_, ?_, ?_, ?_⟩
  · intro header
    exact ⟨laidOut_encode header, (laidOut_encode header).decode_eq⟩
  · intro bytes hLength
    obtain ⟨header, hDecode, hLaidOut⟩ := exists_decode hLength
    exact ⟨header, hDecode, hLaidOut.encode_eq⟩
  · intro bytes hLength
    rcases Nat.lt_or_gt_of_ne hLength with hShort | hLong
    · exact ⟨.tooShort, decode_of_short hShort⟩
    · exact ⟨.tooLong, decode_of_long hLong⟩
  · intro params params' first second hasher hasher' call hFirst call' hSecond hDiffer hSame
    exact hDiffer (eq_of_digested hFirst hSecond hSame)

/-- Eighty bytes of all ones are a header, and 81 are none. Two headers that differ in the nonce have different
bytes digested. -/
theorem bijective_encode_allOnes :
    (∃ header, decode (List.replicate 80 0xff) = .ok header ∧
      header.encode = List.replicate 80 0xff) ∧
    (∃ error, decode (List.replicate 81 0xff) = .error error) ∧
    (Header.digestCall .mainnet { bits := 0x1d00ffff }).data ≠
      (Header.digestCall .mainnet { bits := 0x1d00ffff, nonce := 1 }).data := by
  obtain ⟨_, hBytes, hOthers, hCalls⟩ := bijective_encode
  have hCall (nonce : UInt32) : Header.digestCall .mainnet { bits := 0x1d00ffff, nonce } ∈
      (Rules.proofOfWork .mainnet { bits := 0x1d00ffff, nonce }
        ⟨fun _ => .zero, fun _ _ => .zero⟩).digests := by
    rw [Rules.digests_proofOfWork, if_neg (by decide : Compact.decode? 0x1d00ffff ≠ none)]
    exact List.mem_singleton_self _
  exact ⟨hBytes _ List.length_replicate, hOthers _ (by rw [List.length_replicate]; decide),
    hCalls _ _ _ _ _ _ _ (hCall 0) _ (hCall 1) (by decide)⟩

end PowRules.Header

import PowRules.Proofs.Bytes
import PowRules.Proofs.Target
import PowRules.Retarget

/-! A target of at most 256 bits is printed as the digits of its 32 bytes, so what is printed can be read as bytes
and gives the target back. Bytes are rounded to the target that their compact word stands for. -/
namespace PowRules

theorem Hex.digitCount_le {n : Nat} (h : n < 2 ^ 256) : digitCount n ≤ 64 := by
  rcases Nat.eq_zero_or_pos n with rfl | hPositive
  · decide
  · have hLog := (Nat.log2_lt (Nat.ne_of_gt hPositive)).mpr h
    unfold digitCount
    omega

namespace Target

variable {target : Target}

/-- A target of at most 256 bits is padded to 64 digits, which are those of its bytes. -/
theorem text_eq_ofBytes (h : target.value < 2 ^ 256) :
    target.text = String.ofList (Hex.ofBytes (BigEndian.encode 32 target.value)) := by
  rw [text, Hex.padded, Nat.max_eq_left (Hex.digitCount_le h), ← Hex.fixed_eq_ofBytes]

theorem ofBigEndian_eq_rounded (bytes : List UInt8) :
    ofBigEndian bytes = rounded ⟨BigEndian.value bytes⟩ := by
  rw [BigEndian.value_eq]
  rfl

/-- A target that bits stand for is printed as 64 digits in lower case. Read in pairs they are 32 bytes that denote
the target and that it is built from. The target built from any 32 bytes is the one that the compact word of their
number stands for, unless they are all zero. -/
theorem ofBigEndian_agrees :
    (∀ (bits : UInt32) (target : Target), ofBits bits = .ok target →
      target.text.length = 64 ∧ (∀ c ∈ target.text.toList, c ∈ Hex.alphabet) ∧
        ∃ bytes, Hex.toBytes target.text.toList = .ok bytes ∧ bytes.length = 32 ∧
          BigEndian.value bytes = target.value ∧ ofBigEndian bytes = target) ∧
    ∀ bytes : List UInt8, bytes.length = 32 → BigEndian.value bytes ≠ 0 →
      ofBits (Compact.encode (BigEndian.value bytes)) = .ok (ofBigEndian bytes) := by
  constructor
  · intro bits target hBits
    have hExact := isExact_of_ofBits hBits
    have hBound : target.value < 2 ^ 256 := Compact.limit_eq ▸ hExact.lt_limit
    have hValue : BigEndian.value (BigEndian.encode 32 target.value) = target.value :=
      BigEndian.value_encode hBound
    rw [text_eq_ofBytes hBound, String.length_ofList, String.toList_ofList, Hash.length_ofBytes,
      BigEndian.encode_length]
    refine ⟨rfl, fun c => Hex.mem_alphabet_of_mem_ofBytes, BigEndian.encode 32 target.value,
      Hex.toBytesFrom_ofBytes 0 _, BigEndian.encode_length 32 _, hValue, ?_⟩
    rw [ofBigEndian_eq_rounded, hValue]
    exact hExact.rounded_eq
  · intro bytes hLength hNonzero
    have hValue := BigEndian.value_lt bytes
    rw [hLength] at hValue
    have hLimit : BigEndian.value bytes < Compact.limit := Compact.limit_eq ▸ hValue
    rw [ofBigEndian_eq_rounded, ofBits_eq_ok_iff]
    exact Compact.decode?_encode (Nat.pos_of_ne_zero hNonzero) hLimit

/-- A word with a leading zero byte prints like the canonical one. Of 32 bytes that are all set, two are left, and
the size is 33. -/
theorem ofBigEndian_agrees_leadingZero :
    ofBits 0x04001234 = .ok ⟨0x123400⟩ ∧
      (∃ bytes, Hex.toBytes (text ⟨0x123400⟩).toList = .ok bytes ∧ ofBigEndian bytes = ⟨0x123400⟩) ∧
      BigEndian.value (List.replicate 32 0xff) = 2 ^ 256 - 1 ∧
      ofBits 0x2100ffff = .ok (ofBigEndian (List.replicate 32 0xff)) := by
  have hBits : ofBits 0x04001234 = .ok ⟨0x123400⟩ := by rfl
  have hNumber : BigEndian.value (List.replicate 32 0xff) = 2 ^ 256 - 1 := by decide
  have hWord : Compact.encode (BigEndian.value (List.replicate 32 0xff)) = 0x2100ffff := by
    rw [hNumber]
    decide
  obtain ⟨hPrinted, hBuilt⟩ := ofBigEndian_agrees
  obtain ⟨_, _, bytes, hRead, _, _, hTarget⟩ := hPrinted 0x04001234 ⟨0x123400⟩ hBits
  refine ⟨hBits, ⟨bytes, hRead, hTarget⟩, hNumber, ?_⟩
  rw [← hWord]
  exact hBuilt (List.replicate 32 0xff) (by simp) (by rw [hNumber]; decide)

/-- These bytes and zeros behind them, 32 bytes in all. -/
def zerosBehind (first : List UInt8) : List UInt8 :=
  first ++ List.replicate (32 - first.length) 0

/-- The fixed targets are given as 32 bytes each: the floors of the networks and the anchor of the first
per-block retargets. -/
theorem ofBigEndian_settings :
    ofBigEndian (zerosBehind [0, 0, 0, 0, 0, 0x09, 0x24, 0x89]) = Params.mainnet.lateFloor ∧
      ofBigEndian (zerosBehind [0, 0, 0, 0, 0xff, 0xff]) = Params.mainnet.earlyFloor ∧
      ofBigEndian (zerosBehind [0, 0, 0, 0, 0xff, 0xff]) = Params.testnet.lateFloor ∧
      ofBigEndian (zerosBehind [0, 0, 0x0f, 0xff, 0xff]) = Params.testnet.earlyFloor ∧
      ofBigEndian (zerosBehind [0x7f, 0xff, 0xff]) = Params.regtest.lateFloor ∧
      ofBigEndian (zerosBehind [0x7f, 0xff, 0xff]) = Params.regtest.earlyFloor ∧
      ofBigEndian (zerosBehind [0, 0, 0, 0, 0, 0x01, 0xa6, 0x1a]) = Shield.anchor := by
  refine ⟨?_, ?_, ?_, ?_, ?_, ?_, ?_⟩ <;> decide

end Target

/-! A digest is small enough exactly when its bytes, taken from the last one on, stand in order with the bytes of
the target. The digits that both are written with are in the same order. -/

/-- The bytes from the last one on. -/
def Hash.reversed (hash : Hash) : Hash :=
  ⟨hash.bytes.reverse, by rw [List.length_reverse, hash.bytes_length]⟩

theorem Hash.value_eq_reversed (hash : Hash) : hash.value = BigEndian.value hash.reversed.bytes := by
  rw [BigEndian.value_eq, reversed, List.reverse_reverse]
  rfl

/-- Only the digest of zero bytes has the value zero. -/
theorem Hash.value_eq_zero_iff {hash : Hash} : hash.value = 0 ↔ hash = .zero := by
  constructor
  · intro hValue
    have hBytes : LittleEndian.encode hash.bytes.length hash.value = hash.bytes :=
      LittleEndian.encode_value hash.bytes
    rw [hash.bytes_length, hValue] at hBytes
    cases hash
    cases hBytes
    rfl
  · rintro rfl
    exact Hash.value_zero

namespace Target

variable {target : Target} {digest : Hash}

theorem admits_iff : target.admits digest = true ↔ digest.value ≤ target.value :=
  decide_eq_true_iff

/-- Strings of 32 bytes stand in the order of their numbers. -/
theorem inOrder_bytes_iff (h : target.value < 2 ^ 256) :
    InOrder digest.reversed.bytes (BigEndian.encode 32 target.value) ↔ digest.value ≤ target.value := by
  rw [BigEndian.inOrder_iff_value_le, ← Hash.value_eq_reversed, BigEndian.value_encode h]
  rw [digest.reversed.bytes_length, BigEndian.encode_length]

/-- A target of at most 256 bits admits the digests whose reversed bytes are no later than its own, in the order of
a dictionary, and the same is told from what is printed. A greater target admits every digest, and zero admits the
digest of zero bytes only. -/
theorem admits_iff_inOrder :
    (∀ (target : Target) (digest : Hash), target.value < 2 ^ 256 →
      (target.admits digest = true ↔
        InOrder digest.reversed.bytes (BigEndian.encode 32 target.value)) ∧
      (target.admits digest = true ↔ InOrder digest.reversed.text.toList target.text.toList)) ∧
    (∀ (target : Target) (digest : Hash), 2 ^ 256 ≤ target.value → target.admits digest = true) ∧
    ∀ digest : Hash, (⟨0⟩ : Target).admits digest = true ↔ digest = .zero := by
  refine ⟨?_, ?_, ?_⟩
  · intro target digest hBound
    have hBytes : target.admits digest = true ↔
        InOrder digest.reversed.bytes (BigEndian.encode 32 target.value) := by
      rw [admits_iff, inOrder_bytes_iff hBound]
    refine ⟨hBytes, ?_⟩
    rw [hBytes, text_eq_ofBytes hBound, Hash.text, String.toList_ofList, String.toList_ofList,
      Hex.inOrder_ofBytes_iff]
  · intro target digest hLarge
    have hDigest := digest.value_lt
    rw [admits_iff]
    omega
  · intro digest
    rw [admits_iff, ← Hash.value_eq_zero_iff]
    exact Nat.le_zero

/-- The digest of 31 full bytes before a zero byte is the greatest one below the target with a one in front. Its own
first byte would put it behind. -/
theorem admits_iff_inOrder_lastByteZero :
    (⟨2 ^ 248⟩ : Target).value < 2 ^ 256 ∧
      (⟨2 ^ 248⟩ : Target).admits ⟨List.replicate 31 0xff ++ [0], by simp⟩ = true ∧
      InOrder (0 :: List.replicate 31 0xff) (BigEndian.encode 32 (2 ^ 248)) ∧
      ¬InOrder (List.replicate 31 0xff ++ [0]) (BigEndian.encode 32 (2 ^ 248)) ∧
      (⟨2 ^ 256⟩ : Target).admits ⟨List.replicate 32 0xff, by simp⟩ = true := by
  have hBound : (⟨2 ^ 248⟩ : Target).value < 2 ^ 256 := by decide
  have hAdmits : (⟨2 ^ 248⟩ : Target).admits ⟨List.replicate 31 0xff ++ [0], by simp⟩ = true := by decide
  obtain ⟨hOrder, hLarge, _⟩ := admits_iff_inOrder
  refine ⟨hBound, hAdmits, (hOrder _ _ hBound).1.mp hAdmits, ?_, hLarge _ _ (Nat.le_refl _)⟩
  rw [BigEndian.inOrder_iff_value_le (by simp)]
  decide

end Target

end PowRules

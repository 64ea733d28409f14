/-
The three CRCs, bit by bit

The computer's words are bit vectors and its table is the library's, so what it
yields is the reflected CRC of all it was fed, with its bytes the highest first.
-/

import MonoBucket.Lib.Crc
import MonoBucket.Storage.ChecksumComputer

namespace MonoBucket

/-! ### Thirty-two bits -/

theorem lowBit32 (value : UInt32) : value &&& 1 ≠ 0 ↔ value.toBitVec.getLsbD 0 = true := by
  have hbits : (value &&& 1).toBitVec = BitVec.setWidth 32 (BitVec.ofBool (value.toBitVec.getLsbD 0)) := by
    rw [UInt32.toBitVec_and]
    exact BitVec.and_one_eq_setWidth_ofBool_getLsbD
  rw [ne_eq, ← UInt32.toBitVec_inj, hbits]
  cases value.toBitVec.getLsbD 0 <;> decide

theorem toBitVec_crcShift32 (polynomial : UInt32) (bits : Nat) (value : UInt32) :
    (crcShift32 polynomial bits value).toBitVec =
      Crc.shifted polynomial.toBitVec bits value.toBitVec := by
  induction bits generalizing value with
  | zero => rfl
  | succ bits ih =>
      rw [crcShift32, ih, Crc.shifted, Crc.bitStep, UInt32.toBitVec_xor, UInt32.toBitVec_shiftRight,
        Bool.xor_false]
      by_cases hbit : value &&& 1 ≠ 0
      · rw [if_pos hbit, if_pos ((lowBit32 value).mp hbit)]
        rfl
      · rw [if_neg hbit, if_neg (mt (lowBit32 value).mpr hbit)]
        rfl

theorem toBitVec_byteStep32 (polynomial state : UInt32) (byte : UInt8) :
    (crcShift32 polynomial 8 ((state ^^^ byte.toUInt32) &&& 0xFF) ^^^ (state >>> 8)).toBitVec =
      Crc.byteStep polynomial.toBitVec state.toBitVec byte := by
  rw [Crc.byteStep, Crc.getD_table, UInt32.toBitVec_xor, toBitVec_crcShift32]
  rfl

/-- The computer's loop is the library's, byte for byte. -/
theorem toBitVec_crcUpdate32 (polynomial state : UInt32) (data : Bytes) :
    (crcUpdate32 polynomial state data).toBitVec =
      data.foldl (Crc.byteStep polynomial.toBitVec) state.toBitVec :=
  (List.foldl_hom UInt32.toBitVec fun state byte =>
    (toBitVec_byteStep32 polynomial state byte).symm).symm

/-- A word is put down with its bytes the highest first. -/
theorem items_bigEndian32 (value : UInt32) : (bigEndian32 value).items = Crc.bigEndian value.toBitVec := by
  rfl

/-! ### Sixty-four bits -/

theorem lowBit64 (value : UInt64) : value &&& 1 ≠ 0 ↔ value.toBitVec.getLsbD 0 = true := by
  have hbits : (value &&& 1).toBitVec = BitVec.setWidth 64 (BitVec.ofBool (value.toBitVec.getLsbD 0)) := by
    rw [UInt64.toBitVec_and]
    exact BitVec.and_one_eq_setWidth_ofBool_getLsbD
  rw [ne_eq, ← UInt64.toBitVec_inj, hbits]
  cases value.toBitVec.getLsbD 0 <;> decide

theorem toBitVec_crcShift64 (polynomial : UInt64) (bits : Nat) (value : UInt64) :
    (crcShift64 polynomial bits value).toBitVec =
      Crc.shifted polynomial.toBitVec bits value.toBitVec := by
  induction bits generalizing value with
  | zero => rfl
  | succ bits ih =>
      rw [crcShift64, ih, Crc.shifted, Crc.bitStep, UInt64.toBitVec_xor, UInt64.toBitVec_shiftRight,
        Bool.xor_false]
      by_cases hbit : value &&& 1 ≠ 0
      · rw [if_pos hbit, if_pos ((lowBit64 value).mp hbit)]
        rfl
      · rw [if_neg hbit, if_neg (mt (lowBit64 value).mpr hbit)]
        rfl

theorem toBitVec_byteStep64 (polynomial state : UInt64) (byte : UInt8) :
    (crcShift64 polynomial 8 ((state ^^^ byte.toUInt64) &&& 0xFF) ^^^ (state >>> 8)).toBitVec =
      Crc.byteStep polynomial.toBitVec state.toBitVec byte := by
  rw [Crc.byteStep, Crc.getD_table, UInt64.toBitVec_xor, toBitVec_crcShift64]
  rfl

theorem toBitVec_crcUpdate64 (polynomial state : UInt64) (data : Bytes) :
    (crcUpdate64 polynomial state data).toBitVec =
      data.foldl (Crc.byteStep polynomial.toBitVec) state.toBitVec :=
  (List.foldl_hom UInt64.toBitVec fun state byte =>
    (toBitVec_byteStep64 polynomial state byte).symm).symm

/-- The bytes of the lower half are bytes of the whole. -/
theorem bigEndian_half (value : BitVec 64) :
    Crc.bigEndian (value.setWidth 32) =
      [24, 16, 8, 0].map fun place => UInt8.ofBitVec ((value >>> place).setWidth 8) := by
  show [24, 16, 8, 0].map (fun place => UInt8.ofBitVec (((value.setWidth 32) >>> place).setWidth 8)) = _
  refine List.map_congr_left fun place hplace => congrArg UInt8.ofBitVec ?_
  have hlast : place ≤ 24 := by
    simp only [List.mem_cons, List.not_mem_nil, or_false] at hplace
    omega
  refine BitVec.eq_of_getLsbD_eq fun bit hbit => ?_
  have hinside : place + bit < 32 := by omega
  rw [BitVec.getLsbD_setWidth, BitVec.getLsbD_ushiftRight, BitVec.getLsbD_setWidth,
    BitVec.getLsbD_setWidth, BitVec.getLsbD_ushiftRight, decide_eq_true hinside, Bool.true_and]

theorem items_bigEndian64 (value : UInt64) : (bigEndian64 value).items = Crc.bigEndian value.toBitVec := by
  have hhigh : (bigEndian32 (value >>> 32).toUInt32).items =
      [56, 48, 40, 32].map fun place => UInt8.ofBitVec ((value.toBitVec >>> place).setWidth 8) := by
    rw [items_bigEndian32]
    refine (bigEndian_half (value.toBitVec >>> 32)).trans ?_
    simp only [List.map_cons, List.map_nil, ← BitVec.shiftRight_add]
  have hlow : (bigEndian32 value.toUInt32).items =
      [24, 16, 8, 0].map fun place => UInt8.ofBitVec ((value.toBitVec >>> place).setWidth 8) := by
    rw [items_bigEndian32]
    exact bigEndian_half value.toBitVec
  show (bigEndian32 (value >>> 32).toUInt32).items ++ (bigEndian32 value.toUInt32).items = _
  rw [hhigh, hlow]
  rfl

/-! ### The computer -/

namespace ChecksumComputer

variable (evp : Evp) (chunks : List Bytes)

/-- A CRC of the first two kinds, under the polynomial of its algorithm. -/
theorem finish_foldl_update32 {algorithm : ChecksumAlgorithm} {polynomial : UInt32}
    (h : algorithm = .crc32 ∧ polynomial = kCrc32Polynomial ∨
      algorithm = .crc32c ∧ polynomial = kCrc32cPolynomial) :
    ((chunks.foldl update { algorithm := algorithm }).finish evp).items =
      Crc.bigEndian (Crc.crc polynomial.toBitVec chunks.flatten) := by
  have hfed : ((chunks.foldl update { algorithm := algorithm }).finish evp).items =
      (bigEndian32 (crcUpdate32 polynomial 0xFFFFFFFF chunks.flatten ^^^ 0xFFFFFFFF)).items := by
    rw [foldl_update, update]
    rcases h with ⟨rfl, rfl⟩ | ⟨rfl, rfl⟩
    · split_ifs with hnone
      · rw [hnone]
        rfl
      · rfl
    · split_ifs with hnone
      · rw [hnone]
        rfl
      · rfl
  rw [hfed, items_bigEndian32, UInt32.toBitVec_xor, toBitVec_crcUpdate32,
    Crc.crc_eq_foldl_byteStep _ (by decide)]
  rfl

theorem finish_foldl_update64 :
    ((chunks.foldl update { algorithm := .crc64Nvme }).finish evp).items =
      Crc.bigEndian (Crc.crc kCrc64NvmePolynomial.toBitVec chunks.flatten) := by
  have hfed : ((chunks.foldl update { algorithm := .crc64Nvme }).finish evp).items =
      (bigEndian64 (crcUpdate64 kCrc64NvmePolynomial 0xFFFFFFFFFFFFFFFF chunks.flatten ^^^
        0xFFFFFFFFFFFFFFFF)).items := by
    rw [foldl_update, update]
    split_ifs with hnone
    · rw [hnone]
      rfl
    · rfl
  rw [hfed, items_bigEndian64, UInt64.toBitVec_xor, toBitVec_crcUpdate64,
    Crc.crc_eq_foldl_byteStep _ (by decide)]
  rfl

end ChecksumComputer

end MonoBucket

/-
Cyclic redundancy checks, reflected

The definition takes a message bit by bit: the bit leaves with the lowest of
the register, and where the two differ the polynomial comes in. A table takes a
byte at once. The two agree at every width, because a bit of the message may be
put into the register any time before it leaves, and because what stands above
the lowest eight bits only moves down while those eight leave.
-/

import Mathlib.Data.List.OfFn

namespace MonoBucket.Crc

section Register

variable {w : Nat} (polynomial : BitVec w)

/-- One bit of the message. -/
def bitStep (register : BitVec w) (bit : Bool) : BitVec w :=
  (register >>> 1) ^^^ (if register.getLsbD 0 ^^ bit then polynomial else 0#w)

/-- The lowest bits of a value, the lowest first. -/
def lowBits (count : Nat) (value : BitVec w) : List Bool := (List.range count).map value.getLsbD

/-- What a byte adds to a message: the bits are taken lowest first. -/
def byteBits (byte : UInt8) : List Bool := lowBits 8 byte.toBitVec

/-- The definition: all ones to begin with, every bit of the message, and all
ones taken off at the end. -/
def crc (message : List UInt8) : BitVec w :=
  (message.flatMap byteBits).foldl (bitStep polynomial) (BitVec.allOnes w) ^^^ BitVec.allOnes w

/-- The register alone, so many bits on. -/
def shifted : Nat → BitVec w → BitVec w
  | 0, register => register
  | count + 1, register => shifted count (bitStep polynomial register false)

/-- Where each byte takes a register that holds nothing else. -/
def table : List (BitVec w) := (List.range 256).map fun index => shifted polynomial 8 (BitVec.ofNat w index)

/-- What a byte does to the register, by the table's entry for the lowest eight bits. -/
def byteStep (register : BitVec w) (byte : UInt8) : BitVec w :=
  (table polynomial).getD ((register ^^^ byte.toBitVec.setWidth w) &&& 0xFF#w).toNat 0#w ^^^
    (register >>> 8)

/-- A bit may be put into the register before the step instead of into the step. -/
theorem bitStep_xor (register value : BitVec w) :
    bitStep polynomial (register ^^^ value) false =
      bitStep polynomial register (value.getLsbD 0) ^^^ (value >>> 1) := by
  rw [bitStep, bitStep, BitVec.getLsbD_xor, Bool.xor_false, BitVec.ushiftRight_xor_distrib,
    BitVec.xor_assoc, BitVec.xor_assoc, BitVec.xor_comm (value >>> 1)]

theorem lowBits_succ (count : Nat) (value : BitVec w) :
    lowBits (count + 1) value = value.getLsbD 0 :: lowBits count (value >>> 1) := by
  rw [lowBits, List.range_succ_eq_map, List.map_cons, List.map_map, lowBits]
  congr 1
  refine List.map_congr_left fun place _ => ?_
  rw [Function.comp_apply, BitVec.getLsbD_ushiftRight, Nat.add_comm 1]

/-- So many bits, taken in turn, are the same as all of them put in at the start. -/
theorem foldl_bitStep_lowBits {count : Nat} (register value : BitVec w)
    (hfits : value >>> count = 0#w) :
    (lowBits count value).foldl (bitStep polynomial) register =
      shifted polynomial count (register ^^^ value) := by
  induction count generalizing register value with
  | zero =>
      have hvalue : value = 0#w := by simpa using hfits
      rw [hvalue, BitVec.xor_zero]
      rfl
  | succ count ih =>
      have hrest : (value >>> 1) >>> count = 0#w := by
        rw [← BitVec.shiftRight_add, Nat.add_comm, hfits]
      rw [lowBits_succ, List.foldl_cons, ih _ _ hrest, shifted, bitStep_xor]

/-- What stands above the bits that leave only moves down. -/
theorem shifted_xor {count : Nat} (register high : BitVec w)
    (hhigh : ∀ place < count, high.getLsbD place = false) :
    shifted polynomial count (register ^^^ high) =
      shifted polynomial count register ^^^ (high >>> count) := by
  induction count generalizing register high with
  | zero => rw [BitVec.ushiftRight_zero]; rfl
  | succ count ih =>
      have hrest : ∀ place < count, (high >>> 1).getLsbD place = false := by
        intro place hplace
        rw [BitVec.getLsbD_ushiftRight]
        exact hhigh (1 + place) (by omega)
      rw [shifted, shifted, bitStep_xor, hhigh 0 (Nat.succ_pos count), ih _ _ hrest,
        ← BitVec.shiftRight_add, Nat.add_comm 1]

theorem getLsbD_lowMask {place : Nat} (hplace : place < w) :
    (0xFF#w).getLsbD place = decide (place < 8) := by
  rw [BitVec.getLsbD_ofNat, show (0xFF : Nat) = 2 ^ 8 - 1 from rfl, Nat.testBit_two_pow_sub_one,
    decide_eq_true hplace, Bool.true_and]

/-- A value is its lowest eight bits and what stands above them. -/
theorem low_xor_high (value : BitVec w) : (value &&& 0xFF#w) ^^^ ((value >>> 8) <<< 8) = value := by
  refine BitVec.eq_of_getLsbD_eq fun place hplace => ?_
  rw [BitVec.getLsbD_xor, BitVec.getLsbD_and, getLsbD_lowMask hplace, BitVec.getLsbD_shiftLeft,
    BitVec.getLsbD_ushiftRight]
  by_cases hlow : place < 8
  · simp [hlow]
  · have hback : 8 + (place - 8) = place := by omega
    simp [hlow, hplace, hback]

/-- The entry is there for every value of the lowest eight bits. -/
theorem getD_table (value : BitVec w) :
    (table polynomial).getD (value &&& 0xFF#w).toNat 0#w = shifted polynomial 8 (value &&& 0xFF#w) := by
  have hlow : (value &&& 0xFF#w).toNat < 256 := by
    rw [BitVec.toNat_and, BitVec.toNat_ofNat]
    exact (Nat.and_le_right.trans (Nat.mod_le _ _)).trans_lt (by decide)
  rw [List.getD_eq_getElem?_getD, table, List.getElem?_map, List.getElem?_range hlow, Option.map_some,
    Option.getD_some, BitVec.ofNat_toNat, BitVec.setWidth_eq]

theorem shiftRight_shiftLeft_shiftRight (value : BitVec w) :
    ((value >>> 8) <<< 8) >>> 8 = value >>> 8 := by
  refine BitVec.eq_of_getLsbD_eq fun place _ => ?_
  rw [BitVec.getLsbD_ushiftRight, BitVec.getLsbD_shiftLeft, BitVec.getLsbD_ushiftRight,
    Nat.add_sub_cancel_left, decide_eq_false (Nat.not_lt.mpr (Nat.le_add_right 8 place))]
  by_cases hplace : 8 + place < w
  · simp [hplace]
  · have hbeyond : (value >>> 8).getLsbD place = false := by
      rw [BitVec.getLsbD_ushiftRight, BitVec.getLsbD_of_ge _ _ (Nat.not_lt.mp hplace)]
    rw [decide_eq_false hplace, hbeyond]
    rfl

/-- Eight steps are one lookup, by the lowest eight bits. -/
theorem shifted_eight (value : BitVec w) :
    shifted polynomial 8 value = shifted polynomial 8 (value &&& 0xFF#w) ^^^ (value >>> 8) := by
  have hhigh : ∀ place < 8, ((value >>> 8) <<< 8).getLsbD place = false := by
    intro place hplace
    rw [BitVec.getLsbD_shiftLeft]
    simp [hplace]
  calc
    shifted polynomial 8 value =
        shifted polynomial 8 ((value &&& 0xFF#w) ^^^ ((value >>> 8) <<< 8)) := by
      rw [low_xor_high]
    _ = shifted polynomial 8 (value &&& 0xFF#w) ^^^ (((value >>> 8) <<< 8) >>> 8) :=
      shifted_xor polynomial _ _ hhigh
    _ = shifted polynomial 8 (value &&& 0xFF#w) ^^^ (value >>> 8) := by
      rw [shiftRight_shiftLeft_shiftRight]

theorem shiftRight_setWidth_byte (byte : UInt8) : (byte.toBitVec.setWidth w) >>> 8 = 0#w := by
  refine BitVec.eq_of_getLsbD_eq fun place hplace => ?_
  rw [BitVec.getLsbD_ushiftRight, BitVec.getLsbD_setWidth, BitVec.getLsbD_of_ge _ _ (by omega)]
  simp

/-- One lookup does what the eight bits of a byte do. -/
theorem foldl_bitStep_byteBits (hwidth : 8 ≤ w) (register : BitVec w) (byte : UInt8) :
    (byteBits byte).foldl (bitStep polynomial) register = byteStep polynomial register byte := by
  have hbits : byteBits byte = lowBits 8 (byte.toBitVec.setWidth w) := by
    refine List.map_congr_left fun place hplace => ?_
    have hfits : place < w := (List.mem_range.mp hplace).trans_le hwidth
    rw [BitVec.getLsbD_setWidth, decide_eq_true hfits, Bool.true_and]
  have hbyte := shiftRight_setWidth_byte (w := w) byte
  rw [hbits, foldl_bitStep_lowBits polynomial _ _ hbyte, shifted_eight,
    BitVec.ushiftRight_xor_distrib, hbyte, BitVec.xor_zero, byteStep, getD_table]

/-- The table takes a message a byte at a time to where the definition takes it. -/
theorem foldl_byteStep (hwidth : 8 ≤ w) (register : BitVec w) (message : List UInt8) :
    message.foldl (byteStep polynomial) register =
      (message.flatMap byteBits).foldl (bitStep polynomial) register := by
  induction message generalizing register with
  | nil => rfl
  | cons byte message ih =>
      rw [List.foldl_cons, List.flatMap_cons, List.foldl_append, ih,
        foldl_bitStep_byteBits polynomial hwidth]

theorem crc_eq_foldl_byteStep (hwidth : 8 ≤ w) (message : List UInt8) :
    crc polynomial message =
      message.foldl (byteStep polynomial) (BitVec.allOnes w) ^^^ BitVec.allOnes w := by
  rw [crc, foldl_byteStep polynomial hwidth]

end Register

/-! ### Bytes -/

/-- The bytes of a value, the highest first. -/
def bigEndian {w : Nat} (value : BitVec w) : List UInt8 :=
  (List.range (w / 8)).reverse.map fun place => UInt8.ofBitVec ((value >>> (place * 8)).setWidth 8)

end MonoBucket.Crc

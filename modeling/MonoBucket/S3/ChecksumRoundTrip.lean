/-
Checksums on the wire and back

Base64 has no dash, so the last dash of a checksum's text is the one in front of
its number of parts. What is written of a digest therefore reads back as it, and
a text that is for a digest of another length than the algorithm's is refused.
-/

import MonoBucket.S3.Checksum
import MonoBucket.S3.Decimal
import MonoBucket.Storage.BitwiseCrc

namespace MonoBucket.S3

/-! ### Letters -/

theorem kAlphabet_spec (value : Fin 64) :
    base64Value (kAlphabet.getD value.val (letter 'A')) = some value.val.toUInt32 ∧
      kAlphabet.getD value.val (letter 'A') ≠ letter '=' ∧
      kAlphabet.getD value.val (letter 'A') ≠ letter '-' := by
  revert value
  decide +kernel

/-- A letter is read as the six bits it stands for, and it is neither padding nor a dash. -/
theorem sextet_spec (bits : UInt32) :
    base64Value (sextet bits) = some (bits &&& 0x3F) ∧ sextet bits ≠ letter '=' ∧
      sextet bits ≠ letter '-' := by
  have hlow : (bits &&& 0x3F).toNat < 64 := by
    rw [UInt32.toNat_and]
    exact Nat.and_le_right.trans_lt (by decide)
  have hletter := kAlphabet_spec ⟨(bits &&& 0x3F).toNat, hlow⟩
  rwa [Nat.toUInt32_eq, UInt32.ofNat_toNat] at hletter

theorem base64Value_sextet (bits : UInt32) : base64Value (sextet bits) = some (bits &&& 0x3F) :=
  (sextet_spec bits).1

theorem sextet_ne_padding (bits : UInt32) : sextet bits ≠ letter '=' := (sextet_spec bits).2.1

/-! ### Words -/

/-- A field moved down and back up is the word under the field's mask. -/
theorem field_in_place {w : Nat} (word mask : BitVec w) (place : Nat) :
    ((word >>> place) &&& mask) <<< place = word &&& (mask <<< place) := by
  refine BitVec.eq_of_getLsbD_eq fun bit hbit => ?_
  simp only [BitVec.getLsbD_and, BitVec.getLsbD_shiftLeft, BitVec.getLsbD_ushiftRight, hbit]
  by_cases hbelow : bit < place
  · simp [hbelow]
  · have hback : place + (bit - place) = bit := by omega
    simp [hbelow, hback]

/-- The four groups of six bits of a word, put together again. -/
theorem sextets_joined (triple : UInt32) :
    (((triple >>> 18) &&& 0x3F) <<< 18) ||| (((triple >>> 12) &&& 0x3F) <<< 12) |||
      (((triple >>> 6) &&& 0x3F) <<< 6) ||| (triple &&& 0x3F) = triple &&& 0xFFFFFF := by
  refine UInt32.toBitVec_inj.mp ?_
  show (((triple.toBitVec >>> 18) &&& 0x3F#32) <<< 18) |||
      (((triple.toBitVec >>> 12) &&& 0x3F#32) <<< 12) |||
      (((triple.toBitVec >>> 6) &&& 0x3F#32) <<< 6) ||| (triple.toBitVec &&& 0x3F#32) =
    triple.toBitVec &&& 0xFFFFFF#32
  rw [field_in_place, field_in_place, field_in_place, ← BitVec.and_or_distrib_left,
    ← BitVec.and_or_distrib_left, ← BitVec.and_or_distrib_left]
  rfl

/-- The three bytes of a word do not need what is above them. -/
theorem byte_of_masked {place : Nat} (hplace : place ≤ 16) (triple : BitVec 32) :
    ((triple &&& 0xFFFFFF#32) >>> place).setWidth 8 = (triple >>> place).setWidth 8 := by
  refine BitVec.eq_of_getLsbD_eq fun bit hbit => ?_
  have hmask : (0xFFFFFF#32).getLsbD (place + bit) = true := by
    rw [BitVec.getLsbD_ofNat, show (0xFFFFFF : Nat) = 2 ^ 24 - 1 from rfl,
      Nat.testBit_two_pow_sub_one, decide_eq_true (by omega : place + bit < 24),
      decide_eq_true (by omega : place + bit < 32)]
    rfl
  rw [BitVec.getLsbD_setWidth, BitVec.getLsbD_setWidth, BitVec.getLsbD_ushiftRight,
    BitVec.getLsbD_ushiftRight, BitVec.getLsbD_and, hmask, Bool.and_true]

theorem base64Triple_sextets (triple : UInt32) (padding : Nat) :
    base64Triple ((triple >>> 18) &&& 0x3F) ((triple >>> 12) &&& 0x3F) ((triple >>> 6) &&& 0x3F)
        (triple &&& 0x3F) padding =
      [(triple >>> 16).toUInt8, (triple >>> 8).toUInt8, triple.toUInt8].take (3 - padding) := by
  have hbyte : ∀ place ≤ 16, UInt8.ofBitVec (((triple &&& 0xFFFFFF).toBitVec >>> place).setWidth 8) =
      UInt8.ofBitVec ((triple.toBitVec >>> place).setWidth 8) :=
    fun place hplace => congrArg UInt8.ofBitVec (byte_of_masked hplace triple.toBitVec)
  rw [base64Triple, sextets_joined]
  exact congrArg (List.take (3 - padding)) (congrArg₂ List.cons (hbyte 16 (by decide))
    (congrArg₂ List.cons (hbyte 8 (by decide)) (congrArg₂ List.cons (hbyte 0 (by decide)) rfl)))

/-- Three bytes in a word. -/
def tripleOf (first second third : UInt8) : UInt32 :=
  (first.toUInt32 <<< 16) ||| (second.toUInt32 <<< 8) ||| third.toUInt32

theorem getLsbD_tripleOf (first second third : UInt8) (place : Nat) {bit : Nat}
    (hplace : place ≤ 16) (hbit : bit < 8) :
    (((tripleOf first second third).toBitVec >>> place).setWidth 8).getLsbD bit =
      ((!decide (place + bit < 16) && first.toBitVec.getLsbD (place + bit - 16)) ||
        (!decide (place + bit < 8) && second.toBitVec.getLsbD (place + bit - 8)) ||
        third.toBitVec.getLsbD (place + bit)) := by
  have hinside : place + bit < 32 := by omega
  show ((((first.toBitVec.setWidth 32 <<< 16) ||| (second.toBitVec.setWidth 32 <<< 8) |||
    third.toBitVec.setWidth 32) >>> place).setWidth 8).getLsbD bit = _
  simp only [BitVec.getLsbD_setWidth, BitVec.getLsbD_ushiftRight, BitVec.getLsbD_or,
    BitVec.getLsbD_shiftLeft, hinside, hbit, decide_true, Bool.true_and,
    (show place + bit - 16 < 32 by omega), (show place + bit - 8 < 32 by omega)]

theorem bytes_tripleOf (first second third : UInt8) :
    (tripleOf first second third >>> 16).toUInt8 = first ∧
      (tripleOf first second third >>> 8).toUInt8 = second ∧
      (tripleOf first second third).toUInt8 = third := by
  refine ⟨UInt8.toBitVec_inj.mp (BitVec.eq_of_getLsbD_eq fun bit hbit => ?_),
    UInt8.toBitVec_inj.mp (BitVec.eq_of_getLsbD_eq fun bit hbit => ?_),
    UInt8.toBitVec_inj.mp (BitVec.eq_of_getLsbD_eq fun bit hbit => ?_)⟩
  · refine (getLsbD_tripleOf first second third 16 (by decide) hbit).trans ?_
    rw [BitVec.getLsbD_of_ge second.toBitVec _ (by omega),
      BitVec.getLsbD_of_ge third.toBitVec _ (by omega)]
    simp
  · refine (getLsbD_tripleOf first second third 8 (by decide) hbit).trans ?_
    rw [BitVec.getLsbD_of_ge third.toBitVec _ (by omega)]
    simp [(by omega : 8 + bit < 16)]
  · refine (getLsbD_tripleOf first second third 0 (by decide) hbit).trans ?_
    simp [hbit, (by omega : bit < 16)]

/-! ### Base64 -/

/-- A byte that is put higher leaves the last six bits alone. -/
theorem lastSextets_spec (byte : UInt8) :
    (byte.toUInt32 <<< 16) &&& 0x3F = 0 ∧ ((byte.toUInt32 <<< 16) >>> 6) &&& 0x3F = 0 ∧
      (byte.toUInt32 <<< 8) &&& 0x3F = 0 :=
  forall_byte_of_fin
    (P := fun byte => (byte.toUInt32 <<< 16) &&& 0x3F = 0 ∧
      ((byte.toUInt32 <<< 16) >>> 6) &&& 0x3F = 0 ∧ (byte.toUInt32 <<< 8) &&& 0x3F = 0)
    (by decide +kernel) byte

/-- Four letters are read as the three bytes they were written from. -/
theorem base64Groups_letters (triple : UInt32) (rest : Bytes) :
    base64Groups (sextet (triple >>> 18) :: sextet (triple >>> 12) :: sextet (triple >>> 6) ::
        sextet triple :: rest) =
      (base64Groups rest).map fun others =>
        [(triple >>> 16).toUInt8, (triple >>> 8).toUInt8, triple.toUInt8] ++ others := by
  have hread := base64Triple_sextets triple 0
  cases rest with
  | nil =>
      rw [base64Groups]
      simp [base64Value_sextet, sextet_ne_padding, hread, base64Groups]
  | cons byte rest =>
      rw [base64Groups]
      · simp only [base64Value_sextet, Option.bind_eq_bind, Option.bind_some, hread]
        rw [Option.map_eq_bind]
        rfl
      · exact nofun

theorem base64Groups_base64Encode (data : Bytes) : base64Groups (base64Encode data) = some data := by
  induction data using base64Encode.induct with
  | case1 first second third rest ih =>
      obtain ⟨hfirst, hsecond, hthird⟩ := bytes_tripleOf first second third
      rw [base64Encode]
      refine (base64Groups_letters (tripleOf first second third) (base64Encode rest)).trans ?_
      rw [ih, hfirst, hsecond, hthird]
      rfl
  | case2 first second =>
      -- there is no third byte, so nothing is left for the last six bits
      have hword : (first.toUInt32 <<< 16) ||| (second.toUInt32 <<< 8) = tripleOf first second 0 :=
        UInt32.or_zero.symm
      have hlast : tripleOf first second 0 &&& 0x3F = 0 := by
        have hhigh := congrArg UInt32.toBitVec (lastSextets_spec first).1
        have hlow := congrArg UInt32.toBitVec (lastSextets_spec second).2.2
        rw [← hword]
        exact UInt32.toBitVec_inj.mp
          (BitVec.and_or_distrib_right.trans (congrArg₂ (· ||| ·) hhigh hlow))
      have hread := base64Triple_sextets (tripleOf first second 0) 1
      obtain ⟨hfirst, hsecond, -⟩ := bytes_tripleOf first second 0
      rw [hlast, hfirst, hsecond] at hread
      rw [base64Encode, base64Groups, hword]
      simp [base64Value_sextet, sextet_ne_padding, hread]
  | case3 first =>
      have hword : first.toUInt32 <<< 16 = tripleOf first 0 0 := by
        rw [tripleOf]
        simp
      obtain ⟨hlast, hthird, -⟩ := lastSextets_spec first
      have hread := base64Triple_sextets (tripleOf first 0 0) 2
      obtain ⟨hfirst, -, -⟩ := bytes_tripleOf first 0 0
      rw [← hword] at hread hfirst
      rw [hlast, hthird, hfirst] at hread
      rw [base64Encode, base64Groups]
      simp [base64Value_sextet, hread]
  | case4 => rfl

theorem base64Encode_ne_nil {data : Bytes} (h : data ≠ []) : base64Encode data ≠ [] := by
  intro hnone
  have hread := base64Groups_base64Encode data
  rw [hnone, base64Groups] at hread
  exact h (Option.some.inj hread).symm

theorem length_base64Encode (data : Bytes) : (base64Encode data).length % 4 = 0 := by
  induction data using base64Encode.induct with
  | case1 first second third rest ih =>
      rw [base64Encode, List.length_append]
      simp [ih]
  | case2 first second =>
      simp [base64Encode]
  | case3 first =>
      simp [base64Encode]
  | case4 => rfl

/-- What is written of any bytes reads back as them. -/
theorem base64Decode_base64Encode {data : Bytes} (h : data ≠ []) :
    base64Decode (base64Encode data) = some data := by
  rw [base64Decode, if_neg, base64Groups_base64Encode]
  rw [not_or, not_not]
  exact ⟨base64Encode_ne_nil h, length_base64Encode data⟩

theorem dash_not_mem_base64Encode (data : Bytes) : letter '-' ∉ base64Encode data := by
  have hletter : ∀ bits, letter '-' ≠ sextet bits := fun bits => (sextet_spec bits).2.2.symm
  have hpadding : letter '-' ≠ letter '=' := by decide
  induction data using base64Encode.induct with
  | case1 first second third rest ih =>
      rw [base64Encode]
      simp [hletter, ih]
  | case2 first second =>
      rw [base64Encode]
      simp [hletter, hpadding]
  | case3 first =>
      rw [base64Encode]
      simp [hletter, hpadding]
  | case4 => exact List.not_mem_nil

/-! ### The number of parts -/

/-- `encodeChecksum`: nothing at all for a checksum that is not there. -/
def encodeChecksum (checksum : Checksum) : Bytes :=
  if checksum.algorithm.isSome ∧ checksum.value.items ≠ [] then checksumText checksum else []

/-- The digest a text is for: its base64 is the whole of it or what stands in front of the
last dash. -/
inductive Denotes : Bytes → Bytes → Prop
  | whole {text raw : Bytes} (hplain : letter '-' ∉ text) (hread : base64Decode text = some raw) :
      Denotes text raw
  | composite {value count raw : Bytes} (hlast : letter '-' ∉ count)
      (hread : base64Decode value = some raw) : Denotes (value ++ letter '-' :: count) raw

theorem partCount_decimal {parts : UInt32} (h : parts ≠ 0) :
    partCount (decimal parts.toNat) = some parts := by
  have hpositive : parts.toNat ≠ 0 := fun hzero => h (UInt32.toNat_inj.mp hzero)
  have hdigits : (decimal parts.toNat).all isDigit = true :=
    List.all_eq_true.mpr fun byte hbyte => isDigit_of_mem_decimal byte hbyte
  rw [partCount, digitsValue_decimal, if_pos ⟨decimal_ne_nil _, hdigits, hpositive, parts.toNat_lt⟩,
    Nat.toUInt32_eq, UInt32.ofNat_toNat]

theorem dash_not_mem_decimal (value : Nat) : letter '-' ∉ decimal value := fun h =>
  absurd (isDigit_of_mem_decimal _ h) (by decide)

section Decoding

variable (algorithm : ChecksumAlgorithm)

/-- What a decoded value comes to, given how many parts its text names. -/
def ofLength (parts : UInt32) (raw : Bytes) : Option (Bytes × UInt32) :=
  if raw.length = checksumLength algorithm then some (raw, parts) else none

theorem decodeChecksum_whole {text : Bytes} (hplain : letter '-' ∉ text) :
    decodeChecksum algorithm text = (base64Decode text).bind (ofLength algorithm 0) := by
  rw [decodeChecksum, if_neg hplain]
  by_cases hnone : text = []
  · rw [if_pos hnone, hnone]
    rfl
  · rw [if_neg hnone]
    rfl

theorem decodeChecksum_composite {value count : Bytes} (hlast : letter '-' ∉ count) :
    decodeChecksum algorithm (value ++ letter '-' :: count) =
      (partCount count).bind fun parts => (base64Decode value).bind (ofLength algorithm parts) := by
  have hall : ∀ byte ∈ count.reverse, decide (byte ≠ letter '-') = true := by
    intro byte hbyte
    exact decide_eq_true fun heq => hlast (heq ▸ List.mem_reverse.mp hbyte)
  have hcount : ((value ++ letter '-' :: count).reverse.takeWhile (· ≠ letter '-')).reverse = count := by
    rw [List.reverse_append, List.reverse_cons, List.append_assoc, List.takeWhile_append_of_pos hall]
    simp
  have hvalue : (value ++ letter '-' :: count).take
      ((value ++ letter '-' :: count).length - count.length - 1) = value := by
    have hlength : (value ++ letter '-' :: count).length - count.length - 1 = value.length := by
      rw [List.length_append, List.length_cons]
      omega
    rw [hlength, List.take_left]
  rw [decodeChecksum, if_neg (by simp), if_pos (by simp)]
  simp only [hcount, hvalue]
  cases partCount count <;> rfl

end Decoding

theorem ofLength_eq_some {algorithm : ChecksumAlgorithm} {raw other : Bytes} {parts count : UInt32}
    (h : ofLength algorithm count other = some (raw, parts)) :
    other = raw ∧ raw.length = checksumLength algorithm := by
  rw [ofLength] at h
  split_ifs at h with hlength
  obtain ⟨rfl, -⟩ := Prod.ext_iff.mp (Option.some.inj h)
  exact ⟨rfl, hlength⟩

/-- The text of an accepted checksum is for the digest it is read as. -/
theorem denotes_of_decodeChecksum {algorithm : ChecksumAlgorithm} {text raw : Bytes} {parts : UInt32}
    (h : decodeChecksum algorithm text = some (raw, parts)) :
    Denotes text raw ∧ raw.length = checksumLength algorithm := by
  by_cases hplain : letter '-' ∉ text
  · rw [decodeChecksum_whole algorithm hplain] at h
    obtain ⟨other, hread, hother⟩ := Option.bind_eq_some_iff.mp h
    obtain ⟨rfl, hlength⟩ := ofLength_eq_some hother
    exact ⟨.whole hplain hread, hlength⟩
  · obtain ⟨value, count, htext, hlast⟩ := Keys.exists_append_last_mark (not_not.mp hplain)
    rw [htext, decodeChecksum_composite algorithm hlast] at h
    obtain ⟨parts, -, h⟩ := Option.bind_eq_some_iff.mp h
    obtain ⟨other, hread, hother⟩ := Option.bind_eq_some_iff.mp h
    obtain ⟨rfl, hlength⟩ := ofLength_eq_some hother
    rw [htext]
    exact ⟨.composite hlast hread, hlength⟩

theorem decodeChecksum_of_denotes {algorithm : ChecksumAlgorithm} {text raw : Bytes}
    (h : Denotes text raw) (hlength : raw.length ≠ checksumLength algorithm) :
    decodeChecksum algorithm text = none := by
  cases h with
  | whole hplain hread =>
      rw [decodeChecksum_whole algorithm hplain, hread, Option.bind_some, ofLength, if_neg hlength]
  | composite hlast hread =>
      rw [decodeChecksum_composite algorithm hlast, hread]
      cases partCount _ with
      | none => rfl
      | some parts => rw [Option.bind_some, Option.bind_some, ofLength, if_neg hlength]

theorem decodeChecksum_encodeChecksum {algorithm : ChecksumAlgorithm} {checksum : Checksum}
    (halgorithm : checksum.algorithm = some algorithm)
    (hlength : checksum.value.items.length = checksumLength algorithm) :
    decodeChecksum algorithm (encodeChecksum checksum) =
      some (checksum.value.items, checksum.parts) := by
  have hsome : checksum.value.items ≠ [] := by
    intro hnone
    rw [hnone] at hlength
    cases algorithm <;> cases hlength
  have hpresent : checksum.algorithm.isSome ∧ checksum.value.items ≠ [] :=
    ⟨by rw [halgorithm]; rfl, hsome⟩
  have hread := base64Decode_base64Encode hsome
  rw [encodeChecksum, if_pos hpresent, checksumText]
  by_cases hwhole : checksum.parts = 0
  · rw [if_pos hwhole, List.append_nil, decodeChecksum_whole algorithm (dash_not_mem_base64Encode _),
      hread, Option.bind_some, ofLength, if_pos hlength, hwhole]
  · rw [if_neg hwhole]
    refine (decodeChecksum_composite algorithm (dash_not_mem_decimal _)).trans ?_
    rw [partCount_decimal hwhole, Option.bind_some, hread, Option.bind_some, ofLength, if_pos hlength]

/-- A checksum of its algorithm's length reads back from its text. A text for a digest of another
length is refused, and what is accepted is the digest the text is for. The three CRCs are the
bitwise ones of all the computer was fed, however it was cut. -/
theorem checksums_are_faithful (evp : Evp) :
    (∀ (algorithm : ChecksumAlgorithm) (checksum : Checksum), checksum.algorithm = some algorithm →
        checksum.value.items.length = checksumLength algorithm →
          decodeChecksum algorithm (encodeChecksum checksum) =
            some (checksum.value.items, checksum.parts)) ∧
      (∀ (algorithm : ChecksumAlgorithm) (text raw : Bytes), Denotes text raw →
        raw.length ≠ checksumLength algorithm → decodeChecksum algorithm text = none) ∧
      (∀ (algorithm : ChecksumAlgorithm) (text raw : Bytes) (parts : UInt32),
        decodeChecksum algorithm text = some (raw, parts) →
          Denotes text raw ∧ raw.length = checksumLength algorithm) ∧
      ∀ chunks : List Bytes,
        ((chunks.foldl ChecksumComputer.update { algorithm := .crc32 }).finish evp).items =
            Crc.bigEndian (Crc.crc kCrc32Polynomial.toBitVec chunks.flatten) ∧
          ((chunks.foldl ChecksumComputer.update { algorithm := .crc32c }).finish evp).items =
            Crc.bigEndian (Crc.crc kCrc32cPolynomial.toBitVec chunks.flatten) ∧
          ((chunks.foldl ChecksumComputer.update { algorithm := .crc64Nvme }).finish evp).items =
            Crc.bigEndian (Crc.crc kCrc64NvmePolynomial.toBitVec chunks.flatten) := by
  refine ⟨fun algorithm checksum => decodeChecksum_encodeChecksum,
    fun algorithm text raw => decodeChecksum_of_denotes,
    fun algorithm text raw parts => denotes_of_decodeChecksum, fun chunks => ⟨?_, ?_, ?_⟩⟩
  · exact ChecksumComputer.finish_foldl_update32 evp chunks (Or.inl ⟨rfl, rfl⟩)
  · exact ChecksumComputer.finish_foldl_update32 evp chunks (Or.inr ⟨rfl, rfl⟩)
  · exact ChecksumComputer.finish_foldl_update64 evp chunks

end MonoBucket.S3

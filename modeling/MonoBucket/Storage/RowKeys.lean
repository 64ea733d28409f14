/-
The keys of the rows, all together

What a key is built from can be read off it: its tag tells the kind of the row,
and a component without a separator ends at the first one or begins behind the
last. A number is as many bytes as its width, so nothing in it is taken for a
separator, and its order is the order of the rows.
-/

import MonoBucket.Storage.AuditLog
import MonoBucket.Storage.UploadListing

namespace MonoBucket.Keys

/-! ### Numbers -/

theorem length_bigEndian32 (value : UInt32) : (bigEndian32 value).length = 4 := rfl

theorem bigEndianValue_bigEndian32 (value : UInt32) :
    bigEndianValue (bigEndian32 value) = value.toNat := by
  have hbyte : ∀ shift : UInt32, ((value >>> shift) &&& 0xFF).toUInt8.toNat =
      value.toNat >>> (shift.toNat % 32) % 256 := by
    intro shift
    rw [UInt32.toNat_toUInt8, UInt32.toNat_and, UInt32.toNat_shiftRight]
    have hlow : value.toNat >>> (shift.toNat % 32) &&& 255 = value.toNat >>> (shift.toNat % 32) % 256 :=
      Nat.and_two_pow_sub_one_eq_mod _ 8
    change (value.toNat >>> (shift.toNat % 32) &&& 255) % 2 ^ 8 = _
    rw [hlow]
    omega
  have hlast : (value &&& 0xFF).toUInt8.toNat = value.toNat % 256 := by
    have hzero := hbyte 0
    rwa [UInt32.shiftRight_zero] at hzero
  have hvalue := value.toNat_lt
  simp only [bigEndian32, bigEndianValue, List.length_cons, List.length_nil, hbyte, hlast,
    Nat.shiftRight_eq_div_pow]
  simp only [UInt32.reduceToNat, Nat.reduceMod, Nat.reducePow, Nat.reduceAdd]
  omega

/-- The parts of an upload are in the order of their numbers. -/
theorem part_lt_part {uploadId : Bytes} {first second : UInt32} :
    part uploadId first < part uploadId second ↔ first < second := by
  rw [part, part, List.append_lt_append_left_iff,
    lt_iff_bigEndianValue_lt ((length_bigEndian32 first).trans (length_bigEndian32 second).symm),
    bigEndianValue_bigEndian32, bigEndianValue_bigEndian32, UInt32.lt_iff_toNat_lt]

/-! ### Parsers -/

theorem objectKey_eq_some_iff {stored bucketName key : Bytes} :
    objectKey stored bucketName = some key ↔ stored = object bucketName key := afterPrefix_eq_some_iff

/-- A stored key splits into a key and an id exactly when it is built from them. -/
theorem uploadKeyParts_eq_some_iff {stored bucketName key uploadId : Bytes} :
    uploadKeyParts stored bucketName = some ⟨key, uploadId⟩ ↔
      stored = uploadByKey bucketName key uploadId ∧ separator ∉ uploadId := by
  constructor
  · intro h
    have hrest := h
    rw [uploadKeyParts] at hrest
    split at hrest
    · cases hrest
    · rename_i rest hstored
      split_ifs at hrest with hmark
      obtain ⟨front, back, rfl, hback⟩ := exists_append_last_mark hmark
      have hbuilt : stored = uploadByKey bucketName front back := by
        rw [afterPrefix_eq_some_iff.mp hstored, uploadByKey]
        simp
      rw [hbuilt, uploadKeyParts_uploadByKey hback] at h
      obtain ⟨rfl, rfl⟩ := UploadKeyParts.mk.inj (Option.some.inj h)
      exact ⟨hbuilt, hback⟩
  · rintro ⟨rfl, hid⟩
    exact uploadKeyParts_uploadByKey hid

/-- A stored key has a sequence exactly when it is the key of that entry. -/
theorem auditSequence_eq_some_iff {stored : Bytes} {sequence : UInt64} :
    auditSequence stored = some sequence ↔ stored = audit sequence := by
  constructor
  · intro h
    cases stored with
    | nil => cases h
    | cons tag digits =>
        rw [auditSequence] at h
        split_ifs at h with hshape
        obtain ⟨hlength, rfl⟩ := hshape
        have hfits := bigEndianValue_lt digits
        have hread := @toNat_foldl_bytes digits 0 (by
          rw [hlength] at hfits ⊢
          simpa using hfits)
        rw [Option.some.inj h] at hread
        have hvalue : bigEndianValue (bigEndian64 sequence) = bigEndianValue digits := by
          rw [bigEndianValue_bigEndian64, hread]
          simp
        rw [audit, bigEndianValue_inj ((length_bigEndian64 sequence).trans hlength.symm) hvalue]
  · rintro rfl
    exact auditSequence_audit sequence

/-! ### Kinds -/

/-- A row by what its key is built from. -/
inductive RowKey
  | bucket (name : Bytes)
  | object (bucketName key : Bytes)
  | uploadByKey (bucketName key uploadId : Bytes)
  | uploadById (uploadId : Bytes)
  | part (uploadId : Bytes) (number : UInt32)
  | orphan (blobId : Bytes)
  | user (username : Bytes)
  | accessKey (accessKeyId : Bytes)
  | audit (sequence : UInt64)
  | metaRow (name : Bytes)
  deriving DecidableEq

namespace RowKey

def stored : RowKey → Bytes
  | bucket name => Keys.bucket name
  | object bucketName key => Keys.object bucketName key
  | uploadByKey bucketName key uploadId => Keys.uploadByKey bucketName key uploadId
  | uploadById uploadId => Keys.uploadById uploadId
  | part uploadId number => Keys.part uploadId number
  | orphan blobId => Keys.orphan blobId
  | user username => Keys.user username
  | accessKey accessKeyId => Keys.accessKey accessKeyId
  | audit sequence => Keys.audit sequence
  | metaRow name => Keys.metaRow name

def tag : RowKey → UInt8
  | bucket .. => kBucket
  | object .. => kObject
  | uploadByKey .. => kUploadByKey
  | uploadById .. => kUploadById
  | part .. => kPart
  | orphan .. => kOrphan
  | user .. => kUser
  | accessKey .. => kAccessKey
  | audit .. => kAudit
  | metaRow .. => kMeta

/-- No bucket name, object key or upload id in it has a separator. -/
def NulFree : RowKey → Prop
  | bucket name => separator ∉ name
  | object bucketName key => separator ∉ bucketName ∧ separator ∉ key
  | uploadByKey bucketName key uploadId =>
    separator ∉ bucketName ∧ separator ∉ key ∧ separator ∉ uploadId
  | uploadById uploadId => separator ∉ uploadId
  | part uploadId _ => separator ∉ uploadId
  | orphan _ | user _ | accessKey _ | audit _ | metaRow _ => True

theorem head?_stored (row : RowKey) : row.stored.head? = some row.tag := by
  cases row <;> rfl

/-- One key is of one kind of row, with one set of components. -/
theorem stored_injOn {first second : RowKey} (hfirst : first.NulFree) (hsecond : second.NulFree)
    (h : first.stored = second.stored) : first = second := by
  have htag : first.tag = second.tag := by
    have hhead := congrArg List.head? h
    rw [head?_stored, head?_stored] at hhead
    exact Option.some.inj hhead
  cases first <;> cases second <;> simp only [tag] at htag <;>
    try exact absurd htag (by decide)
  case bucket.bucket => exact congrArg bucket (List.cons.inj h).2
  case object.object firstName firstKey secondName secondKey =>
    have hrest : firstName ++ separator :: firstKey = secondName ++ separator :: secondKey := by
      simpa [stored, Keys.object, objectPrefix] using h
    obtain ⟨hname, hkey⟩ := append_separator_inj hfirst.1 hsecond.1 hrest
    exact congrArg₂ object hname hkey
  case uploadByKey.uploadByKey firstName firstKey firstId secondName secondKey secondId =>
    have hrest : firstName ++ separator :: (firstKey ++ separator :: firstId) =
        secondName ++ separator :: (secondKey ++ separator :: secondId) := by
      simpa [stored, Keys.uploadByKey, uploadByKeyPrefix] using h
    obtain ⟨rfl, hbehind⟩ := append_separator_inj hfirst.1 hsecond.1 hrest
    obtain ⟨rfl, rfl⟩ := append_separator_inj hfirst.2.1 hsecond.2.1 hbehind
    rfl
  case uploadById.uploadById => exact congrArg uploadById (List.cons.inj h).2
  case part.part =>
    obtain ⟨hid, hnumber⟩ := part_inj h
    exact congrArg₂ part hid hnumber
  case orphan.orphan => exact congrArg orphan (List.cons.inj h).2
  case user.user => exact congrArg user (List.cons.inj h).2
  case accessKey.accessKey => exact congrArg accessKey (List.cons.inj h).2
  case audit.audit => exact congrArg audit (audit_inj h)
  case metaRow.metaRow => exact congrArg metaRow (List.cons.inj h).2

end RowKey

/-- The keys under a prefix are those between it and its upper bound. No two rows share a key:
neither two of different kinds nor two of one kind with other components. The parsers read a key
as exactly what it is built from, and the rows of parts and of audit entries are in the order of
their numbers. -/
theorem keys_are_ordered_and_unambiguous :
    (∀ front stored : Bytes, front <+: stored ↔
        front ≤ stored ∧
          (upperBound front = none ∨ ∃ bound, upperBound front = some bound ∧ stored < bound)) ∧
      (∀ first second : RowKey, first.NulFree → second.NulFree → first.stored = second.stored →
        first = second) ∧
      (∀ stored bucketName key : Bytes,
        objectKey stored bucketName = some key ↔ stored = object bucketName key) ∧
      (∀ stored bucketName key uploadId : Bytes,
        uploadKeyParts stored bucketName = some ⟨key, uploadId⟩ ↔
          stored = uploadByKey bucketName key uploadId ∧ separator ∉ uploadId) ∧
      (∀ (stored uploadId : Bytes) (number : UInt32),
        partNumber stored uploadId = some number ↔ stored = part uploadId number) ∧
      (∀ (stored : Bytes) (sequence : UInt64),
        auditSequence stored = some sequence ↔ stored = audit sequence) ∧
      (∀ (uploadId : Bytes) (first second : UInt32),
        part uploadId first < part uploadId second ↔ first < second) ∧
      ∀ first second : UInt64, audit first < audit second ↔ first < second := by
  refine ⟨fun front stored => ?_, fun _ _ => RowKey.stored_injOn, fun _ _ _ => objectKey_eq_some_iff,
    fun _ _ _ _ => uploadKeyParts_eq_some_iff, fun _ _ _ => partNumber_eq_some_iff,
    fun _ _ => auditSequence_eq_some_iff, fun _ _ _ => part_lt_part, fun _ _ => audit_lt_audit⟩
  rw [isPrefix_iff_upperBound]
  cases upperBound front with
  | none => simp
  | some bound => simp

end MonoBucket.Keys

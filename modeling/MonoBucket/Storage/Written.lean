/-
The rows the server writes

`Written` says which value a key may hold: the encoding of a record of the kind
its tag names, with the records the decoder bounds restricted to those it reads
back. Over rows that are all so, no read fails and neither does a start.
-/

import MonoBucket.Storage.BucketRows

namespace MonoBucket

open Codec

/-- The rows the server writes, one constructor a kind. `P` restricts bucket
records. -/
inductive Written (P : BucketRecord → Prop) : Bytes → Bytes → Prop
  | bucket (record : BucketRecord) (h : P record) :
      Written P (Keys.bucket record.name) (encodeBucket record)
  | object (bucket : Bytes) (record : ObjectRecord) :
      Written P (Keys.object bucket record.key) (encodeObject record)
  | uploadById (record : UploadRecord) :
      Written P (Keys.uploadById record.uploadId) (encodeUpload record)
  | uploadByKey (bucket key uploadId : Bytes) :
      Written P (Keys.uploadByKey bucket key uploadId) []
  | part (uploadId : Bytes) (record : PartRecord) :
      Written P (Keys.part uploadId record.partNumber) (encodePart record)
  | orphan (blobId : Bytes) (queuedAt : TimestampMs) :
      Written P (Keys.orphan blobId) (encodeOrphan queuedAt)
  | admin (record : AdminRecord) : Written P (Keys.metaRow adminName) (encodeAdmin record)
  | settings (record : InstanceSettings) :
      Written P (Keys.metaRow settingsName) (encodeSettings record)
  | formatVersion :
      Written P (Keys.metaRow formatVersionName) (decimal storageFormatVersion.toNat)
  | accessKey (record : AccessKeyRecord) :
      Written P (Keys.accessKey record.accessKeyId) (encodeAccessKey record)
  | user (record : UserRecord) (h : record.Storable) :
      Written P (Keys.user record.username) (encodeUser record)
  | audit (record : AuditRecord) : Written P (Keys.audit record.sequence) (encodeAudit record)

namespace Written

variable {P : BucketRecord → Prop} {key stored : Bytes}

/-! ### The value under a key of each kind -/

/-- A written row with a bucket's tag: every other kind has another tag. The
same holds of each kind below. -/
theorem bucket_inv (h : Written P key stored) (hkey : key.head? = some Keys.kBucket) :
    ∃ record : BucketRecord, key = Keys.bucket record.name ∧ stored = encodeBucket record ∧
      P record := by
  cases h with
  | bucket record h => exact ⟨record, rfl, rfl, h⟩
  | _ => exact absurd (Option.some.inj hkey) (by decide)

theorem object_inv (h : Written P key stored) (hkey : key.head? = some Keys.kObject) :
    ∃ record, stored = encodeObject record := by
  cases h with
  | object bucket record => exact ⟨record, rfl⟩
  | _ => exact absurd (Option.some.inj hkey) (by decide)

theorem uploadById_inv (h : Written P key stored) (hkey : key.head? = some Keys.kUploadById) :
    ∃ record, stored = encodeUpload record := by
  cases h with
  | uploadById record => exact ⟨record, rfl⟩
  | _ => exact absurd (Option.some.inj hkey) (by decide)

theorem part_inv (h : Written P key stored) (hkey : key.head? = some Keys.kPart) :
    ∃ record, stored = encodePart record := by
  cases h with
  | part uploadId record => exact ⟨record, rfl⟩
  | _ => exact absurd (Option.some.inj hkey) (by decide)

theorem accessKey_inv (h : Written P key stored) (hkey : key.head? = some Keys.kAccessKey) :
    ∃ record, stored = encodeAccessKey record := by
  cases h with
  | accessKey record => exact ⟨record, rfl⟩
  | _ => exact absurd (Option.some.inj hkey) (by decide)

theorem user_inv (h : Written P key stored) (hkey : key.head? = some Keys.kUser) :
    ∃ record : UserRecord, stored = encodeUser record ∧ record.Storable := by
  cases h with
  | user record h => exact ⟨record, rfl, h⟩
  | _ => exact absurd (Option.some.inj hkey) (by decide)

theorem audit_inv (h : Written P key stored) (hkey : key.head? = some Keys.kAudit) :
    ∃ record, stored = encodeAudit record := by
  cases h with
  | audit record => exact ⟨record, rfl⟩
  | _ => exact absurd (Option.some.inj hkey) (by decide)

theorem admin_inv (h : Written P key stored) (hkey : key = Keys.metaRow adminName) :
    ∃ record, stored = encodeAdmin record := by
  cases h with
  | admin record => exact ⟨record, rfl⟩
  | settings record => exact absurd hkey (by decide)
  | formatVersion => exact absurd hkey (by decide)
  | _ => exact absurd (Option.some.inj (congrArg List.head? hkey)) (by decide)

theorem settings_inv (h : Written P key stored) (hkey : key = Keys.metaRow settingsName) :
    ∃ record, stored = encodeSettings record := by
  cases h with
  | settings record => exact ⟨record, rfl⟩
  | admin record => exact absurd hkey (by decide)
  | formatVersion => exact absurd hkey (by decide)
  | _ => exact absurd (Option.some.inj (congrArg List.head? hkey)) (by decide)

theorem formatVersion_inv (h : Written P key stored)
    (hkey : key = Keys.metaRow formatVersionName) :
    stored = decimal storageFormatVersion.toNat := by
  cases h with
  | formatVersion => rfl
  | admin record => exact absurd hkey (by decide)
  | settings record => exact absurd hkey (by decide)
  | _ => exact absurd (Option.some.inj (congrArg List.head? hkey)) (by decide)

end Written

/-! ### Decoding a written row

A record's key-derived field is not in its row, so a row decodes under whatever
key it is found. -/

section Decoding

variable {P : BucketRecord → Prop} {key stored : Bytes}

theorem Written.decodeBucket (hP : ∀ record, P record → record.Storable)
    (h : Written P key stored) (hkey : key.head? = some Keys.kBucket) (name : Bytes) :
    (decodeBucket name stored).Returns := by
  obtain ⟨record, -, rfl, hrecord⟩ := h.bucket_inv hkey
  have hstorable := hP record hrecord
  have hrenamed : { record with name := name }.Storable :=
    ⟨hstorable.ruleCount, hstorable.listsFit, hstorable.maxAges⟩
  exact ⟨_, (decodeBucket_encodeBucket_iff { record with name := name }).mpr hrenamed⟩

theorem Written.decodeObject (h : Written P key stored) (hkey : key.head? = some Keys.kObject)
    (name : Bytes) : (decodeObject name stored).Returns := by
  obtain ⟨record, rfl⟩ := h.object_inv hkey
  exact ⟨_, decodeObject_encodeObject { record with key := name }⟩

theorem Written.decodeUpload (h : Written P key stored)
    (hkey : key.head? = some Keys.kUploadById) (uploadId : Bytes) :
    (decodeUpload uploadId stored).Returns := by
  obtain ⟨record, rfl⟩ := h.uploadById_inv hkey
  exact ⟨_, decodeUpload_encodeUpload { record with uploadId := uploadId }⟩

theorem Written.decodePart (h : Written P key stored) (hkey : key.head? = some Keys.kPart)
    (number : UInt32) : (decodePart number stored).Returns := by
  obtain ⟨record, rfl⟩ := h.part_inv hkey
  exact ⟨_, decodePart_encodePart { record with partNumber := number }⟩

theorem Written.decodeAccessKey (h : Written P key stored)
    (hkey : key.head? = some Keys.kAccessKey) (accessKeyId : Bytes) :
    (decodeAccessKey accessKeyId stored).Returns := by
  obtain ⟨record, rfl⟩ := h.accessKey_inv hkey
  exact ⟨_, decodeAccessKey_encodeAccessKey { record with accessKeyId := accessKeyId }⟩

theorem Written.decodeUser (h : Written P key stored) (hkey : key.head? = some Keys.kUser)
    (username : Bytes) : (decodeUser username stored).Returns := by
  obtain ⟨record, rfl, hstorable⟩ := h.user_inv hkey
  exact ⟨_, (decodeUser_encodeUser_iff { record with username := username }).mpr hstorable⟩

theorem Written.decodeAudit (h : Written P key stored) (hkey : key.head? = some Keys.kAudit)
    (sequence : UInt64) : (decodeAudit sequence stored).Returns := by
  obtain ⟨record, rfl⟩ := h.audit_inv hkey
  exact ⟨_, decodeAudit_encodeAudit { record with sequence := sequence }⟩

end Decoding

/-! ### Reads over written rows -/

section Reads

variable {α : Type} {rows : Rows} {key : Bytes}

theorem readRow_returns {decode : Bytes → Except DecodeError α}
    (h : ∀ stored, rows.find? key = some stored → (decode stored).Returns) :
    (readRow rows key decode).Returns := by
  rw [readRow]
  split
  · exact ⟨none, rfl⟩
  · rename_i stored hfind
    obtain ⟨value, hvalue⟩ := h stored hfind
    exact ⟨some value, by rw [hvalue]; rfl⟩

theorem readAll_returns {decode : Bytes → Bytes → Except DecodeError (Option α)}
    {listed : List (Bytes × Bytes)} (h : ∀ row ∈ listed, (decode row.1 row.2).Returns) :
    (readAll decode listed).Returns := by
  induction listed with
  | nil => exact ⟨[], rfl⟩
  | cons row rest ih =>
      obtain ⟨value, hvalue⟩ := h row (List.mem_cons_self ..)
      have hfirst : (decoded (decode row.1 row.2)).Returns := ⟨value, by rw [hvalue]; rfl⟩
      apply hfirst.bind
      intro _
      apply (ih fun other hother => h other (List.mem_cons_of_mem _ hother)).bind
      exact fun _ => ⟨_, rfl⟩

/-- A scan of a kind whose rows decode under any name. -/
theorem readAll_behind_returns {front : Bytes} {decode : Bytes → Bytes → Except DecodeError α}
    (h : ∀ row ∈ rows.entries, front <+: row.1 → ∀ name, (decode name row.2).Returns) :
    (readAll (behind front decode) (rows.scan front)).Returns := by
  apply readAll_returns
  intro row hrow
  obtain ⟨hentry, hfront⟩ := Rows.mem_scan.mp hrow
  exact (h row hentry hfront _).map some

end Reads

theorem head?_of_tag_front {tag : UInt8} {key : Bytes} (h : [tag] <+: key) :
    key.head? = some tag := by
  obtain ⟨rest, rfl⟩ := h
  rfl

section WrittenRows

variable {P : BucketRecord → Prop} {rows : Rows}

/-- The size of a payload is readable from the front of an object's row. -/
theorem decodePayloadSize_encodeObject (object : ObjectRecord) :
    runOn decodePayloadSize (encodeObject object) = .ok object.size := by
  have hfields : Decodes decodePayloadSize
      (Writer.u8 recordVersion ++ (Writer.string object.blobId ++ Writer.varint object.size))
      object.size := by
    apply decodes_expectVersion.bind
    apply (decodes_string _).bind
    exact decodes_varint _
  have h := hfields.runOn_append [Writer.string object.etag, Writer.string object.sha256,
    Writer.string object.contentType, Writer.timestamp object.lastModified,
    encodeMetadata object.userMetadata, encodeChecksum object.checksum,
    encodeContentHeaders object.content].flatten
  simpa [encodeObject] using h

/-- And from the front of a part's. -/
theorem decodePayloadSize_encodePart (part : PartRecord) :
    runOn decodePayloadSize (encodePart part) = .ok part.size := by
  have hfields : Decodes decodePayloadSize
      (Writer.u8 recordVersion ++ (Writer.string part.blobId ++ Writer.varint part.size))
      part.size := by
    apply decodes_expectVersion.bind
    apply (decodes_string _).bind
    exact decodes_varint _
  have h := hfields.runOn_append [Writer.string part.etag, Writer.timestamp part.uploadedAt,
    encodeChecksum part.checksum].flatten
  simpa [encodePart] using h

/-- The startup scan reads every written row. -/
theorem scanRow_returns {row : Bytes × Bytes} (h : Written P row.1 row.2) (scan : MetadataScan) :
    (scan.scanRow row).Returns := by
  obtain ⟨key, stored⟩ := row
  cases h with
  | object bucket record =>
      have hsize := decodePayloadSize_encodeObject record
      exact Except.Returns.bind ⟨_, hsize⟩ fun _ => ⟨_, rfl⟩
  | uploadById record =>
      have hupload := decodeUpload_encodeUpload record
      exact Except.Returns.bind ⟨_, hupload⟩ fun _ => ⟨_, rfl⟩
  | part uploadId record =>
      have hsize := decodePayloadSize_encodePart record
      have hpart : (scan.scanPart (uploadId ++ [Keys.separator] ++
          Keys.bigEndian32 record.partNumber) (encodePart record)).Returns := by
        rw [MetadataScan.scanPart]
        split
        · exact ⟨_, rfl⟩
        · exact Except.Returns.bind ⟨_, hsize⟩ fun _ => ⟨_, rfl⟩
      exact hpart
  | _ => exact ⟨_, rfl⟩

theorem scanRows_returns {listed : List (Bytes × Bytes)}
    (h : ∀ row ∈ listed, Written P row.1 row.2) (scan : MetadataScan) :
    (scanRows scan listed).Returns := by
  induction listed generalizing scan with
  | nil => exact ⟨scan, rfl⟩
  | cons row rest ih =>
      obtain ⟨value, hvalue⟩ := scanRow_returns (h row (List.mem_cons_self ..)) scan
      have hfirst : (decoded (scan.scanRow row)).Returns := ⟨value, by rw [hvalue]; rfl⟩
      apply hfirst.bind
      intro next
      exact ih (fun other hother => h other (List.mem_cons_of_mem _ hother)) next

/-! ### Reads of the store -/

theorem listBuckets_returns (hP : ∀ record, P record → record.Storable)
    (hrows : rows.Holds (Written P)) : (listBuckets rows).Returns :=
  readAll_behind_returns fun _ hrow hfront =>
    (hrows.of_mem hrow).decodeBucket hP (head?_of_tag_front hfront)

theorem loadUpload_returns (hrows : rows.Holds (Written P)) (uploadId : Bytes) :
    (loadUpload rows uploadId).Returns :=
  readRow_returns fun stored hfind => (hrows _ stored hfind).decodeUpload rfl uploadId

theorem collectParts_returns (hrows : rows.Holds (Written P)) (uploadId : Bytes) :
    (collectParts rows uploadId).Returns := by
  apply readAll_returns
  intro row hrow
  obtain ⟨hentry, hfront⟩ := Rows.mem_scan.mp hrow
  have htag : row.1.head? = some Keys.kPart :=
    head?_of_tag_front ((List.prefix_append ..).trans hfront)
  rw [decodePartRow]
  split
  · exact ⟨none, rfl⟩
  · exact ((hrows.of_mem hentry).decodePart htag _).map some

/-! ### Batches of the store -/

/-- What a publishing batch puts: the row, and a marker for what it released. -/
theorem holds_publishBatch (hrows : rows.Holds (Written P)) {key value blobId : Bytes}
    (hrow : Written P key value) (released : Option Bytes) (now : TimestampMs) :
    (rows.write (publishBatch key value blobId released now)).Holds (Written P) := by
  apply hrows.write
  intro other stored hput
  simp only [publishBatch, List.mem_append, List.mem_cons, List.mem_map, RowOp.put.injEq,
    reduceCtorEq, List.not_mem_nil, or_false] at hput
  rcases hput with ⟨rfl, rfl⟩ | ⟨blobId, -, hmarker⟩
  · exact hrow
  · obtain ⟨rfl, rfl⟩ := RowOp.put.inj hmarker
    exact Written.orphan blobId now

/-- Dropping parts puts nothing but markers. -/
theorem holds_releasePartsBatch (hrows : rows.Holds (Written P)) (uploadId : Bytes)
    (parts : List PartRecord) (now : TimestampMs) :
    (rows.write (releasePartsBatch uploadId parts now)).Holds (Written P) := by
  apply hrows.write
  intro other stored hput
  obtain ⟨part, -, hpart⟩ := List.mem_flatMap.mp hput
  simp only [orphanRow, List.mem_cons, reduceCtorEq, RowOp.put.injEq, List.not_mem_nil, or_false,
    false_or] at hpart
  obtain ⟨rfl, rfl⟩ := hpart
  exact Written.orphan part.blobId.items now

theorem holds_dropUploadBatch (hrows : rows.Holds (Written P)) (upload : UploadRecord) :
    (rows.write (dropUploadBatch upload)).Holds (Written P) :=
  hrows.write (by simp [dropUploadBatch])

theorem holds_putObjectBatch (hrows : rows.Holds (Written P)) (bucket : Bytes)
    (object : ObjectRecord) (previous : Option ObjectRecord) (now : TimestampMs) :
    (rows.write (putObjectBatch bucket object previous now)).Holds (Written P) :=
  holds_publishBatch hrows (Written.object bucket object) _ now

theorem holds_deleteObjectBatch (hrows : rows.Holds (Written P)) (bucket key : Bytes)
    (existing : ObjectRecord) (now : TimestampMs) :
    (rows.write (deleteObjectBatch bucket key existing now)).Holds (Written P) := by
  apply hrows.write
  intro other stored hput
  simp only [deleteObjectBatch, orphanRow, List.mem_cons, reduceCtorEq, RowOp.put.injEq,
    List.not_mem_nil, or_false, false_or] at hput
  obtain ⟨rfl, rfl⟩ := hput
  exact Written.orphan _ now

theorem holds_createUploadBatch (hrows : rows.Holds (Written P)) (upload : UploadRecord) :
    (rows.write (createUploadBatch upload)).Holds (Written P) := by
  apply hrows.write
  intro other stored hput
  simp only [createUploadBatch, List.mem_cons, RowOp.put.injEq, List.not_mem_nil, or_false] at hput
  rcases hput with ⟨rfl, rfl⟩ | ⟨rfl, rfl⟩
  · exact Written.uploadById upload
  · exact Written.uploadByKey _ _ _

theorem holds_putPartBatch (hrows : rows.Holds (Written P)) (uploadId : Bytes) (part : PartRecord)
    (previous : Option PartRecord) (now : TimestampMs) :
    (rows.write (putPartBatch uploadId part previous now)).Holds (Written P) :=
  holds_publishBatch hrows (Written.part uploadId part) _ now

theorem holds_abortUploadBatch (hrows : rows.Holds (Written P)) (upload : UploadRecord)
    (parts : List PartRecord) (now : TimestampMs) :
    (rows.write (abortUploadBatch upload parts now)).Holds (Written P) := by
  rw [abortUploadBatch, Rows.write_append]
  exact holds_dropUploadBatch (holds_releasePartsBatch hrows _ parts now) upload

theorem holds_completeUploadBatch (hrows : rows.Holds (Written P)) (bucket : Bytes)
    (upload : UploadRecord) (object : ObjectRecord) (previous : Option ObjectRecord)
    (parts : List PartRecord) (now : TimestampMs) :
    (rows.write (completeUploadBatch bucket upload object previous parts now)).Holds
      (Written P) := by
  rw [completeUploadBatch, Rows.write_append, Rows.write_append]
  have hobject := holds_putObjectBatch hrows bucket object previous now
  exact holds_dropUploadBatch (holds_releasePartsBatch hobject _ parts now) upload

theorem holds_forgetOrphans {store : MetadataStore} (hrows : store.rows.Holds (Written P))
    (blobIds : List Bytes) : (forgetOrphans store blobIds).rows.Holds (Written P) := by
  rw [rows_forgetOrphans]
  exact hrows.write (by simp)

theorem holds_putRow {store : MetadataStore} (hrows : store.rows.Holds (Written P))
    {key value : Bytes} (hrow : Written P key value) :
    (putRow store key value).rows.Holds (Written P) := by
  apply hrows.write
  intro other stored hput
  obtain ⟨rfl, rfl⟩ := RowOp.put.inj (List.mem_singleton.mp hput)
  exact hrow

theorem holds_deleteRow {store : MetadataStore} (hrows : store.rows.Holds (Written P))
    (key : Bytes) : (deleteRow store key).rows.Holds (Written P) :=
  hrows.write (by simp)

theorem holds_appendAudit {store : MetadataStore} (hrows : store.rows.Holds (Written P))
    (entry : AuditRecord) : (appendAudit store entry).1.rows.Holds (Written P) := by
  apply hrows.write
  intro key value hput
  have hfirst : RowOp.put key value =
      .put (Keys.audit (store.auditSequence + 1)) (encodeAudit entry) := by
    rcases List.mem_cons.mp hput with hput | hput
    · exact hput
    · split_ifs at hput <;> simp at hput
  obtain ⟨rfl, rfl⟩ := RowOp.put.inj hfirst
  exact Written.audit { entry with sequence := store.auditSequence + 1 }

end WrittenRows

end MonoBucket

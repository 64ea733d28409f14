/-
The metadata store

`RocksMetadataStore` read function by function: the point reads and scans over
the rows, the batch each mutation builds, and the mutations as they run when
nothing else is running. What happens when several run at once is the subject
of `Storage.StoreCall`, whose steps use the same reads and the same batches.

A mutation that throws leaves the store it was given, because it throws before
its batch. The counters are the atomics behind `usage()`; they wrap.
-/

import MonoBucket.Lib.Checked
import MonoBucket.Storage.RecordCodec
import MonoBucket.Storage.Rows

namespace MonoBucket

open Codec

/-! ### Errors -/

inductive StorageErrorCode
  | noSuchBucket
  | noSuchKey
  | noSuchUpload
  | bucketAlreadyExists
  | bucketNotEmpty
  | invalidPart
  | quotaExceeded
  | quotaBelowUsage
  | objectTooLarge
  | checksumMismatch
  | insufficientCapacity
  | corruption
  | io
  | internal
  deriving DecidableEq, Repr

/-- What an operation throws: a `StorageError` with its text, or a record that
does not decode. -/
inductive StoreError
  | storage (code : StorageErrorCode) (what : Bytes)
  | decode (error : DecodeError)
  deriving DecidableEq

/-- `fail(code, what)`. -/
def fail {α : Type} (code : StorageErrorCode) (what : Bytes) : Except StoreError α :=
  .error (.storage code what)

/-- `std::to_string`. -/
def decimal (value : Nat) : Bytes := ascii (toString value)

def noSuchBucket {α : Type} (name : Bytes) : Except StoreError α :=
  fail .noSuchBucket (ascii "no such bucket: " ++ name)

def noSuchUpload {α : Type} (uploadId : Bytes) : Except StoreError α :=
  fail .noSuchUpload (ascii "no such upload: " ++ uploadId)

def decoded {α : Type} : Except DecodeError α → Except StoreError α
  | .ok value => .ok value
  | .error error => .error (.decode error)

/-! ### Reads -/

/-- A point read: nothing when there is no row, and what the decoder says when
there is one. -/
def readRow {α : Type} (rows : Rows) (key : Bytes) (decode : Bytes → Except DecodeError α) :
    Except StoreError (Option α) :=
  match rows.find? key with
  | none => .ok none
  | some stored => (decoded (decode stored)).map some

theorem readRow_congr {α : Type} {first second : Rows} {key : Bytes}
    {decode : Bytes → Except DecodeError α} (h : first.find? key = second.find? key) :
    readRow first key decode = readRow second key decode := by
  rw [readRow, readRow, h]

theorem readRow_of_find? {α : Type} {rows : Rows} {key stored : Bytes}
    {decode : Bytes → Except DecodeError α} {record : α} (hfind : rows.find? key = some stored)
    (hdecode : decode stored = .ok record) : readRow rows key decode = .ok (some record) := by
  rw [readRow, hfind]
  simp [hdecode, decoded, Except.map]

/-- A read that finds a record decoded the row that is there. -/
theorem decode_of_readRow {α : Type} {rows : Rows} {key : Bytes}
    {decode : Bytes → Except DecodeError α} {record : α}
    (h : readRow rows key decode = .ok (some record)) :
    ∃ stored, rows.find? key = some stored ∧ decode stored = .ok record := by
  rw [readRow] at h
  split at h
  · cases h
  · rename_i stored hfind
    refine ⟨stored, hfind, ?_⟩
    cases hdecode : decode stored with
    | error error => simp [hdecode, decoded, Except.map] at h
    | ok found =>
        simp only [hdecode, decoded, Except.map, Except.ok.injEq, Option.some.injEq] at h
        rw [h]

def loadBucket (rows : Rows) (name : Bytes) : Except StoreError (Option BucketRecord) :=
  readRow rows (Keys.bucket name) (decodeBucket name)

def requireBucket (rows : Rows) (name : Bytes) : Except StoreError Unit :=
  match rows.find? (Keys.bucket name) with
  | none => noSuchBucket name
  | some _ => .ok ()

def loadObject (rows : Rows) (storedKey key : Bytes) : Except StoreError (Option ObjectRecord) :=
  readRow rows storedKey (decodeObject key)

def loadUpload (rows : Rows) (uploadId : Bytes) : Except StoreError (Option UploadRecord) :=
  readRow rows (Keys.uploadById uploadId) (decodeUpload uploadId)

theorem uploadId_of_loadUpload {rows : Rows} {uploadId : Bytes} {upload : UploadRecord}
    (h : loadUpload rows uploadId = .ok (some upload)) : upload.uploadId = uploadId := by
  obtain ⟨stored, -, hdecode⟩ := decode_of_readRow h
  exact uploadId_of_decodeUpload hdecode

/-- The part row `putPart` is about to replace. -/
def loadPart (rows : Rows) (uploadId : Bytes) (number : UInt32) :
    Except StoreError (Option PartRecord) :=
  readRow rows (Keys.part uploadId number) (decodePart number)

def getUser (rows : Rows) (username : Bytes) : Except StoreError (Option UserRecord) :=
  if username = [] then .ok none else readRow rows (Keys.user username) (decodeUser username)

def adminName : Bytes := ascii "admin"

def settingsName : Bytes := ascii "settings"

def getAdmin (rows : Rows) : Except StoreError (Option AdminRecord) :=
  readRow rows (Keys.metaRow adminName) decodeAdmin

def getInstanceSettings (rows : Rows) : Except StoreError (Option InstanceSettings) :=
  readRow rows (Keys.metaRow settingsName) decodeSettings

def getAccessKey (rows : Rows) (accessKeyId : Bytes) :
    Except StoreError (Option AccessKeyRecord) :=
  if accessKeyId = [] then .ok none
  else readRow rows (Keys.accessKey accessKeyId) (decodeAccessKey accessKeyId)

/-- Decode every row of a scan, in order; the first that does not decode ends it. -/
def readAll {α : Type} (decode : Bytes → Bytes → Except DecodeError (Option α)) :
    List (Bytes × Bytes) → Except StoreError (List α)
  | [] => .ok []
  | row :: rest => do
    let entry ← decoded (decode row.1 row.2)
    let others ← readAll decode rest
    pure (entry.toList ++ others)

/-- A decoder of rows under a prefix, given the key behind the prefix. -/
def behind {α : Type} (front : Bytes) (decode : Bytes → Bytes → Except DecodeError α)
    (key stored : Bytes) : Except DecodeError (Option α) :=
  (decode (key.drop front.length) stored).map some

def listBuckets (rows : Rows) : Except StoreError (List BucketRecord) :=
  readAll (behind Keys.bucketPrefix decodeBucket) (rows.scan Keys.bucketPrefix)

def listUsers (rows : Rows) : Except StoreError (List UserRecord) :=
  readAll (behind Keys.userPrefix decodeUser) (rows.scan Keys.userPrefix)

/-- An account that can repair the others. -/
def UserRecord.enabledAdministrator (user : UserRecord) : Bool :=
  !user.disabled && user.role = .administrator

def countEnabledAdministrators (rows : Rows) : Except StoreError Nat :=
  (listUsers rows).map (List.countP UserRecord.enabledAdministrator)

def listAccessKeys (rows : Rows) : Except StoreError (List AccessKeyRecord) :=
  readAll (behind Keys.accessKeyPrefix decodeAccessKey) (rows.scan Keys.accessKeyPrefix)

/-- A row under a part prefix; a key without a part number is passed over. -/
def decodePartRow (uploadId key stored : Bytes) : Except DecodeError (Option PartRecord) :=
  match Keys.partNumber key uploadId with
  | none => .ok none
  | some number => (decodePart number stored).map some

def collectParts (rows : Rows) (uploadId : Bytes) : Except StoreError (List PartRecord) :=
  readAll (decodePartRow uploadId) (rows.scan (Keys.partPrefix uploadId))

def listParts (rows : Rows) (uploadId : Bytes) : Except StoreError (List PartRecord) := do
  match ← loadUpload rows uploadId with
  | none => noSuchUpload uploadId
  | some _ => collectParts rows uploadId

/-- Newest first, back from the last possible audit key to the first row that is
not one. -/
def listAudit (rows : Rows) (limit : Nat) : Except StoreError (List AuditRecord) :=
  readAll
    (fun key stored =>
      match Keys.auditSequence key with
      | none => .ok none
      | some sequence => (decodeAudit sequence stored).map some)
    (((rows.entries.filter fun row => row.1 ≤ Keys.audit (0 - 1)).reverse.takeWhile fun row =>
      (Keys.auditSequence row.1).isSome).take limit)

/-! ### State -/

/-- The atomics behind `usage()`. -/
structure Counters where
  buckets : UInt64 := 0
  objects : UInt64 := 0
  bytes : UInt64 := 0
  uploads : UInt64 := 0
  orphans : UInt64 := 0
  deriving DecidableEq

structure MetadataStore where
  rows : Rows := .empty
  counters : Counters := {}
  auditSequence : UInt64 := 0
  deriving DecidableEq

instance : Inhabited MetadataStore := ⟨{}⟩

/-! ### Buckets -/

def createBucket (store : MetadataStore) (bucket : BucketRecord) :
    Except StoreError MetadataStore :=
  match store.rows.find? (Keys.bucket bucket.name) with
  | some _ =>
    fail .bucketAlreadyExists (ascii "bucket \x27" ++ bucket.name ++ ascii "\x27 already exists")
  | none =>
    .ok
      { store with
        rows := store.rows.write [.put (Keys.bucket bucket.name) (encodeBucket bucket)]
        counters := { store.counters with buckets := store.counters.buckets + 1 } }

def deleteBucket (store : MetadataStore) (name : Bytes) : Except StoreError MetadataStore := do
  match ← loadBucket store.rows name with
  | none => noSuchBucket name
  | some _ =>
    if store.rows.hasAny (Keys.objectPrefix name) then
      fail .bucketNotEmpty (ascii "bucket \x27" ++ name ++ ascii "\x27 still contains objects")
    else if store.rows.hasAny (Keys.uploadByKeyPrefix name) then
      fail .bucketNotEmpty (ascii "bucket \x27" ++ name ++ ascii "\x27 has multipart uploads in progress")
    else
      pure
        { store with
          rows := store.rows.write [.delete (Keys.bucket name)]
          counters := { store.counters with buckets := store.counters.buckets - 1 } }

def updateBucket (store : MetadataStore) (bucket : BucketRecord) :
    Except StoreError MetadataStore := do
  match ← loadBucket store.rows bucket.name with
  | none => noSuchBucket bucket.name
  | some _ =>
    pure
      { store with rows := store.rows.write [.put (Keys.bucket bucket.name) (encodeBucket bucket)] }

/-! ### Identity, settings and the audit log -/

def putRow (store : MetadataStore) (key value : Bytes) : MetadataStore :=
  { store with rows := store.rows.write [.put key value] }

def deleteRow (store : MetadataStore) (key : Bytes) : MetadataStore :=
  { store with rows := store.rows.write [.delete key] }

def putUser (store : MetadataStore) (user : UserRecord) : MetadataStore :=
  putRow store (Keys.user user.username) (encodeUser user)

/-- The result says whether there was a row to delete. -/
def deleteUser (store : MetadataStore) (username : Bytes) : MetadataStore × Bool :=
  match store.rows.find? (Keys.user username) with
  | none => (store, false)
  | some _ => (deleteRow store (Keys.user username), true)

def putAdmin (store : MetadataStore) (admin : AdminRecord) : MetadataStore :=
  putRow store (Keys.metaRow adminName) (encodeAdmin admin)

def deleteAdmin (store : MetadataStore) : MetadataStore := deleteRow store (Keys.metaRow adminName)

def putInstanceSettings (store : MetadataStore) (settings : InstanceSettings) : MetadataStore :=
  putRow store (Keys.metaRow settingsName) (encodeSettings settings)

def putAccessKey (store : MetadataStore) (key : AccessKeyRecord) : MetadataStore :=
  putRow store (Keys.accessKey key.accessKeyId) (encodeAccessKey key)

def deleteAccessKey (store : MetadataStore) (accessKeyId : Bytes) : MetadataStore × Bool :=
  match store.rows.find? (Keys.accessKey accessKeyId) with
  | none => (store, false)
  | some _ => (deleteRow store (Keys.accessKey accessKeyId), true)

/-- How many audit entries the ring keeps. -/
def auditCapacity : UInt64 := 20000

def appendAudit (store : MetadataStore) (entry : AuditRecord) : MetadataStore × UInt64 :=
  let sequence := store.auditSequence + 1
  let batch := RowOp.put (Keys.audit sequence) (encodeAudit entry) ::
    if auditCapacity < sequence then [.delete (Keys.audit (sequence - auditCapacity))] else []
  ({ store with rows := store.rows.write batch, auditSequence := sequence }, sequence)

/-! ### Objects -/

structure PutOutcome where
  releasedBlobId : Option Bytes := none
  replacedBytes : UInt64 := 0
  deriving DecidableEq

structure DeleteOutcome where
  existed : Bool := false
  releasedBlobId : Option Bytes := none
  releasedBytes : UInt64 := 0
  deriving DecidableEq

/-- The row of a payload owed to the reclaimer. -/
def orphanRow (blobId : Bytes) (now : TimestampMs) : RowOp :=
  .put (Keys.orphan blobId) (encodeOrphan now)

/-- Publish a payload under a key: the row, its own marker dropped, and a marker
for the payload it releases. -/
def publishBatch (storedKey value blobId : Bytes) (released : Option Bytes) (now : TimestampMs) :
    WriteBatch :=
  [.put storedKey value, .delete (Keys.orphan blobId)] ++
    released.toList.map fun blobId => orphanRow blobId now

def PutOutcome.ofObject (previous : Option ObjectRecord) : PutOutcome :=
  ⟨previous.map fun object => object.blobId.items, previous.elim 0 ObjectRecord.size⟩

def putObjectBatch (bucket : Bytes) (object : ObjectRecord) (previous : Option ObjectRecord)
    (now : TimestampMs) : WriteBatch :=
  publishBatch (Keys.object bucket object.key) (encodeObject object) object.blobId.items
    (PutOutcome.ofObject previous).releasedBlobId now

/-- The counters a publishing mutation moves before its batch. -/
def Counters.publishing (counters : Counters) (previous : Option ObjectRecord) : Counters :=
  match previous with
  | some object =>
    { counters with
      bytes := counters.bytes - object.size
      orphans := counters.orphans - 1 + 1 }
  | none =>
    { counters with
      objects := counters.objects + 1
      orphans := counters.orphans - 1 }

def putObject (store : MetadataStore) (bucket : Bytes) (object : ObjectRecord)
    (now : TimestampMs) : Except StoreError (MetadataStore × PutOutcome) := do
  requireBucket store.rows bucket
  let previous ← loadObject store.rows (Keys.object bucket object.key) object.key
  let counters := store.counters.publishing previous
  pure
    ({ store with
        rows := store.rows.write (putObjectBatch bucket object previous now)
        counters := { counters with bytes := counters.bytes + object.size } },
      PutOutcome.ofObject previous)

def getObject (rows : Rows) (bucket key : Bytes) : Except StoreError (Option ObjectRecord) :=
  loadObject rows (Keys.object bucket key) key

theorem key_of_getObject {rows : Rows} {bucket key : Bytes} {object : ObjectRecord}
    (h : getObject rows bucket key = .ok (some object)) : object.key = key := by
  obtain ⟨stored, -, hdecode⟩ := decode_of_readRow h
  exact key_of_decodeObject hdecode

def deleteObjectBatch (bucket key : Bytes) (existing : ObjectRecord) (now : TimestampMs) :
    WriteBatch :=
  [.delete (Keys.object bucket key), orphanRow existing.blobId.items now]

def DeleteOutcome.ofObject (existing : ObjectRecord) : DeleteOutcome :=
  ⟨true, some existing.blobId.items, existing.size⟩

def deleteObject (store : MetadataStore) (bucket key : Bytes) (now : TimestampMs) :
    Except StoreError (MetadataStore × DeleteOutcome) := do
  requireBucket store.rows bucket
  match ← loadObject store.rows (Keys.object bucket key) key with
  | none => pure (store, {})
  | some existing =>
    pure
      ({ store with
          rows := store.rows.write (deleteObjectBatch bucket key existing now)
          counters :=
            { store.counters with
              objects := store.counters.objects - 1
              bytes := store.counters.bytes - existing.size
              orphans := store.counters.orphans + 1 } },
        DeleteOutcome.ofObject existing)

/-! ### Multipart -/

structure AbortOutcome where
  bucket : Bytes
  releasedBlobIds : List Bytes
  releasedBytes : UInt64
  deriving DecidableEq

structure CompleteOutcome where
  releasedBlobId : Option Bytes
  replacedBytes : UInt64
  releasedPartBlobIds : List Bytes
  releasedPartBytes : UInt64
  deriving DecidableEq

def maxPartNumber : UInt32 := 10000

def createUploadBatch (upload : UploadRecord) : WriteBatch :=
  [.put (Keys.uploadById upload.uploadId) (encodeUpload upload),
    .put (Keys.uploadByKey upload.bucket.items upload.key.items upload.uploadId) []]

def createUpload (store : MetadataStore) (upload : UploadRecord) :
    Except StoreError MetadataStore := do
  requireBucket store.rows upload.bucket.items
  pure
    { store with
      rows := store.rows.write (createUploadBatch upload)
      counters := { store.counters with uploads := store.counters.uploads + 1 } }

def PutOutcome.ofPart (previous : Option PartRecord) : PutOutcome :=
  ⟨previous.map fun part => part.blobId.items, previous.elim 0 PartRecord.size⟩

def putPartBatch (uploadId : Bytes) (part : PartRecord) (previous : Option PartRecord)
    (now : TimestampMs) : WriteBatch :=
  publishBatch (Keys.part uploadId part.partNumber) (encodePart part) part.blobId.items
    (PutOutcome.ofPart previous).releasedBlobId now

def checkPartNumber (number : UInt32) : Except StoreError Unit :=
  if number = 0 ∨ maxPartNumber < number then
    fail .invalidPart (ascii "part number " ++ decimal number.toNat ++ ascii " is outside 1.." ++
      decimal maxPartNumber.toNat)
  else .ok ()

/-- What `putPart` does to the orphan counter before its batch. -/
def Counters.storingPart (counters : Counters) (previous : Option PartRecord) : Counters :=
  { counters with
    orphans := if previous.isSome then counters.orphans - 1 + 1 else counters.orphans - 1 }

def putPart (store : MetadataStore) (uploadId : Bytes) (part : PartRecord) (now : TimestampMs) :
    Except StoreError (MetadataStore × PutOutcome) := do
  checkPartNumber part.partNumber
  match ← loadUpload store.rows uploadId with
  | none => noSuchUpload uploadId
  | some _ =>
    let previous ← loadPart store.rows uploadId part.partNumber
    pure
      ({ store with
          rows := store.rows.write (putPartBatch uploadId part previous now)
          counters := store.counters.storingPart previous },
        PutOutcome.ofPart previous)

/-- The sum of part sizes, as the code adds them up. -/
def partBytes (parts : List PartRecord) : UInt64 :=
  parts.foldl (fun total part => total + part.size) 0

/-- Each part row dropped and its payload handed to the reclaimer. -/
def releasePartsBatch (uploadId : Bytes) (parts : List PartRecord) (now : TimestampMs) :
    WriteBatch :=
  parts.flatMap fun part =>
    [.delete (Keys.part uploadId part.partNumber), orphanRow part.blobId.items now]

/-- Both rows of an upload dropped. -/
def dropUploadBatch (upload : UploadRecord) : WriteBatch :=
  [.delete (Keys.uploadById upload.uploadId),
    .delete (Keys.uploadByKey upload.bucket.items upload.key.items upload.uploadId)]

def abortUploadBatch (upload : UploadRecord) (parts : List PartRecord) (now : TimestampMs) :
    WriteBatch :=
  releasePartsBatch upload.uploadId parts now ++ dropUploadBatch upload

def partBlobIds (parts : List PartRecord) : List Bytes :=
  parts.map fun part => part.blobId.items

def AbortOutcome.ofParts (upload : UploadRecord) (parts : List PartRecord) : AbortOutcome :=
  ⟨upload.bucket.items, partBlobIds parts, partBytes parts⟩

/-- The counters an abort or a completion moves after its batch. -/
def Counters.finished (counters : Counters) (parts : List PartRecord) : Counters :=
  { counters with
    uploads := counters.uploads - 1
    orphans := counters.orphans + parts.length.toUInt64 }

def abortUpload (store : MetadataStore) (uploadId : Bytes) (now : TimestampMs) :
    Except StoreError (MetadataStore × AbortOutcome) := do
  match ← loadUpload store.rows uploadId with
  | none => noSuchUpload uploadId
  | some upload =>
    let parts ← collectParts store.rows uploadId
    pure
      ({ store with
          rows := store.rows.write (abortUploadBatch upload parts now)
          counters := store.counters.finished parts },
        AbortOutcome.ofParts upload parts)

def completeUploadBatch (bucket : Bytes) (upload : UploadRecord) (object : ObjectRecord)
    (previous : Option ObjectRecord) (parts : List PartRecord) (now : TimestampMs) : WriteBatch :=
  putObjectBatch bucket object previous now ++ releasePartsBatch upload.uploadId parts now ++
    dropUploadBatch upload

def CompleteOutcome.ofRead (previous : Option ObjectRecord) (parts : List PartRecord) :
    CompleteOutcome :=
  ⟨(PutOutcome.ofObject previous).releasedBlobId, (PutOutcome.ofObject previous).replacedBytes,
    partBlobIds parts, partBytes parts⟩

def completeUpload (store : MetadataStore) (bucket uploadId : Bytes) (object : ObjectRecord)
    (now : TimestampMs) : Except StoreError (MetadataStore × CompleteOutcome) := do
  requireBucket store.rows bucket
  match ← loadUpload store.rows uploadId with
  | none => noSuchUpload uploadId
  | some upload =>
    let previous ← loadObject store.rows (Keys.object bucket object.key) object.key
    let parts ← collectParts store.rows uploadId
    let counters := store.counters.publishing previous
    pure
      ({ store with
          rows := store.rows.write (completeUploadBatch bucket upload object previous parts now)
          counters :=
            { counters with bytes := counters.bytes + object.size }.finished parts },
        CompleteOutcome.ofRead previous parts)

/-! ### Reclamation -/

def trackBlob (store : MetadataStore) (blobId : Bytes) (now : TimestampMs) : MetadataStore :=
  { store with
    rows := store.rows.write [orphanRow blobId now]
    counters := { store.counters with orphans := store.counters.orphans + 1 } }

/-- The markers queued at or before a cutoff, at most `limit` of them, in blob
order. -/
def listOrphans (rows : Rows) (limit : Nat) (queuedAtOrBefore : TimestampMs) : List Bytes :=
  (((rows.scan Keys.orphanPrefix).filter fun row =>
    ¬ queuedAtOrBefore < decodeOrphanQueuedAt row.2).take limit).map fun row =>
      row.1.drop Keys.orphanPrefix.length

def forgetOrphans (store : MetadataStore) (blobIds : List Bytes) : MetadataStore :=
  if blobIds = [] then store
  else
    { store with
      rows := store.rows.write (blobIds.map fun blobId => .delete (Keys.orphan blobId))
      counters :=
        { store.counters with
          orphans :=
            if blobIds.length.toUInt64 < store.counters.orphans then
              store.counters.orphans - blobIds.length.toUInt64
            else 0 } }

/-! ### What a mutation that returns did

Each read what its batch depends on and wrote that batch; a deletion of nothing
wrote nothing. -/

section Outcomes

variable {store next : MetadataStore} {bucket uploadId key : Bytes} {now : TimestampMs}

theorem putObject_ok {object : ObjectRecord} {outcome : PutOutcome}
    (h : putObject store bucket object now = .ok (next, outcome)) :
    ∃ previous, loadObject store.rows (Keys.object bucket object.key) object.key = .ok previous ∧
      next.rows = store.rows.write (putObjectBatch bucket object previous now) ∧
      outcome = PutOutcome.ofObject previous := by
  obtain ⟨_, -, h⟩ := Except.bind_eq_ok_iff.mp h
  obtain ⟨previous, hload, h⟩ := Except.bind_eq_ok_iff.mp h
  obtain ⟨rfl, rfl⟩ := Prod.mk.inj (Except.pure_eq_ok_iff.mp h)
  exact ⟨previous, hload, rfl, rfl⟩

theorem deleteObject_ok {outcome : DeleteOutcome}
    (h : deleteObject store bucket key now = .ok (next, outcome)) :
    next = store ∨ ∃ existing,
      loadObject store.rows (Keys.object bucket key) key = .ok (some existing) ∧
      next.rows = store.rows.write (deleteObjectBatch bucket key existing now) ∧
      outcome = DeleteOutcome.ofObject existing := by
  obtain ⟨_, -, h⟩ := Except.bind_eq_ok_iff.mp h
  obtain ⟨found, hload, h⟩ := Except.bind_eq_ok_iff.mp h
  cases found with
  | none => exact Or.inl (Prod.mk.inj (Except.pure_eq_ok_iff.mp h)).1.symm
  | some existing =>
      obtain ⟨rfl, rfl⟩ := Prod.mk.inj (Except.pure_eq_ok_iff.mp h)
      exact Or.inr ⟨existing, hload, rfl, rfl⟩

theorem createUpload_ok {upload : UploadRecord} (h : createUpload store upload = .ok next) :
    next.rows = store.rows.write (createUploadBatch upload) := by
  obtain ⟨_, -, h⟩ := Except.bind_eq_ok_iff.mp h
  obtain rfl := Except.pure_eq_ok_iff.mp h
  rfl

theorem putPart_ok {part : PartRecord} {outcome : PutOutcome}
    (h : putPart store uploadId part now = .ok (next, outcome)) :
    ∃ previous, loadPart store.rows uploadId part.partNumber = .ok previous ∧
      next.rows = store.rows.write (putPartBatch uploadId part previous now) ∧
      outcome = PutOutcome.ofPart previous := by
  obtain ⟨_, -, h⟩ := Except.bind_eq_ok_iff.mp h
  obtain ⟨found, -, h⟩ := Except.bind_eq_ok_iff.mp h
  cases found with
  | none => cases h
  | some upload =>
      obtain ⟨previous, hload, h⟩ := Except.bind_eq_ok_iff.mp h
      obtain ⟨rfl, rfl⟩ := Prod.mk.inj (Except.pure_eq_ok_iff.mp h)
      exact ⟨previous, hload, rfl, rfl⟩

theorem abortUpload_ok {outcome : AbortOutcome}
    (h : abortUpload store uploadId now = .ok (next, outcome)) :
    ∃ upload parts, loadUpload store.rows uploadId = .ok (some upload) ∧
      collectParts store.rows uploadId = .ok parts ∧
      next.rows = store.rows.write (abortUploadBatch upload parts now) ∧
      outcome = AbortOutcome.ofParts upload parts := by
  obtain ⟨found, hload, h⟩ := Except.bind_eq_ok_iff.mp h
  cases found with
  | none => cases h
  | some upload =>
      obtain ⟨parts, hparts, h⟩ := Except.bind_eq_ok_iff.mp h
      obtain ⟨rfl, rfl⟩ := Prod.mk.inj (Except.pure_eq_ok_iff.mp h)
      exact ⟨upload, parts, hload, hparts, rfl, rfl⟩

theorem completeUpload_ok {object : ObjectRecord} {outcome : CompleteOutcome}
    (h : completeUpload store bucket uploadId object now = .ok (next, outcome)) :
    ∃ upload previous parts, loadUpload store.rows uploadId = .ok (some upload) ∧
      loadObject store.rows (Keys.object bucket object.key) object.key = .ok previous ∧
      collectParts store.rows uploadId = .ok parts ∧
      next.rows = store.rows.write (completeUploadBatch bucket upload object previous parts now) ∧
      outcome = CompleteOutcome.ofRead previous parts := by
  obtain ⟨_, -, h⟩ := Except.bind_eq_ok_iff.mp h
  obtain ⟨found, hload, h⟩ := Except.bind_eq_ok_iff.mp h
  cases found with
  | none => cases h
  | some upload =>
      obtain ⟨previous, hprevious, h⟩ := Except.bind_eq_ok_iff.mp h
      obtain ⟨parts, hparts, h⟩ := Except.bind_eq_ok_iff.mp h
      obtain ⟨rfl, rfl⟩ := Prod.mk.inj (Except.pure_eq_ok_iff.mp h)
      exact ⟨upload, previous, parts, hload, hprevious, hparts, rfl, rfl⟩

end Outcomes

theorem rows_forgetOrphans (store : MetadataStore) (blobIds : List Bytes) :
    (forgetOrphans store blobIds).rows =
      store.rows.write (blobIds.map fun blobId => .delete (Keys.orphan blobId)) := by
  by_cases h : blobIds = []
  · rw [h]
    rfl
  · rw [forgetOrphans, if_neg h]

end MonoBucket

/-
The storage engine: objects and uploads

The engine's write operations, each run from start to end with nothing between
its steps: claim space, register the payload, check, commit the row, settle the
ledger, and unlink what the commit released. A payload's bytes and digests are
what its writer found, so they come with the record that names it.

`Touch` lists the row operations a request on one bucket can issue. Every
operation here is described by it, which is what the results about whole runs
rest on.
-/

import MonoBucket.Storage.StorageEngine
import MonoBucket.S3.Names

namespace MonoBucket

open Codec

namespace StorageEngine

/-! ### Checks -/

def requireWithinUploadLimit (engine : StorageEngine) (bytes : UInt64) (what : Bytes) :
    Except StoreError Unit :=
  if bytes ≤ engine.maxUploadBytes then .ok ()
  else
    fail .objectTooLarge (what ++ ascii " is " ++ QuotaLedger.bytesPhrase bytes ++
      ascii ", over this instance\x27s maximum upload size of " ++
      QuotaLedger.bytesPhrase engine.maxUploadBytes)

def requireStorableKey (key : Bytes) : Except StoreError Unit :=
  if key = [] ∨ S3.maxKeyLength < key.length then
    fail .internal (ascii "object key must be between 1 and " ++ decimal S3.maxKeyLength ++
      ascii " bytes")
  else .ok ()

/-! ### Payloads -/

/-- What `beginWrite` leaves in the store. -/
def trackBlob (engine : StorageEngine) (blobId : Bytes) (now : TimestampMs) : StorageEngine :=
  { engine with metadata := MonoBucket.trackBlob engine.metadata blobId now }

/-- `reclaimNow` with no checkpoint running. -/
def reclaimNow (engine : StorageEngine) (blobIds : List Bytes) : StorageEngine :=
  { engine with metadata := forgetOrphans engine.metadata blobIds }

/-- A reservation that goes out of scope. -/
def release (engine : StorageEngine) (reservation : Reservation) : StorageEngine :=
  { engine with quotas := engine.quotas.release reservation }

/-! ### Objects -/

/-- `finishWrite`: the record is what is committed if every check passes. -/
def finishWrite (engine : StorageEngine) (bucket : Bytes) (object : ObjectRecord)
    (reservation : Reservation) (now : TimestampMs) : StorageEngine × Except StoreError Unit :=
  let checked := do
    requireStorableKey object.key
    engine.requireWithinUploadLimit object.size (ascii "the object")
    engine.quotas.extend reservation bucket object.size
  match checked with
  | .error error => (engine.release reservation, .error error)
  | .ok (quotas, reservation) =>
    let engine := { engine with quotas := quotas }
    match MonoBucket.putObject engine.metadata bucket object now with
    | .error error => (engine.release reservation, .error error)
    | .ok (metadata, outcome) =>
      let settled : StorageEngine :=
        { engine with
          metadata := metadata
          quotas := quotas.recordObject bucket reservation object.size outcome.replacedBytes }
      (settled.reclaimNow outcome.releasedBlobId.toList, .ok ())

/-- A whole object write: claim what was declared, register the payload, finish. -/
def putObject (engine : StorageEngine) (bucket : Bytes) (object : ObjectRecord)
    (declared : UInt64) (now : TimestampMs) : StorageEngine × Except StoreError Unit :=
  match engine.quotas.reserve bucket declared with
  | .error error => (engine, .error error)
  | .ok (quotas, reservation) =>
    let begun : StorageEngine := { engine with quotas := quotas }
    (begun.trackBlob object.blobId.items now).finishWrite bucket object reservation now

def deleteObject (engine : StorageEngine) (bucket key : Bytes) (now : TimestampMs) :
    StorageEngine × Except StoreError Unit :=
  match MonoBucket.deleteObject engine.metadata bucket key now with
  | .error error => (engine, .error error)
  | .ok (metadata, outcome) =>
    let settled : StorageEngine :=
      { engine with
        metadata := metadata
        quotas := engine.quotas.recordDeletion bucket outcome.releasedBytes }
    (settled.reclaimNow outcome.releasedBlobId.toList, .ok ())

/-! ### Multipart -/

def createUpload (engine : StorageEngine) (upload : UploadRecord) :
    StorageEngine × Except StoreError Unit :=
  engine.commit (MonoBucket.createUpload engine.metadata upload)

def uploadedPartBytes (engine : StorageEngine) (uploadId : Bytes) (exceptPartNumber : UInt32) :
    Except StoreError UInt64 := do
  let parts ← listParts engine.metadata.rows uploadId
  pure (partBytes (parts.filter fun part => part.partNumber ≠ exceptPartNumber))

def finishPart (engine : StorageEngine) (uploadId : Bytes) (part : PartRecord)
    (reservation : Reservation) (now : TimestampMs) : StorageEngine × Except StoreError Unit :=
  let checked := do
    match ← loadUpload engine.metadata.rows uploadId with
    | none => noSuchUpload uploadId
    | some upload =>
      let others ← engine.uploadedPartBytes uploadId part.partNumber
      engine.requireWithinUploadLimit (others + part.size) (ascii "the completed object")
      let extended ← engine.quotas.extend reservation upload.bucket.items part.size
      pure (upload, extended)
  match checked with
  | .error error => (engine.release reservation, .error error)
  | .ok (upload, quotas, reservation) =>
    let engine := { engine with quotas := quotas }
    match MonoBucket.putPart engine.metadata uploadId part now with
    | .error error => (engine.release reservation, .error error)
    | .ok (metadata, outcome) =>
      let settled : StorageEngine :=
        { engine with
          metadata := metadata
          quotas := quotas.recordPart upload.bucket.items reservation part.size outcome.replacedBytes }
      (settled.reclaimNow outcome.releasedBlobId.toList, .ok ())

def putPart (engine : StorageEngine) (bucket uploadId : Bytes) (part : PartRecord)
    (declared : UInt64) (now : TimestampMs) : StorageEngine × Except StoreError Unit :=
  match engine.quotas.reserve bucket declared with
  | .error error => (engine, .error error)
  | .ok (quotas, reservation) =>
    let begun : StorageEngine := { engine with quotas := quotas }
    (begun.trackBlob part.blobId.items now).finishPart uploadId part reservation now

def abortUpload (engine : StorageEngine) (uploadId : Bytes) (now : TimestampMs) :
    StorageEngine × Except StoreError Unit :=
  match MonoBucket.abortUpload engine.metadata uploadId now with
  | .error error => (engine, .error error)
  | .ok (metadata, outcome) =>
    let settled : StorageEngine :=
      { engine with
        metadata := metadata
        quotas := engine.quotas.recordUploadAborted outcome.bucket outcome.releasedBytes }
    (settled.reclaimNow outcome.releasedBlobIds, .ok ())

/-- One line of a completion's manifest. -/
structure RequestedPart where
  partNumber : UInt32
  etag : Bytes
  deriving DecidableEq

def minPartSize : UInt64 := 5 * 1024 * 1024

def quote : UInt8 := letter '"'

def unquote (etag : Bytes) : Bytes :=
  if 2 ≤ etag.length ∧ etag.head? = some quote ∧ etag.getLast? = some quote then
    (etag.drop 1).dropLast
  else etag

def invalidPart {α : Type} (what : Bytes) : Except StoreError α := fail .invalidPart what

/-- The stored parts a manifest names, in its order, after part `previous`. -/
def orderedParts (stored : List PartRecord) (previous : UInt32) :
    List RequestedPart → Except StoreError (List PartRecord)
  | [] => .ok []
  | want :: rest =>
    if want.partNumber ≤ previous then
      invalidPart (ascii "parts must be listed in ascending order without duplicates")
    else
      match stored.find? fun part => part.partNumber = want.partNumber with
      | none =>
        invalidPart (ascii "part " ++ decimal want.partNumber.toNat ++ ascii " was never uploaded")
      | some found =>
        if unquote want.etag ≠ found.etag.items then
          invalidPart (ascii "the ETag supplied for part " ++ decimal want.partNumber.toNat ++
            ascii " does not match what was stored")
        else do
          let others ← orderedParts stored want.partNumber rest
          pure (found :: others)

/-- Every part but the last reaches the minimum. -/
def requirePartSizes (ordered : List PartRecord) : Except StoreError Unit :=
  match ordered.dropLast.find? fun part => part.size < minPartSize with
  | none => .ok ()
  | some part =>
    invalidPart (ascii "part " ++ decimal part.partNumber.toNat ++ ascii " is " ++
      QuotaLedger.bytesPhrase part.size ++ ascii ", below the " ++ decimal minPartSize.toNat ++
      ascii " byte minimum")

/-- The parts a completion may assemble, or why it may not. -/
def checkManifest (engine : StorageEngine) (uploadId : Bytes) (requested : List RequestedPart) :
    Except StoreError (UploadRecord × List PartRecord) := do
  match ← loadUpload engine.metadata.rows uploadId with
  | none => noSuchUpload uploadId
  | some upload =>
    if requested = [] then
      invalidPart (ascii "a completed multipart upload must name at least one part")
    else
      let stored ← listParts engine.metadata.rows uploadId
      let ordered ← orderedParts stored 0 requested
      requirePartSizes ordered
      engine.requireWithinUploadLimit (partBytes ordered) (ascii "the completed object")
      pure (upload, ordered)

/-- `completeUpload`: the object is stored under the upload's own key. -/
def completeUpload (engine : StorageEngine) (uploadId : Bytes) (requested : List RequestedPart)
    (assembled : ObjectRecord) (now : TimestampMs) : StorageEngine × Except StoreError Unit :=
  match engine.checkManifest uploadId requested with
  | .error error => (engine, .error error)
  | .ok (upload, _) =>
    let object := { assembled with key := upload.key.items }
    let begun := engine.trackBlob object.blobId.items now
    match MonoBucket.completeUpload begun.metadata upload.bucket.items uploadId object now with
    | .error error => (begun, .error error)
    | .ok (metadata, outcome) =>
      let settled : StorageEngine :=
        { begun with
          metadata := metadata
          quotas := begun.quotas.recordUploadCompleted upload.bucket.items object.size
            outcome.replacedBytes outcome.releasedPartBytes }
      ((settled.reclaimNow outcome.releasedBlobId.toList).reclaimNow outcome.releasedPartBlobIds,
        .ok ())

end StorageEngine

/-! ### What a request on a bucket writes -/

/-- Something a request stores under a key: an object, or an upload. -/
inductive Stored
  | object (key : Bytes)
  | upload (record : UploadRecord)

/-- The key it is stored under. -/
def Stored.key : Stored → Bytes
  | .object key => key
  | .upload record => record.key.items

/-- A row operation a request on one bucket issues, on rows as the request found
them: markers, and rows of the bucket's objects and of its own uploads. What it
stores under a key is what `stores` admits. -/
inductive Touch (rows : Rows) (bucket : Bytes) (stores : Stored → Prop) : RowOp → Prop
  | marker (op : RowOp) (blobId : Bytes) (hkey : op.key = Keys.orphan blobId) :
    Touch rows bucket stores op
  | putObject (object : ObjectRecord) (hbucket : (rows.find? (Keys.bucket bucket)).isSome)
    (hstores : stores (.object object.key)) :
    Touch rows bucket stores (.put (Keys.object bucket object.key) (encodeObject object))
  | dropObject (key : Bytes) (hbucket : (rows.find? (Keys.bucket bucket)).isSome) :
    Touch rows bucket stores (.delete (Keys.object bucket key))
  | putUpload (upload : UploadRecord) (hbucket : (rows.find? (Keys.bucket bucket)).isSome)
    (hname : upload.bucket.items = bucket) (hstores : stores (.upload upload)) :
    Touch rows bucket stores (.put (Keys.uploadById upload.uploadId) (encodeUpload upload))
  | putUploadKey (upload : UploadRecord) (hbucket : (rows.find? (Keys.bucket bucket)).isSome)
    (hname : upload.bucket.items = bucket) (hstores : stores (.upload upload)) :
    Touch rows bucket stores
      (.put (Keys.uploadByKey bucket upload.key.items upload.uploadId) [])
  | dropUpload (upload : UploadRecord)
    (hload : loadUpload rows upload.uploadId = .ok (some upload))
    (hname : upload.bucket.items = bucket) :
    Touch rows bucket stores (.delete (Keys.uploadById upload.uploadId))
  | dropUploadKey (upload : UploadRecord)
    (hload : loadUpload rows upload.uploadId = .ok (some upload))
    (hname : upload.bucket.items = bucket) :
    Touch rows bucket stores
      (.delete (Keys.uploadByKey bucket upload.key.items upload.uploadId))
  | putPart (part : PartRecord) (upload : UploadRecord)
    (hload : loadUpload rows upload.uploadId = .ok (some upload))
    (hname : upload.bucket.items = bucket) :
    Touch rows bucket stores (.put (Keys.part upload.uploadId part.partNumber) (encodePart part))
  | dropPart (number : UInt32) (upload : UploadRecord)
    (hload : loadUpload rows upload.uploadId = .ok (some upload))
    (hname : upload.bucket.items = bucket) :
    Touch rows bucket stores (.delete (Keys.part upload.uploadId number))

section Touches

variable {rows earlier : Rows} {bucket : Bytes} {stores : Stored → Prop}

/-- Rows that differ from earlier ones in markers only. -/
abbrev OnlyMarkers (earlier rows : Rows) : Prop :=
  Rows.ChangedBy (fun op => ∃ blobId, op.key = Keys.orphan blobId) earlier rows

theorem find?_of_markers (hrows : OnlyMarkers earlier rows) {key : Bytes}
    (hkey : key.head? ≠ some Keys.kOrphan) : rows.find? key = earlier.find? key := by
  apply hrows.find?_eq
  rintro op ⟨blobId, hop⟩ rfl
  rw [hop] at hkey
  exact hkey rfl

theorem loadUpload_of_markers (hrows : OnlyMarkers earlier rows) (uploadId : Bytes) :
    loadUpload rows uploadId = loadUpload earlier uploadId :=
  readRow_congr (find?_of_markers hrows (by simp [Keys.uploadById, Keys.tagged, Keys.kUploadById,
    Keys.kOrphan]))

/-- A touch of rows that differ from earlier ones in markers only is a touch of
the earlier ones. -/
theorem Touch.of_markers (hrows : OnlyMarkers earlier rows) {op : RowOp}
    (h : Touch rows bucket stores op) : Touch earlier bucket stores op := by
  have hbucket : rows.find? (Keys.bucket bucket) = earlier.find? (Keys.bucket bucket) :=
    find?_of_markers hrows (by simp [Keys.bucket, Keys.tagged, Keys.kBucket, Keys.kOrphan])
  have hload := loadUpload_of_markers hrows
  cases h with
  | marker op blobId hkey => exact .marker op blobId hkey
  | putObject object hpresent hstores => exact .putObject object (hbucket ▸ hpresent) hstores
  | dropObject key hpresent => exact .dropObject key (hbucket ▸ hpresent)
  | putUpload upload hpresent hname hstores =>
      exact .putUpload upload (hbucket ▸ hpresent) hname hstores
  | putUploadKey upload hpresent hname hstores =>
      exact .putUploadKey upload (hbucket ▸ hpresent) hname hstores
  | dropUpload upload hfound hname => exact .dropUpload upload (hload _ ▸ hfound) hname
  | dropUploadKey upload hfound hname => exact .dropUploadKey upload (hload _ ▸ hfound) hname
  | putPart part upload hfound hname => exact .putPart part upload (hload _ ▸ hfound) hname
  | dropPart number upload hfound hname => exact .dropPart number upload (hload _ ▸ hfound) hname

/-- No touch is of a bucket's own row. -/
theorem Touch.head?_ne {op : RowOp} (h : Touch rows bucket stores op) :
    op.key.head? ≠ some Keys.kBucket := by
  have htag : ∀ {tag : UInt8} {rest : Bytes}, op.key = tag :: rest → tag ≠ Keys.kBucket →
      op.key.head? ≠ some Keys.kBucket := by
    intro tag rest hkey htag hhead
    rw [hkey] at hhead
    exact htag (Option.some.inj hhead)
  cases h with
  | marker op blobId hkey => exact htag hkey (by decide)
  | putObject object hpresent hstores => exact htag rfl (by decide)
  | dropObject key hpresent => exact htag rfl (by decide)
  | putUpload upload hpresent hname hstores => exact htag rfl (by decide)
  | putUploadKey upload hpresent hname hstores => exact htag rfl (by decide)
  | dropUpload upload hfound hname => exact htag rfl (by decide)
  | dropUploadKey upload hfound hname => exact htag rfl (by decide)
  | putPart part upload hfound hname => exact htag rfl (by decide)
  | dropPart number upload hfound hname => exact htag rfl (by decide)

theorem Touch.mono {wider : Stored → Prop} {op : RowOp} (h : Touch rows bucket stores op)
    (hwider : ∀ stored, stores stored → wider stored) : Touch rows bucket wider op := by
  cases h with
  | marker op blobId hkey => exact .marker op blobId hkey
  | putObject object hpresent hstores => exact .putObject object hpresent (hwider _ hstores)
  | dropObject key hpresent => exact .dropObject key hpresent
  | putUpload upload hpresent hname hstores =>
      exact .putUpload upload hpresent hname (hwider _ hstores)
  | putUploadKey upload hpresent hname hstores =>
      exact .putUploadKey upload hpresent hname (hwider _ hstores)
  | dropUpload upload hfound hname => exact .dropUpload upload hfound hname
  | dropUploadKey upload hfound hname => exact .dropUploadKey upload hfound hname
  | putPart part upload hfound hname => exact .putPart part upload hfound hname
  | dropPart number upload hfound hname => exact .dropPart number upload hfound hname

/-! ### The store's batches -/

theorem bucket_of_requireBucket (h : requireBucket rows bucket = .ok ()) :
    (rows.find? (Keys.bucket bucket)).isSome := by
  rw [requireBucket] at h
  split at h
  · cases h
  · rename_i stored hfind
    rw [hfind]
    rfl

theorem touch_publishBatch {storedKey value blobId : Bytes} {released : Option Bytes}
    {now : TimestampMs} (hput : Touch rows bucket stores (.put storedKey value)) :
    ∀ op ∈ publishBatch storedKey value blobId released now, Touch rows bucket stores op := by
  intro op hop
  rcases List.mem_append.mp hop with hfront | hmarker
  · rcases List.mem_cons.mp hfront with rfl | hdrop
    · exact hput
    · obtain rfl := List.mem_singleton.mp hdrop
      exact .marker _ blobId rfl
  · obtain ⟨released, -, rfl⟩ := List.mem_map.mp hmarker
    exact .marker _ released rfl

theorem touch_putObjectBatch {object : ObjectRecord} {previous : Option ObjectRecord}
    {now : TimestampMs} (hbucket : (rows.find? (Keys.bucket bucket)).isSome)
    (hstores : stores (.object object.key)) :
    ∀ op ∈ putObjectBatch bucket object previous now, Touch rows bucket stores op :=
  touch_publishBatch (.putObject object hbucket hstores)

theorem touch_finishUploadBatch {upload : UploadRecord} {parts : List PartRecord}
    {now : TimestampMs} (hload : loadUpload rows upload.uploadId = .ok (some upload))
    (hname : upload.bucket.items = bucket) :
    ∀ op ∈ abortUploadBatch upload parts now, Touch rows bucket stores op := by
  intro op hop
  rcases List.mem_append.mp hop with hpart | hdrop
  · obtain ⟨part, -, hpart⟩ := List.mem_flatMap.mp hpart
    rcases List.mem_cons.mp hpart with rfl | hmarker
    · exact .dropPart part.partNumber upload hload hname
    · obtain rfl := List.mem_singleton.mp hmarker
      exact .marker _ part.blobId.items rfl
  · rcases List.mem_cons.mp hdrop with rfl | hkey
    · exact .dropUpload upload hload hname
    · obtain rfl := List.mem_singleton.mp hkey
      subst hname
      exact .dropUploadKey upload hload rfl

/-! ### The engine's operations -/

/-- An operation of the engine that leaves rows changed by touches only. -/
def Touches (engine : StorageEngine) (bucket : Bytes) (stores : Stored → Prop)
    (next : StorageEngine) : Prop :=
  Rows.ChangedBy (Touch engine.metadata.rows bucket stores) engine.metadata.rows next.metadata.rows

variable {engine : StorageEngine} {now : TimestampMs}

/-- Touches after changes to markers only are touches from the start. -/
theorem Touches.after_markers {begun next : StorageEngine}
    (hbegun : OnlyMarkers engine.metadata.rows begun.metadata.rows)
    (h : Touches begun bucket stores next) : Touches engine bucket stores next :=
  (hbegun.mono fun op ⟨blobId, hkey⟩ => .marker op blobId hkey).trans
    (h.mono fun _ htouch => htouch.of_markers hbegun)

theorem markers_trackBlob (engine : StorageEngine) (blobId : Bytes) (now : TimestampMs) :
    OnlyMarkers engine.metadata.rows (engine.trackBlob blobId now).metadata.rows := by
  refine .of_batch fun op hop => ?_
  obtain rfl := List.mem_singleton.mp hop
  exact ⟨blobId, rfl⟩

theorem markers_forgetOrphans (store : MetadataStore) (blobIds : List Bytes) :
    OnlyMarkers store.rows (forgetOrphans store blobIds).rows := by
  rw [rows_forgetOrphans]
  refine .of_batch fun op hop => ?_
  obtain ⟨blobId, -, rfl⟩ := List.mem_map.mp hop
  exact ⟨blobId, rfl⟩

/-- A batch of touches, and then what it released is forgotten. -/
theorem touches_settled {settled : StorageEngine} {batch : WriteBatch} (blobIds : List Bytes)
    (hrows : settled.metadata.rows = engine.metadata.rows.write batch)
    (hbatch : ∀ op ∈ batch, Touch engine.metadata.rows bucket stores op) :
    Touches engine bucket stores (settled.reclaimNow blobIds) := by
  have hsettled : Touches engine bucket stores settled := ⟨batch, hrows, hbatch⟩
  exact hsettled.trans ((markers_forgetOrphans settled.metadata blobIds).mono
    fun op ⟨blobId, hkey⟩ => .marker op blobId hkey)

theorem touches_finishWrite (object : ObjectRecord) (reservation : Reservation) :
    Touches engine bucket (· = .object object.key)
      (engine.finishWrite bucket object reservation now).1 := by
  rw [StorageEngine.finishWrite]
  dsimp only
  split
  · exact .refl _
  · split
    · exact .refl _
    · rename_i hput
      obtain ⟨previous, -, hrows, -⟩ := putObject_ok hput
      obtain ⟨_, hbucket, -⟩ := Except.bind_eq_ok_iff.mp hput
      exact touches_settled _ hrows
        (touch_putObjectBatch (bucket_of_requireBucket hbucket) rfl)

theorem touches_putObject (object : ObjectRecord) (declared : UInt64) :
    Touches engine bucket (· = .object object.key) (engine.putObject bucket object declared now).1 := by
  rw [StorageEngine.putObject]
  split
  · exact .refl _
  · rename_i quotas reservation _
    have hmarkers := markers_trackBlob { engine with quotas := quotas } object.blobId.items now
    exact Touches.after_markers hmarkers (touches_finishWrite object reservation)

theorem touches_deleteObject (key : Bytes) :
    Touches engine bucket stores (engine.deleteObject bucket key now).1 := by
  rw [StorageEngine.deleteObject]
  split
  · exact .refl _
  · rename_i hdelete
    obtain ⟨_, hbucket, -⟩ := Except.bind_eq_ok_iff.mp hdelete
    rcases deleteObject_ok hdelete with rfl | ⟨existing, -, hrows, -⟩
    · exact touches_settled _ (Rows.write_nil _).symm (by simp)
    · refine touches_settled _ hrows fun op hop => ?_
      rcases List.mem_cons.mp hop with rfl | hmarker
      · exact .dropObject key (bucket_of_requireBucket hbucket)
      · obtain rfl := List.mem_singleton.mp hmarker
        exact .marker _ existing.blobId.items rfl

theorem touches_createUpload (upload : UploadRecord) :
    Touches engine upload.bucket.items (· = .upload upload) (engine.createUpload upload).1 := by
  rw [StorageEngine.createUpload]
  cases hcreate : MonoBucket.createUpload engine.metadata upload with
  | error error => exact .refl _
  | ok metadata =>
      obtain ⟨_, hbucket, -⟩ := Except.bind_eq_ok_iff.mp hcreate
      have hpresent := bucket_of_requireBucket hbucket
      refine ⟨_, createUpload_ok hcreate, fun op hop => ?_⟩
      rcases List.mem_cons.mp hop with rfl | hkey
      · exact .putUpload upload hpresent rfl rfl
      · obtain rfl := List.mem_singleton.mp hkey
        exact .putUploadKey upload hpresent rfl rfl

theorem touches_finishPart {uploadId : Bytes} (part : PartRecord) (reservation : Reservation)
    (hname : ∀ upload, loadUpload engine.metadata.rows uploadId = .ok (some upload) →
      upload.bucket.items = bucket) :
    Touches engine bucket stores (engine.finishPart uploadId part reservation now).1 := by
  rw [StorageEngine.finishPart]
  dsimp only
  split
  · exact .refl _
  · split
    · exact .refl _
    · rename_i hput
      obtain ⟨previous, -, hrows, -⟩ := putPart_ok hput
      obtain ⟨_, -, hput⟩ := Except.bind_eq_ok_iff.mp hput
      obtain ⟨found, hload, hput⟩ := Except.bind_eq_ok_iff.mp hput
      cases found with
      | none => cases hput
      | some upload =>
          obtain rfl := uploadId_of_loadUpload hload
          exact touches_settled _ hrows
            (touch_publishBatch (.putPart part upload hload (hname upload hload)))

theorem touches_putPart {uploadId : Bytes} (part : PartRecord) (declared : UInt64)
    (hname : ∀ upload, loadUpload engine.metadata.rows uploadId = .ok (some upload) →
      upload.bucket.items = bucket) :
    Touches engine bucket stores (engine.putPart bucket uploadId part declared now).1 := by
  rw [StorageEngine.putPart]
  split
  · exact .refl _
  · rename_i quotas reservation _
    have hmarkers := markers_trackBlob { engine with quotas := quotas } part.blobId.items now
    refine Touches.after_markers hmarkers (touches_finishPart part reservation fun upload hload =>
      hname upload ?_)
    rw [← hload]
    exact (loadUpload_of_markers hmarkers uploadId).symm

theorem touches_abortUpload {uploadId : Bytes}
    (hname : ∀ upload, loadUpload engine.metadata.rows uploadId = .ok (some upload) →
      upload.bucket.items = bucket) :
    Touches engine bucket stores (engine.abortUpload uploadId now).1 := by
  rw [StorageEngine.abortUpload]
  split
  · exact .refl _
  · rename_i habort
    obtain ⟨upload, parts, hload, -, hrows, -⟩ := abortUpload_ok habort
    obtain rfl := uploadId_of_loadUpload hload
    exact touches_settled _ hrows (touch_finishUploadBatch hload (hname upload hload))

/-- The upload a manifest was checked against is the one a read finds. -/
theorem loadUpload_of_checkManifest {uploadId : Bytes} {requested : List StorageEngine.RequestedPart}
    {upload : UploadRecord} {ordered : List PartRecord}
    (h : engine.checkManifest uploadId requested = .ok (upload, ordered)) :
    loadUpload engine.metadata.rows uploadId = .ok (some upload) := by
  obtain ⟨found, hload, hrest⟩ := Except.bind_eq_ok_iff.mp h
  cases found with
  | none => cases hrest
  | some read =>
      dsimp only at hrest
      split_ifs at hrest
      · cases hrest
      · obtain ⟨_, -, hrest⟩ := Except.bind_eq_ok_iff.mp hrest
        obtain ⟨_, -, hrest⟩ := Except.bind_eq_ok_iff.mp hrest
        obtain ⟨_, -, hrest⟩ := Except.bind_eq_ok_iff.mp hrest
        obtain ⟨_, -, hrest⟩ := Except.bind_eq_ok_iff.mp hrest
        obtain ⟨rfl, -⟩ := Prod.mk.inj (Except.pure_eq_ok_iff.mp hrest)
        exact hload

/-- A completion stores its object under the upload's own bucket and key. -/
theorem touches_completeUpload {uploadId : Bytes} (requested : List StorageEngine.RequestedPart)
    (assembled : ObjectRecord)
    (hname : ∀ upload, loadUpload engine.metadata.rows uploadId = .ok (some upload) →
      upload.bucket.items = bucket) :
    Touches engine bucket
      (fun stored => ∃ upload, loadUpload engine.metadata.rows uploadId = .ok (some upload) ∧
        stored = .object upload.key.items)
      (engine.completeUpload uploadId requested assembled now).1 := by
  rw [StorageEngine.completeUpload]
  split
  · exact .refl _
  · rename_i upload ordered hmanifest
    have hload := loadUpload_of_checkManifest hmanifest
    have hmarkers := markers_trackBlob engine assembled.blobId.items now
    dsimp only
    split
    · exact hmarkers.mono fun op ⟨blobId, hkey⟩ => .marker op blobId hkey
    · rename_i metadata outcome hcomplete
      obtain ⟨found, previous, parts, hfound, -, -, hrows, -⟩ := completeUpload_ok hcomplete
      obtain ⟨_, hbucket, -⟩ := Except.bind_eq_ok_iff.mp hcomplete
      have hsame : loadUpload engine.metadata.rows uploadId = .ok (some found) := by
        rw [← hfound]
        exact (loadUpload_of_markers hmarkers uploadId).symm
      obtain rfl : upload = found := by
        rw [hload] at hsame
        exact Option.some.inj (Except.ok.inj hsame)
      obtain rfl := uploadId_of_loadUpload hload
      obtain rfl := hname upload hload
      refine Touches.after_markers hmarkers ((touches_settled _ hrows fun op hop => ?_).trans
        ((markers_forgetOrphans _ _).mono fun op ⟨blobId, hkey⟩ => .marker op blobId hkey))
      rw [completeUploadBatch, List.append_assoc] at hop
      rcases List.mem_append.mp hop with hobject | hfinish
      · exact touch_putObjectBatch (bucket_of_requireBucket hbucket) ⟨upload, hload, rfl⟩ op hobject
      · exact touch_finishUploadBatch hfound rfl op hfinish

end Touches

end MonoBucket

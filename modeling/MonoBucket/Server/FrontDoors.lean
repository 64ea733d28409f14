/-
The two front doors

Every request of the S3 listener and of the console that writes a bucket, an
object or an upload, past authentication and authorisation, together with what
it does to the cache both doors share. Requests run one after another here. An
S3 request looks its bucket up through the cache; a console request asks the
store.

A request that is turned away before it writes anything but the cache is a
`lookup`. New upload ids come from the system's random source and are taken to
be unused.
-/

import MonoBucket.Lib.Trace
import MonoBucket.S3.BucketCache
import MonoBucket.Server.Visibility
import MonoBucket.Storage.EngineWrites

namespace MonoBucket.FrontDoors

open S3 Codec

/-! ### State and configuration -/

structure ServerConfig where
  /-- The JSON library. -/
  parse : Bytes → Option Json
  options : EngineOptions
  /-- `std::hash` on cache keys. -/
  hash : Bytes → UInt64
  cacheTtlSeconds : Int64
  region : Bytes
  defaultBucketQuotaBytes : UInt64

structure Server where
  engine : StorageEngine := {}
  cache : MemoryCache

/-- What the other routes and the background tasks write. -/
inductive SystemWrite
  | putUser (user : UserRecord)
  | deleteUser (username : Bytes)
  | putAccessKey (key : AccessKeyRecord)
  | deleteAccessKey (accessKeyId : Bytes)
  | appendAudit (entry : AuditRecord)
  | putInstanceSettings (settings : InstanceSettings)
  | trackBlob (blobId : Bytes) (now : TimestampMs)
  | forgetOrphans (blobIds : List Bytes)

inductive Request
  | lookup (name : Bytes)
  | createBucket (name : Bytes) (now : TimestampMs)
  | deleteBucket (name : Bytes)
  | putBucketAcl (name : Bytes) (publicRead : Bool)
  | putBucketPolicy (name : Bytes) (document : Text)
  | deleteBucketPolicy (name : Bytes)
  | putBucketCors (name : Bytes) (rules : Sized CorsRule)
  | deleteBucketCors (name : Bytes)
  | putObject (bucket : Bytes) (object : ObjectRecord) (declared : UInt64) (now : TimestampMs)
  | deleteObject (bucket key : Bytes) (now : TimestampMs)
  | createMultipartUpload (upload : UploadRecord)
  | uploadPart (bucket key uploadId : Bytes) (part : PartRecord) (declared : UInt64)
    (now : TimestampMs)
  | completeMultipartUpload (bucket key uploadId : Bytes)
    (requested : List StorageEngine.RequestedPart) (assembled : ObjectRecord) (now : TimestampMs)
  | abortMultipartUpload (bucket key uploadId : Bytes) (now : TimestampMs)
  | consoleCreateBucket (name : Bytes) (quotaBytes : UInt64) (now : TimestampMs)
  | consoleDeleteBucket (name : Bytes)
  | consoleAccess (name : Bytes) (publicRead : Bool) (durability : Option (Option Durability))
  | consoleQuota (name : Bytes) (quotaBytes : UInt64)
  | consoleCors (name : Bytes) (rules : Sized CorsRule)
  | consoleDeleteCors (name : Bytes)
  | consolePolicy (name : Bytes) (document : Text)
  | consoleDeletePolicy (name : Bytes)
  | consoleUpload (bucket : Bytes) (object : ObjectRecord) (now : TimestampMs)
  | consoleDeleteObject (bucket key : Bytes) (now : TimestampMs)
  | expireUpload (uploadId : Bytes) (now : TimestampMs)
  | evictCache (budgetBytes : UInt64)
  | system (write : SystemWrite)

/-- What a request leaves, and what it answers. -/
abbrev Answer := Server × Except HandlerError Unit

/-! ### The cache -/

section Handlers

variable (config : ServerConfig) (ticks : Int64)

def invalidateBucket (name : Bytes) (server : Server) : Server :=
  { server with cache := (server.cache.del config.hash (bucketCacheKey name)).1 }

def invalidateObject (bucket key : Bytes) (server : Server) : Server :=
  { server with cache := (server.cache.del config.hash (objectCacheKey bucket key)).1 }

/-- `requireBucket`, and the rest of the handler when it finds the bucket. -/
def afterLookup (server : Server) (name : Bytes) (rest : Server → Answer) : Answer :=
  let (cache, answer) := S3.requireBucket config.hash server.engine.metadata.rows
    config.cacheTtlSeconds ticks server.cache name
  let server := { server with cache := cache }
  match answer with
  | .error error => (server, .error error)
  | .ok _ => rest server

/-- An operation of the engine, and what follows when it does not throw. -/
def andThen (server : Server) (outcome : StorageEngine × Except HandlerError Unit)
    (rest : Server → Server) : Answer :=
  match outcome.2 with
  | .error error => ({ server with engine := outcome.1 }, .error error)
  | .ok _ => (rest { server with engine := outcome.1 }, .ok ())

/-! ### Buckets over S3 -/

def reservedNameMessage (name : Bytes) : Bytes :=
  ascii "\x27" ++ name ++ ascii "\x27 is reserved for a server endpoint and cannot be used as a " ++
    ascii "bucket name."

def usEast1 : Bytes := ascii "us-east-1"

/-- Recreating a bucket is a conflict everywhere but in us-east-1. -/
def handleCreateBucket (server : Server) (name : Bytes) (now : TimestampMs) : Answer :=
  if isValidBucketName name then
    if isReservedBucketName name then
      (server, .error (.s3 ⟨.invalidBucketName, reservedNameMessage name⟩))
    else
      match server.engine.createBucket name config.defaultBucketQuotaBytes now with
      | (engine, .ok _) => (invalidateBucket config name { server with engine := engine }, .ok ())
      | (engine, .error (.storage .bucketAlreadyExists _)) =>
        if config.region = usEast1 then
          (invalidateBucket config name { server with engine := engine }, .ok ())
        else
          ({ server with engine := engine }, (throwCode .bucketAlreadyOwnedByYou).mapError .s3)
      | (engine, .error error) => ({ server with engine := engine }, .error (.storage error))
  else (server, (throwCode .invalidBucketName).mapError .s3)

def handleDeleteBucket (server : Server) (name : Bytes) : Answer :=
  andThen server (Visibility.fromStorage (server.engine.deleteBucket name))
    (invalidateBucket config name)

/-- A handler that looks its bucket up, changes its record and drops the entry. -/
def changeBucket (server : Server) (name : Bytes)
    (change : StorageEngine → StorageEngine × Except HandlerError Unit) : Answer :=
  afterLookup config ticks server name fun server =>
    andThen server (change server.engine) (invalidateBucket config name)

def handlePutBucketAcl (server : Server) (name : Bytes) (publicRead : Bool) : Answer :=
  changeBucket config ticks server name fun engine =>
    Visibility.fromStorage (engine.setBucketPublicRead name publicRead)

def handlePutBucketPolicy (server : Server) (name : Bytes) (document : Text) : Answer :=
  changeBucket config ticks server name fun engine =>
    Visibility.putPolicy config.parse engine name document

def handleDeleteBucketPolicy (server : Server) (name : Bytes) : Answer :=
  changeBucket config ticks server name fun engine =>
    Visibility.fromStorage (engine.setBucketPolicy name .empty false false)

def handlePutBucketCors (server : Server) (name : Bytes) (rules : Sized CorsRule) : Answer :=
  changeBucket config ticks server name fun engine => Visibility.putCors engine name rules

def handleDeleteBucketCors (server : Server) (name : Bytes) : Answer :=
  changeBucket config ticks server name fun engine =>
    Visibility.fromStorage (engine.setBucketCors name .empty)

/-! ### Objects over S3 -/

def requireValidKey (key : Bytes) : Except HandlerError Unit :=
  if maxKeyLength < key.length then (throwCode .keyTooLong).mapError .s3
  else if isValidObjectKey key then .ok ()
  else
    .error (.s3 ⟨.invalidArgument, ascii "The object key is empty, or contains characters that " ++
      ascii "cannot be represented in a listing."⟩)

/-- Refused on what the client declared. -/
def requireDeclaredSize (server : Server) (bytes : UInt64) (what : Bytes) :
    Except HandlerError Unit :=
  if server.engine.maxUploadBytes < bytes then
    .error (.s3 ⟨.entityTooLarge, what ++ QuotaLedger.bytesPhrase bytes ++
      ascii ", over this instance\x27s maximum upload size of " ++
      QuotaLedger.bytesPhrase server.engine.maxUploadBytes ++ ascii "."⟩)
  else .ok ()

/-- The rest of a handler when a check lets the request through. -/
def afterCheck (server : Server) (check : Except HandlerError Unit) (rest : Server → Answer) :
    Answer :=
  match check with
  | .error error => (server, .error error)
  | .ok _ => rest server

def handlePutObject (server : Server) (bucket : Bytes) (object : ObjectRecord) (declared : UInt64)
    (now : TimestampMs) : Answer :=
  afterLookup config ticks server bucket fun server =>
    afterCheck server (requireValidKey object.key) fun server =>
      afterCheck server (requireDeclaredSize server declared (ascii "The object is ")) fun server =>
        andThen server (Visibility.fromStorage (server.engine.putObject bucket object declared now))
          (invalidateObject config bucket object.key)

def handleDeleteObject (server : Server) (bucket key : Bytes) (now : TimestampMs) : Answer :=
  afterLookup config ticks server bucket fun server =>
    andThen server (Visibility.fromStorage (server.engine.deleteObject bucket key now))
      (invalidateObject config bucket key)

/-! ### Multipart over S3 -/

def handleCreateMultipartUpload (server : Server) (upload : UploadRecord) : Answer :=
  afterLookup config ticks server upload.bucket.items fun server =>
    if isValidObjectKey upload.key.items then
      andThen server (Visibility.fromStorage (server.engine.createUpload upload)) id
    else (server, .error (.s3 ⟨.invalidArgument, ascii "The object key is not valid."⟩))

/-- The upload belongs to the bucket and key in the request path. -/
def requireUpload (rows : Rows) (bucket key uploadId : Bytes) : Except HandlerError UploadRecord :=
  match loadUpload rows uploadId with
  | .error error => .error (.storage error)
  | .ok none => (throwCode .noSuchUpload).mapError .s3
  | .ok (some upload) =>
    if upload.bucket.items = bucket ∧ upload.key.items = key then .ok upload
    else
      .error (.s3 ⟨.noSuchUpload, ascii "The upload id does not belong to the bucket and key " ++
        ascii "named in the request."⟩)

/-- A handler for one upload, when the request names it rightly. -/
def onUpload (server : Server) (bucket key uploadId : Bytes) (rest : Server → Answer) : Answer :=
  match requireUpload server.engine.metadata.rows bucket key uploadId with
  | .error error => (server, .error error)
  | .ok _ => rest server

def handleUploadPart (server : Server) (bucket key uploadId : Bytes) (part : PartRecord)
    (declared : UInt64) (now : TimestampMs) : Answer :=
  onUpload server bucket key uploadId fun server =>
    match server.engine.uploadedPartBytes uploadId part.partNumber with
    | .error error => (server, .error (.storage error))
    | .ok others =>
      afterCheck server (requireDeclaredSize server (others + declared)
          (ascii "This part would bring the upload to ")) fun server =>
        andThen server
          (Visibility.fromStorage (server.engine.putPart bucket uploadId part declared now)) id

def handleCompleteMultipartUpload (server : Server) (bucket key uploadId : Bytes)
    (requested : List StorageEngine.RequestedPart) (assembled : ObjectRecord) (now : TimestampMs) :
    Answer :=
  onUpload server bucket key uploadId fun server =>
    andThen server
      (Visibility.fromStorage (server.engine.completeUpload uploadId requested assembled now))
      (invalidateObject config bucket key)

def handleAbortMultipartUpload (server : Server) (bucket key uploadId : Bytes)
    (now : TimestampMs) : Answer :=
  onUpload server bucket key uploadId fun server =>
    andThen server (Visibility.fromStorage (server.engine.abortUpload uploadId now)) id

/-! ### The console -/

def refuse (server : Server) (what : Bytes) : Answer := (server, .error (.console what))

/-- A route that names a bucket. -/
def named (server : Server) (name : Bytes) (rest : Server → Answer) : Answer :=
  if name = [] then refuse server (ascii "a bucket name is required") else rest server

/-- `POST /_mb/api/buckets`. -/
def consoleCreateBucket (server : Server) (name : Bytes) (quotaBytes : UInt64)
    (now : TimestampMs) : Answer :=
  named server name fun server =>
    if quotaBytes = 0 then refuse server (ascii "a storage allocation must be greater than zero")
    else andThen server (Visibility.fromStorage (server.engine.createBucket name quotaBytes now)) id

/-- `DELETE /_mb/api/buckets`. -/
def consoleDeleteBucket (server : Server) (name : Bytes) : Answer :=
  named server name fun server =>
    andThen server (Visibility.fromStorage (server.engine.deleteBucket name)) id

/-- The access route's writes: the toggle, and the override when one was sent. -/
def setAccess (engine : StorageEngine) (name : Bytes) (publicRead : Bool)
    (durability : Option (Option Durability)) : StorageEngine × Except HandlerError Unit :=
  match engine.setBucketPublicRead name publicRead with
  | (engine, .error error) => (engine, .error (.storage error))
  | (engine, .ok _) =>
    match durability with
    | none => (engine, .ok ())
    | some override => Visibility.fromStorage (engine.setBucketDurability name override)

def consoleAccess (server : Server) (name : Bytes) (publicRead : Bool)
    (durability : Option (Option Durability)) : Answer :=
  named server name fun server =>
    andThen server (setAccess server.engine name publicRead durability)
      (invalidateBucket config name)

def consoleQuota (server : Server) (name : Bytes) (quotaBytes : UInt64) : Answer :=
  named server name fun server =>
    andThen server (Visibility.fromStorage (server.engine.setBucketQuota name quotaBytes)) id

def consoleCors (server : Server) (name : Bytes) (rules : Sized CorsRule) : Answer :=
  named server name fun server =>
    andThen server (Visibility.putCors server.engine name rules) (invalidateBucket config name)

def consoleDeleteCors (server : Server) (name : Bytes) : Answer :=
  named server name fun server =>
    andThen server (Visibility.fromStorage (server.engine.setBucketCors name .empty))
      (invalidateBucket config name)

def consolePolicy (server : Server) (name : Bytes) (document : Text) : Answer :=
  named server name fun server =>
    andThen server (Visibility.putPolicy config.parse server.engine name document)
      (invalidateBucket config name)

def consoleDeletePolicy (server : Server) (name : Bytes) : Answer :=
  named server name fun server =>
    andThen server
      (Visibility.fromStorage (server.engine.setBucketPolicy name .empty false false))
      (invalidateBucket config name)

/-- The console's own check of an upload's key. -/
def consoleKeyRefused (key : Bytes) : Bool :=
  maxKeyLength < key.length ∨ key.head? = some slash ∨ [slash, slash] <:+: key ∨ dotDot <:+: key

/-- `PUT /_mb/api/upload`: the whole body is there, so what is claimed is its size. -/
def consoleUpload (server : Server) (bucket : Bytes) (object : ObjectRecord) (now : TimestampMs) :
    Answer :=
  named server bucket fun server =>
    if object.key = [] then refuse server (ascii "a key is required")
    else if consoleKeyRefused object.key then
      refuse server (ascii "that object key is not valid")
    else if server.engine.maxUploadBytes < object.size then
      refuse server (ascii "that file is " ++ QuotaLedger.bytesPhrase object.size ++
        ascii ", over this instance\x27s maximum upload size of " ++
        QuotaLedger.bytesPhrase server.engine.maxUploadBytes)
    else
      match loadBucket server.engine.metadata.rows bucket with
      | .error error => (server, .error (.storage error))
      | .ok none => refuse server (ascii "no such bucket")
      | .ok (some _) =>
        andThen server
          (Visibility.fromStorage (server.engine.putObject bucket object object.size now))
          (invalidateObject config bucket object.key)

/-- `DELETE /_mb/api/objects`. -/
def consoleDeleteObject (server : Server) (bucket key : Bytes) (now : TimestampMs) : Answer :=
  named server bucket fun server =>
    if key = [] then refuse server (ascii "a key is required")
    else
      andThen server (Visibility.fromStorage (server.engine.deleteObject bucket key now))
        (invalidateObject config bucket key)

/-! ### Everything else -/

def systemWrite (store : MetadataStore) : SystemWrite → MetadataStore
  | .putUser user => putUser store user
  | .deleteUser username => (deleteUser store username).1
  | .putAccessKey key => putAccessKey store key
  | .deleteAccessKey accessKeyId => (deleteAccessKey store accessKeyId).1
  | .appendAudit entry => (appendAudit store entry).1
  | .putInstanceSettings settings => putInstanceSettings store settings
  | .trackBlob blobId now => trackBlob store blobId now
  | .forgetOrphans blobIds => forgetOrphans store blobIds

/-! ### Requests in turn -/

def perform (server : Server) : Request → Answer
  | .lookup name => afterLookup config ticks server name fun server => (server, .ok ())
  | .createBucket name now => handleCreateBucket config server name now
  | .deleteBucket name => handleDeleteBucket config server name
  | .putBucketAcl name publicRead => handlePutBucketAcl config ticks server name publicRead
  | .putBucketPolicy name document => handlePutBucketPolicy config ticks server name document
  | .deleteBucketPolicy name => handleDeleteBucketPolicy config ticks server name
  | .putBucketCors name rules => handlePutBucketCors config ticks server name rules
  | .deleteBucketCors name => handleDeleteBucketCors config ticks server name
  | .putObject bucket object declared now =>
    handlePutObject config ticks server bucket object declared now
  | .deleteObject bucket key now => handleDeleteObject config ticks server bucket key now
  | .createMultipartUpload upload => handleCreateMultipartUpload config ticks server upload
  | .uploadPart bucket key uploadId part declared now =>
    handleUploadPart server bucket key uploadId part declared now
  | .completeMultipartUpload bucket key uploadId requested assembled now =>
    handleCompleteMultipartUpload config server bucket key uploadId requested assembled now
  | .abortMultipartUpload bucket key uploadId now =>
    handleAbortMultipartUpload server bucket key uploadId now
  | .consoleCreateBucket name quotaBytes now => consoleCreateBucket server name quotaBytes now
  | .consoleDeleteBucket name => consoleDeleteBucket server name
  | .consoleAccess name publicRead durability =>
    consoleAccess config server name publicRead durability
  | .consoleQuota name quotaBytes => consoleQuota server name quotaBytes
  | .consoleCors name rules => consoleCors config server name rules
  | .consoleDeleteCors name => consoleDeleteCors config server name
  | .consolePolicy name document => consolePolicy config server name document
  | .consoleDeletePolicy name => consoleDeletePolicy config server name
  | .consoleUpload bucket object now => consoleUpload config server bucket object now
  | .consoleDeleteObject bucket key now => consoleDeleteObject config server bucket key now
  | .expireUpload uploadId now =>
    andThen server (Visibility.fromStorage (server.engine.abortUpload uploadId now)) id
  | .evictCache budgetBytes =>
    ({ server with cache := server.cache.evict ticks budgetBytes }, .ok ())
  | .system write =>
    let engine := { server.engine with metadata := systemWrite server.engine.metadata write }
    ({ server with engine := engine }, .ok ())

/-- The id a new upload gets is a word no upload has had. -/
def UnusedId (rows : Rows) (uploadId : Bytes) : Prop :=
  Keys.separator ∉ uploadId ∧ rows.find? (Keys.uploadById uploadId) = none ∧
    ∀ row ∈ rows.entries, row.1.head? = some Keys.kUploadByKey →
      ¬ Keys.separator :: uploadId <:+ row.1

instance (rows : Rows) (uploadId : Bytes) : Decidable (UnusedId rows uploadId) :=
  inferInstanceAs (Decidable (_ ∧ _ ∧ ∀ row ∈ rows.entries, _ → ¬ _))

/-- The upload a request creates. -/
def createdUpload : Request → Option UploadRecord
  | .createMultipartUpload upload => some upload
  | _ => none

def Fresh (server : Server) (request : Request) : Prop :=
  ∀ upload ∈ createdUpload request, UnusedId server.engine.metadata.rows upload.uploadId

instance (server : Server) (request : Request) : Decidable (Fresh server request) :=
  inferInstanceAs (Decidable (∀ upload ∈ createdUpload request, _))

end Handlers

/-- A request at some reading of the cache's clock. -/
abbrev Label := Int64 × Request

/-- Requests one after another, whatever each answers. -/
def step (config : ServerConfig) (server : Server) (label : Label) : Option Server :=
  if Fresh server label.2 then some (perform config label.1 server label.2).1 else none

/-! ### What a request writes -/

/-- The bucket a request is about, if it is about one that is there to find. -/
def subject (rows : Rows) : Request → Option Bytes
  | .lookup name | .createBucket name _ | .deleteBucket name | .putBucketAcl name _
  | .putBucketPolicy name _ | .deleteBucketPolicy name | .putBucketCors name _
  | .deleteBucketCors name | .putObject name _ _ _ | .deleteObject name _ _
  | .uploadPart name _ _ _ _ _ | .completeMultipartUpload name _ _ _ _ _
  | .abortMultipartUpload name _ _ _ | .consoleCreateBucket name _ _ | .consoleDeleteBucket name
  | .consoleAccess name _ _ | .consoleQuota name _ | .consoleCors name _ | .consoleDeleteCors name
  | .consolePolicy name _ | .consoleDeletePolicy name | .consoleUpload name _ _
  | .consoleDeleteObject name _ _ => some name
  | .createMultipartUpload upload => some upload.bucket.items
  | .expireUpload uploadId _ =>
    match loadUpload rows uploadId with
    | .ok (some upload) => some upload.bucket.items
    | _ => none
  | .evictCache _ | .system _ => none

/-- What a request stores under a key, as its handler let it through. -/
def Stores (rows : Rows) : Request → Stored → Prop
  | .putObject _ object _ _, stored =>
    stored = .object object.key ∧ isValidObjectKey object.key = true
  | .createMultipartUpload upload, stored =>
    stored = .upload upload ∧ isValidObjectKey upload.key.items = true
  | .completeMultipartUpload _ _ uploadId _ _ _, stored =>
    ∃ upload, loadUpload rows uploadId = .ok (some upload) ∧ stored = .object upload.key.items
  | .consoleUpload _ object _, stored =>
    stored = .object object.key ∧ object.key ≠ [] ∧ consoleKeyRefused object.key = false
  | _, _ => False

/-- The name a request may make a bucket under. -/
def Creates : Request → Bytes → Prop
  | .createBucket name _, other => other = name ∧ isValidBucketName name = true
  | .consoleCreateBucket name quotaBytes _, other => other = name ∧ name ≠ [] ∧ quotaBytes ≠ 0
  | _, _ => False

/-- The kinds of rows that belong to no bucket. -/
def systemTags : List UInt8 :=
  [Keys.kUser, Keys.kAccessKey, Keys.kAudit, Keys.kMeta, Keys.kOrphan]

/-- A row operation of a request: on its bucket's own row, on rows of that
bucket's objects and uploads, or on rows of no bucket. -/
inductive Writes (rows : Rows) (request : Request) : RowOp → Prop
  | bucketRow (op : RowOp) (name : Bytes) (hsubject : subject rows request = some name)
    (hkey : op.key = Keys.bucket name)
    (hknown : (rows.find? (Keys.bucket name)).isSome ∨ Creates request name) :
    Writes rows request op
  | touch (op : RowOp) (name : Bytes) (hsubject : subject rows request = some name)
    (htouch : Touch rows name (Stores rows request) op) : Writes rows request op
  | system (op : RowOp) (tag : UInt8) (hmem : tag ∈ systemTags) (hkey : op.key.head? = some tag) :
    Writes rows request op

section Effects

variable {config : ServerConfig} {ticks : Int64} {server : Server}

theorem rows_afterLookup {name : Bytes} {rest : Server → Answer} {P : Rows → Prop}
    (hstart : P server.engine.metadata.rows)
    (hrest : ∀ cache, P (rest { server with cache := cache }).1.engine.metadata.rows) :
    P (afterLookup config ticks server name rest).1.engine.metadata.rows := by
  rw [afterLookup]
  dsimp only
  split
  · exact hstart
  · exact hrest _

/-- What follows an operation of the engine touches the cache only. -/
def OnlyCache (rest : Server → Server) : Prop := ∀ server, (rest server).engine = server.engine

theorem onlyCache_id : OnlyCache id := fun _ => rfl

theorem onlyCache_invalidateBucket {name : Bytes} : OnlyCache (invalidateBucket config name) :=
  fun _ => rfl

theorem onlyCache_invalidateObject {bucket key : Bytes} :
    OnlyCache (invalidateObject config bucket key) := fun _ => rfl

theorem engine_andThen {outcome : StorageEngine × Except HandlerError Unit}
    {rest : Server → Server} (hrest : OnlyCache rest) :
    (andThen server outcome rest).1.engine = outcome.1 := by
  rw [andThen]
  split
  · rfl
  · exact hrest _

theorem rows_afterCheck {check : Except HandlerError Unit} {rest : Server → Answer}
    {P : Rows → Prop} (hstart : P server.engine.metadata.rows)
    (hrest : check = .ok () → P (rest server).1.engine.metadata.rows) :
    P (afterCheck server check rest).1.engine.metadata.rows := by
  cases check with
  | error error => exact hstart
  | ok passed => exact hrest rfl

theorem rows_named {name : Bytes} {rest : Server → Answer} {P : Rows → Prop}
    (hstart : P server.engine.metadata.rows)
    (hrest : name ≠ [] → P (rest server).1.engine.metadata.rows) :
    P (named server name rest).1.engine.metadata.rows := by
  rw [named]
  split_ifs with hname
  · exact hstart
  · exact hrest hname

theorem requireUpload_ok {rows : Rows} {bucket key uploadId : Bytes} {upload : UploadRecord}
    (h : requireUpload rows bucket key uploadId = .ok upload) :
    loadUpload rows uploadId = .ok (some upload) ∧ upload.bucket.items = bucket ∧
      upload.key.items = key := by
  rw [requireUpload] at h
  split at h
  · cases h
  · cases h
  · rename_i found hload
    split_ifs at h with hnamed
    cases h
    exact ⟨hload, hnamed⟩

theorem rows_onUpload {bucket key uploadId : Bytes} {rest : Server → Answer} {P : Rows → Prop}
    (hstart : P server.engine.metadata.rows)
    (hrest : (∀ upload, loadUpload server.engine.metadata.rows uploadId = .ok (some upload) →
      upload.bucket.items = bucket) → P (rest server).1.engine.metadata.rows) :
    P (onUpload server bucket key uploadId rest).1.engine.metadata.rows := by
  rw [onUpload]
  split
  · exact hstart
  · rename_i upload hupload
    obtain ⟨hload, hname, -⟩ := requireUpload_ok hupload
    refine hrest fun found hfound => ?_
    rw [hload] at hfound
    rw [← hname, Option.some.inj (Except.ok.inj hfound)]

theorem system_systemWrite (store : MetadataStore) (write : SystemWrite) :
    Rows.ChangedBy (fun op => ∃ tag ∈ systemTags, op.key.head? = some tag) store.rows
      (systemWrite store write).rows := by
  have hput : ∀ {tag : UInt8} {key value : Bytes}, key.head? = some tag → tag ∈ systemTags →
      Rows.ChangedBy (fun op => ∃ tag ∈ systemTags, op.key.head? = some tag) store.rows
        (putRow store key value).rows := by
    intro tag key value hkey hmem
    refine .of_batch fun op hop => ?_
    obtain rfl := List.mem_singleton.mp hop
    exact ⟨tag, hmem, hkey⟩
  have hdelete : ∀ {tag : UInt8} {key : Bytes}, key.head? = some tag → tag ∈ systemTags →
      Rows.ChangedBy (fun op => ∃ tag ∈ systemTags, op.key.head? = some tag) store.rows
        (deleteRow store key).rows := by
    intro tag key hkey hmem
    refine .of_batch fun op hop => ?_
    obtain rfl := List.mem_singleton.mp hop
    exact ⟨tag, hmem, hkey⟩
  have horphan : Keys.kOrphan ∈ systemTags := by decide
  cases write with
  | putUser user => exact hput rfl (by decide)
  | deleteUser username =>
      simp only [systemWrite, MonoBucket.deleteUser]
      split
      · exact .refl _
      · exact hdelete rfl (by decide)
  | putAccessKey key => exact hput rfl (by decide)
  | deleteAccessKey accessKeyId =>
      simp only [systemWrite, MonoBucket.deleteAccessKey]
      split
      · exact .refl _
      · exact hdelete rfl (by decide)
  | appendAudit entry =>
      refine .of_batch fun op hop => ⟨Keys.kAudit, by decide, ?_⟩
      rcases List.mem_cons.mp hop with rfl | hdropped
      · rfl
      · split_ifs at hdropped with hfull
        · obtain rfl := List.mem_singleton.mp hdropped
          rfl
        · cases hdropped
  | putInstanceSettings settings => exact hput rfl (by decide)
  | trackBlob blobId now =>
      refine .of_batch fun op hop => ?_
      obtain rfl := List.mem_singleton.mp hop
      exact ⟨Keys.kOrphan, horphan, rfl⟩
  | forgetOrphans blobIds =>
      refine (markers_forgetOrphans store blobIds).mono fun op ⟨blobId, hkey⟩ => ?_
      exact ⟨Keys.kOrphan, horphan, by rw [hkey]; rfl⟩

theorem valid_of_requireValidKey {key : Bytes} (h : requireValidKey key = .ok ()) :
    isValidObjectKey key = true := by
  rw [requireValidKey] at h
  split_ifs at h with hlong hvalid
  · cases h
  · exact hvalid

/-- What the handlers of a request on one bucket leave: rows changed by touches
of that bucket's objects and uploads. -/
theorem writes_of_touches {request : Request} {name : Bytes} {next : StorageEngine}
    {stores : Stored → Prop} (hsubject : subject server.engine.metadata.rows request = some name)
    (h : Touches server.engine name stores next)
    (hstores : ∀ stored, stores stored → Stores server.engine.metadata.rows request stored) :
    Rows.ChangedBy (Writes server.engine.metadata.rows request) server.engine.metadata.rows
      next.metadata.rows :=
  h.mono fun op htouch => .touch op name hsubject (htouch.mono hstores)

theorem writes_of_rewrites {request : Request} {name : Bytes} {next : StorageEngine}
    (hsubject : subject server.engine.metadata.rows request = some name)
    (h : StorageEngine.Rewrites name server.engine.metadata.rows next.metadata.rows) :
    Rows.ChangedBy (Writes server.engine.metadata.rows request) server.engine.metadata.rows
      next.metadata.rows :=
  h.mono fun op hop => .bucketRow op name hsubject hop.1 (Or.inl hop.2)

theorem rewrites_putPolicy (engine : StorageEngine) (name : Bytes) (document : Text) :
    StorageEngine.Rewrites name engine.metadata.rows
      (Visibility.putPolicy config.parse engine name document).1.metadata.rows := by
  rw [Visibility.putPolicy]
  split
  · exact .refl _
  · split
    · exact .refl _
    · exact StorageEngine.rewrites_rewriteBucket fun _ => rfl

theorem rewrites_putCors (engine : StorageEngine) (name : Bytes) (rules : Sized CorsRule) :
    StorageEngine.Rewrites name engine.metadata.rows
      (Visibility.putCors engine name rules).1.metadata.rows := by
  rw [Visibility.putCors]
  split
  · exact .refl _
  · exact StorageEngine.rewrites_rewriteBucket fun _ => rfl

theorem rewrites_setAccess (engine : StorageEngine) (name : Bytes) (publicRead : Bool)
    (durability : Option (Option Durability)) :
    StorageEngine.Rewrites name engine.metadata.rows
      (setAccess engine name publicRead durability).1.metadata.rows := by
  have hread : StorageEngine.Rewrites name engine.metadata.rows
      (engine.setBucketPublicRead name publicRead).1.metadata.rows :=
    StorageEngine.rewrites_rewriteBucket fun _ => rfl
  rw [setAccess]
  split
  · rename_i hset
    rwa [hset] at hread
  · rename_i middle _ hset
    rw [hset] at hread
    cases durability with
    | none => exact hread
    | some override => exact hread.trans (StorageEngine.rewrites_rewriteBucket fun _ => rfl)

theorem rewrites_changeBucket {name : Bytes}
    {change : StorageEngine → StorageEngine × Except HandlerError Unit}
    (hchange : ∀ engine : StorageEngine,
      StorageEngine.Rewrites name engine.metadata.rows (change engine).1.metadata.rows) :
    StorageEngine.Rewrites name server.engine.metadata.rows
      (changeBucket config ticks server name change).1.engine.metadata.rows := by
  rw [changeBucket]
  apply rows_afterLookup (.refl _)
  intro cache
  rw [engine_andThen onlyCache_invalidateBucket]
  exact hchange server.engine

theorem engine_handleCreateBucket (config : ServerConfig) (server : Server) (name : Bytes)
    (now : TimestampMs) :
    (handleCreateBucket config server name now).1.engine = server.engine ∨
      (isValidBucketName name = true ∧ (handleCreateBucket config server name now).1.engine =
        (server.engine.createBucket name config.defaultBucketQuotaBytes now).1) := by
  rw [handleCreateBucket]
  by_cases hvalid : isValidBucketName name = true
  · by_cases hreserved : isReservedBucketName name = true
    · rw [if_pos hvalid, if_pos hreserved]
      exact Or.inl rfl
    · rw [if_pos hvalid, if_neg hreserved]
      refine Or.inr ⟨hvalid, ?_⟩
      split
      · rename_i hcreate
        rw [hcreate]
        rfl
      · rename_i hcreate
        rw [hcreate]
        split_ifs <;> rfl
      · rename_i hcreate
        rw [hcreate]
  · rw [if_neg hvalid]
    exact Or.inl rfl

/-- Every request changes rows by its own writes only. -/
theorem writes_perform (config : ServerConfig) (ticks : Int64) (server : Server)
    (request : Request) :
    Rows.ChangedBy (Writes server.engine.metadata.rows request) server.engine.metadata.rows
      (perform config ticks server request).1.engine.metadata.rows := by
  have hcreated : ∀ {name : Bytes} {quotaBytes : UInt64} {now : TimestampMs},
      subject server.engine.metadata.rows request = some name → Creates request name →
      Rows.ChangedBy (Writes server.engine.metadata.rows request) server.engine.metadata.rows
        (server.engine.createBucket name quotaBytes now).1.metadata.rows :=
    fun hsubject hcreates => (StorageEngine.onlyBucket_createBucket _ _).mono
      fun op hop => .bucketRow op _ hsubject hop (Or.inr hcreates)
  cases request with
  | lookup name => exact rows_afterLookup (.refl _) fun _ => .refl _
  | createBucket name now =>
      rcases engine_handleCreateBucket config server name now with
        hsame | ⟨hvalid, hnext⟩
      · rw [perform, hsame]
        exact .refl _
      · rw [perform, hnext]
        exact hcreated rfl ⟨rfl, hvalid⟩
  | deleteBucket name =>
      rw [perform, handleDeleteBucket, engine_andThen onlyCache_invalidateBucket]
      exact writes_of_rewrites rfl StorageEngine.rewrites_deleteBucket
  | putBucketAcl name publicRead =>
      exact writes_of_rewrites rfl (rewrites_changeBucket fun engine =>
        StorageEngine.rewrites_rewriteBucket fun _ => rfl)
  | putBucketPolicy name document =>
      exact writes_of_rewrites rfl (rewrites_changeBucket fun engine =>
        rewrites_putPolicy engine name document)
  | deleteBucketPolicy name =>
      exact writes_of_rewrites rfl (rewrites_changeBucket fun engine =>
        StorageEngine.rewrites_rewriteBucket fun _ => rfl)
  | putBucketCors name rules =>
      exact writes_of_rewrites rfl (rewrites_changeBucket fun engine =>
        rewrites_putCors engine name rules)
  | deleteBucketCors name =>
      exact writes_of_rewrites rfl (rewrites_changeBucket fun engine =>
        StorageEngine.rewrites_rewriteBucket fun _ => rfl)
  | putObject bucket object declared now =>
      apply rows_afterLookup (.refl _)
      intro cache
      apply rows_afterCheck (.refl _)
      intro hkey
      apply rows_afterCheck (.refl _)
      intro _
      rw [engine_andThen onlyCache_invalidateObject]
      exact writes_of_touches rfl (touches_putObject object declared) fun stored hequal =>
        ⟨hequal, valid_of_requireValidKey hkey⟩
  | deleteObject bucket key now =>
      apply rows_afterLookup (.refl _)
      intro cache
      rw [engine_andThen onlyCache_invalidateObject]
      exact writes_of_touches rfl (touches_deleteObject key) fun _ h => h
  | createMultipartUpload upload =>
      apply rows_afterLookup (.refl _)
      intro cache
      split_ifs with hvalid
      · rw [engine_andThen onlyCache_id]
        exact writes_of_touches rfl (touches_createUpload upload) fun stored hequal =>
          ⟨hequal, hvalid⟩
      · exact .refl _
  | uploadPart bucket key uploadId part declared now =>
      apply rows_onUpload (.refl _)
      intro hname
      split
      · exact .refl _
      · apply rows_afterCheck (.refl _)
        intro _
        rw [engine_andThen onlyCache_id]
        exact writes_of_touches rfl (touches_putPart part declared hname) fun _ h => h
  | completeMultipartUpload bucket key uploadId requested assembled now =>
      apply rows_onUpload (.refl _)
      intro hname
      rw [engine_andThen onlyCache_invalidateObject]
      exact writes_of_touches rfl (touches_completeUpload requested assembled hname) fun _ h => h
  | abortMultipartUpload bucket key uploadId now =>
      apply rows_onUpload (.refl _)
      intro hname
      rw [engine_andThen onlyCache_id]
      exact writes_of_touches rfl (touches_abortUpload hname) fun _ h => h
  | consoleCreateBucket name quotaBytes now =>
      apply rows_named (.refl _)
      intro hname
      split_ifs with hquota
      · exact .refl _
      · rw [engine_andThen onlyCache_id]
        exact hcreated rfl ⟨rfl, hname, hquota⟩
  | consoleDeleteBucket name =>
      apply rows_named (.refl _)
      intro _
      rw [engine_andThen onlyCache_id]
      exact writes_of_rewrites rfl StorageEngine.rewrites_deleteBucket
  | consoleAccess name publicRead durability =>
      apply rows_named (.refl _)
      intro _
      rw [engine_andThen onlyCache_invalidateBucket]
      exact writes_of_rewrites rfl (rewrites_setAccess _ _ _ _)
  | consoleQuota name quotaBytes =>
      apply rows_named (.refl _)
      intro _
      rw [engine_andThen onlyCache_id]
      exact writes_of_rewrites rfl (StorageEngine.rewrites_setBucketQuota _)
  | consoleCors name rules =>
      apply rows_named (.refl _)
      intro _
      rw [engine_andThen onlyCache_invalidateBucket]
      exact writes_of_rewrites rfl (rewrites_putCors _ _ _)
  | consoleDeleteCors name =>
      apply rows_named (.refl _)
      intro _
      rw [engine_andThen onlyCache_invalidateBucket]
      exact writes_of_rewrites rfl (StorageEngine.rewrites_rewriteBucket fun _ => rfl)
  | consolePolicy name document =>
      apply rows_named (.refl _)
      intro _
      rw [engine_andThen onlyCache_invalidateBucket]
      exact writes_of_rewrites rfl (rewrites_putPolicy _ _ _)
  | consoleDeletePolicy name =>
      apply rows_named (.refl _)
      intro _
      rw [engine_andThen onlyCache_invalidateBucket]
      exact writes_of_rewrites rfl (StorageEngine.rewrites_rewriteBucket fun _ => rfl)
  | consoleUpload bucket object now =>
      apply rows_named (.refl _)
      intro _
      split_ifs with hempty hrefused hlimit
      · exact .refl _
      · exact .refl _
      · exact .refl _
      · split
        · exact .refl _
        · exact .refl _
        · rw [engine_andThen onlyCache_invalidateObject]
          exact writes_of_touches rfl (touches_putObject object _) fun stored hequal =>
            ⟨hequal, hempty, Bool.eq_false_of_not_eq_true hrefused⟩
  | consoleDeleteObject bucket key now =>
      apply rows_named (.refl _)
      intro _
      split_ifs
      · exact .refl _
      · rw [engine_andThen onlyCache_invalidateObject]
        exact writes_of_touches rfl (touches_deleteObject key) fun _ h => h
  | expireUpload uploadId now =>
      rw [perform, engine_andThen onlyCache_id]
      cases hload : loadUpload server.engine.metadata.rows uploadId with
      | error error =>
          have hthrows : MonoBucket.abortUpload server.engine.metadata uploadId now =
              .error error := by
            rw [MonoBucket.abortUpload, hload]
            rfl
          rw [Visibility.fromStorage, StorageEngine.abortUpload, hthrows]
          exact .refl _
      | ok found =>
          cases found with
          | none =>
              have hthrows : MonoBucket.abortUpload server.engine.metadata uploadId now =
                  noSuchUpload uploadId := by
                rw [MonoBucket.abortUpload, hload]
                rfl
              rw [Visibility.fromStorage, StorageEngine.abortUpload, hthrows]
              exact .refl _
          | some upload =>
              have hsubject : subject server.engine.metadata.rows (.expireUpload uploadId now) =
                  some upload.bucket.items := by rw [subject, hload]
              refine writes_of_touches hsubject (touches_abortUpload fun other hother => ?_)
                fun _ h => h
              rw [hload] at hother
              rw [Option.some.inj (Except.ok.inj hother)]
  | evictCache budgetBytes => exact .refl _
  | system write =>
      refine (system_systemWrite _ write).mono ?_
      rintro op ⟨tag, hmem, hkey⟩
      exact .system op tag hmem hkey

end Effects

/-! ### A small server -/

section Small

/-- One shard, so every hash will do; room for a bucket of any size. -/
def smallConfig : ServerConfig where
  parse _ := none
  options := { allocatableBytes := 1000000 }
  hash _ := 0
  cacheTtlSeconds := 60
  region := usEast1
  defaultBucketQuotaBytes := 0

def coldServer : Server where
  engine := { quotas := { allocatableBytes := 1000000 } }
  cache := smallCache

def photos : Bytes := ascii "photos"

/-- The server a fixed run leaves. -/
def after (config : ServerConfig) (start : Server) (labels : List Label) : Server :=
  (Trace.run (step config) start labels).getD start

end Small

end MonoBucket.FrontDoors

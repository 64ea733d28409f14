/-
The storage engine: buckets and starting up

The engine owns the metadata store and the quota ledger. Here are the operations
on bucket records, which read a record and write it back whole, and what a start
does with the rows it finds: check the format version, scan every row for the
counters and charges, seed the ledger and the upload limit, and drop the markers
of payloads no write will claim any more.

An operation answers the engine it leaves and what it returned or threw.
-/

import MonoBucket.Storage.Quota
import MonoBucket.S3.HeaderNumber

namespace MonoBucket

open Codec

/-! ### Options and state -/

/-- `StorageEngine::Options`, as far as the modelled operations read it. -/
structure EngineOptions where
  allocatableBytes : UInt64 := 0
  maxUploadBytes : UInt64 := 0
  maxUploadCeilingBytes : UInt64 := 0
  deriving DecidableEq

structure StorageEngine where
  metadata : MetadataStore := {}
  quotas : QuotaLedger := {}
  maxUploadBytes : UInt64 := 0
  deriving DecidableEq

namespace StorageEngine

/-! ### Buckets -/

/-- The last step of an operation is one write to the store. -/
def commit (engine : StorageEngine) :
    Except StoreError MetadataStore → StorageEngine × Except StoreError Unit
  | .ok metadata => ({ engine with metadata := metadata }, .ok ())
  | .error error => (engine, .error error)

def createBucket (engine : StorageEngine) (name : Bytes) (quotaBytes : UInt64)
    (now : TimestampMs) : StorageEngine × Except StoreError Unit :=
  match engine.quotas.admitAllocation quotaBytes with
  | .error error => (engine, .error error)
  | .ok _ =>
    let bucket : BucketRecord := { name := name, createdAt := now, quotaBytes := quotaBytes }
    match MonoBucket.createBucket engine.metadata bucket with
    | .error error => (engine, .error error)
    | .ok metadata =>
      ({ engine with metadata := metadata, quotas := engine.quotas.track name quotaBytes }, .ok ())

def deleteBucket (engine : StorageEngine) (name : Bytes) :
    StorageEngine × Except StoreError Unit :=
  match MonoBucket.deleteBucket engine.metadata name with
  | .error error => (engine, .error error)
  | .ok metadata =>
    ({ engine with metadata := metadata, quotas := engine.quotas.forget name }, .ok ())

/-- Read a bucket's record, change it and write it back. -/
def rewriteBucket (engine : StorageEngine) (name : Bytes)
    (change : BucketRecord → BucketRecord) : StorageEngine × Except StoreError Unit :=
  match loadBucket engine.metadata.rows name with
  | .error error => (engine, .error error)
  | .ok none => (engine, noSuchBucket name)
  | .ok (some bucket) => engine.commit (updateBucket engine.metadata (change bucket))

/-- The toggle publishes the objects, never the key names. -/
def setBucketPublicRead (engine : StorageEngine) (name : Bytes) (publicRead : Bool) :
    StorageEngine × Except StoreError Unit :=
  engine.rewriteBucket name fun bucket =>
    { bucket with publicRead := publicRead, publicList := false }

def setBucketPolicy (engine : StorageEngine) (name : Bytes) (policy : Text)
    (publicRead publicList : Bool) : StorageEngine × Except StoreError Unit :=
  engine.rewriteBucket name fun bucket =>
    { bucket with policy := policy, publicRead := publicRead, publicList := publicList }

def setBucketCors (engine : StorageEngine) (name : Bytes) (rules : Sized CorsRule) :
    StorageEngine × Except StoreError Unit :=
  engine.rewriteBucket name fun bucket => { bucket with cors := rules }

def setBucketDurability (engine : StorageEngine) (name : Bytes) (durability : Option Durability) :
    StorageEngine × Except StoreError Unit :=
  engine.rewriteBucket name fun bucket => { bucket with durability := durability }

/-- The ledger decides first and is put back when the record cannot be written.
A rollback the ledger refuses replaces the error. -/
def setBucketQuota (engine : StorageEngine) (name : Bytes) (quotaBytes : UInt64) :
    StorageEngine × Except StoreError Unit :=
  match loadBucket engine.metadata.rows name with
  | .error error => (engine, .error error)
  | .ok none => (engine, noSuchBucket name)
  | .ok (some bucket) =>
    match engine.quotas.setQuota name quotaBytes with
    | (quotas, .error error) => ({ engine with quotas := quotas }, .error error)
    | (quotas, .ok _) =>
      match updateBucket engine.metadata { bucket with quotaBytes := quotaBytes } with
      | .ok metadata => ({ engine with metadata := metadata, quotas := quotas }, .ok ())
      | .error error =>
        match quotas.setQuota name bucket.quotaBytes with
        | (quotas, .ok _) => ({ engine with quotas := quotas }, .error error)
        | (quotas, .error other) => ({ engine with quotas := quotas }, .error other)

end StorageEngine

/-! ### The startup scan -/

def formatVersionName : Bytes := ascii "format-version"

def storageFormatVersion : UInt64 := 1

/-- A fresh directory is stamped; any other must carry this build's version.
Text `strtoull` cannot read, or reads past 64 bits, is not the version. -/
def verifyFormatVersion (rows : Rows) : Except StoreError Rows :=
  match rows.find? (Keys.metaRow formatVersionName) with
  | none =>
    .ok (rows.write [.put (Keys.metaRow formatVersionName) (decimal storageFormatVersion.toNat)])
  | some stored =>
    if S3.stoull stored = some storageFormatVersion then .ok rows
    else
      fail .corruption (ascii "the data directory was written with storage format version " ++
        stored ++ ascii " but this build speaks version " ++
        decimal storageFormatVersion.toNat ++ ascii "; see CHANGELOG.md for the migration")

/-- `MetadataStore::BucketCharge`. -/
structure BucketCharge where
  objectBytes : UInt64 := 0
  partBytes : UInt64 := 0
  deriving DecidableEq

/-- What the scan has gathered so far. Parts are joined to their buckets when it
is done, because their rows name only the upload. -/
structure MetadataScan where
  counters : Counters := {}
  charges : OrderedMap Bytes BucketCharge := .empty
  partBytesByUpload : OrderedMap Bytes UInt64 := .empty
  bucketByUpload : OrderedMap Bytes Bytes := .empty
  deriving DecidableEq

instance : Inhabited BucketCharge := ⟨{}⟩

/-- `stored.substr(1, stored.find(kSeparator, 1) - 1)`, given the key behind its
tag; nothing without a separator. -/
def beforeSeparator (rest : Bytes) : Option Bytes :=
  if Keys.separator ∈ rest then some (rest.takeWhile fun byte => byte ≠ Keys.separator) else none

/-- The fields of an object or part row up to its size: version, payload, size. -/
def decodePayloadSize : Read UInt64 := do
  expectVersion
  let _ ← string
  varint

namespace MetadataScan

def scanPart (scan : MetadataScan) (rest stored : Bytes) : Except DecodeError MetadataScan :=
  match beforeSeparator rest with
  | none => .ok scan
  | some uploadId => do
    let size ← runOn decodePayloadSize stored
    pure { scan with
      partBytesByUpload := scan.partBytesByUpload.modify uploadId fun total => total + size }

def scanObject (scan : MetadataScan) (rest stored : Bytes) : Except DecodeError MetadataScan := do
  let size ← runOn decodePayloadSize stored
  pure { scan with
    counters :=
      { scan.counters with
        objects := scan.counters.objects + 1
        bytes := scan.counters.bytes + size }
    charges :=
      match beforeSeparator rest with
      | none => scan.charges
      | some bucket =>
        scan.charges.modify bucket fun charge =>
          { charge with objectBytes := charge.objectBytes + size } }

def scanUpload (scan : MetadataScan) (uploadId stored : Bytes) :
    Except DecodeError MetadataScan := do
  let upload ← decodeUpload uploadId stored
  pure { scan with
    counters := { scan.counters with uploads := scan.counters.uploads + 1 }
    bucketByUpload := scan.bucketByUpload.insert uploadId upload.bucket.items }

/-- One row of the scan, by its tag. -/
def scanRow (scan : MetadataScan) : Bytes × Bytes → Except DecodeError MetadataScan
  | ([], _) => .ok scan
  | (tag :: rest, stored) =>
    if tag = Keys.kBucket then
      .ok { scan with
        counters := { scan.counters with buckets := scan.counters.buckets + 1 }
        charges := scan.charges.modify rest id }
    else if tag = Keys.kUploadById then scan.scanUpload rest stored
    else if tag = Keys.kOrphan then
      .ok { scan with counters := { scan.counters with orphans := scan.counters.orphans + 1 } }
    else if tag = Keys.kPart then scan.scanPart rest stored
    else if tag = Keys.kObject then scan.scanObject rest stored
    else .ok scan

/-- The parts of an upload that is still there are charged to its bucket. -/
def joinParts (scan : MetadataScan) : OrderedMap Bytes BucketCharge :=
  scan.partBytesByUpload.entries.foldl
    (fun charges entry =>
      match scan.bucketByUpload.find? entry.1 with
      | none => charges
      | some bucket =>
        charges.modify bucket fun charge => { charge with partBytes := charge.partBytes + entry.2 })
    scan.charges

end MetadataScan

def scanRows : MetadataScan → List (Bytes × Bytes) → Except StoreError MetadataScan
  | scan, [] => .ok scan
  | scan, row :: rest => do
    let scan ← decoded (scan.scanRow row)
    scanRows scan rest

/-- The newest audit sequence, zero without one: the row at or before the last
possible key. -/
def seedAuditSequence (rows : Rows) : UInt64 :=
  match (rows.entries.filter fun row => row.1 ≤ Keys.audit (0 - 1)).getLast? with
  | none => 0
  | some row => (Keys.auditSequence row.1).getD 0

/-- Opening the store on the rows a directory holds. -/
def openMetadataStore (rows : Rows) :
    Except StoreError (MetadataStore × OrderedMap Bytes BucketCharge) := do
  let rows ← verifyFormatVersion rows
  let scan ← scanRows {} rows.entries
  pure (⟨rows, scan.counters, seedAuditSequence rows⟩, scan.joinParts)

namespace StorageEngine

/-- One entry a bucket, charged with what the scan found. -/
def seedQuotas (allocatableBytes : UInt64) (charges : OrderedMap Bytes BucketCharge)
    (rows : Rows) : Except StoreError QuotaLedger := do
  let buckets ← listBuckets rows
  pure (buckets.foldl
    (fun ledger bucket =>
      let charge := (charges.find? bucket.name).getD {}
      ledger.seed bucket.name bucket.quotaBytes charge.objectBytes charge.partBytes)
    { allocatableBytes := allocatableBytes })

/-- The limit in force: the stored one if there is one, clamped to the ceiling. -/
def uploadLimit (options : EngineOptions) (stored : Option InstanceSettings) : UInt64 :=
  let limit := match stored with
    | some settings =>
      if settings.maxUploadBytes ≠ 0 then settings.maxUploadBytes else options.maxUploadBytes
    | none => options.maxUploadBytes
  if options.maxUploadCeilingBytes < limit then options.maxUploadCeilingBytes else limit

def seedUploadLimit (options : EngineOptions) (metadata : MetadataStore) :
    Except StoreError (MetadataStore × UInt64) := do
  let stored ← getInstanceSettings metadata.rows
  let limit := uploadLimit options stored
  if stored.map InstanceSettings.maxUploadBytes = some limit then pure (metadata, limit)
  else pure (putInstanceSettings metadata { maxUploadBytes := limit }, limit)

/-- Nothing is in flight at a start, so every marker due now is abandoned. -/
def recover (engine : StorageEngine) (now : TimestampMs) : StorageEngine :=
  { engine with
    metadata :=
      forgetOrphans engine.metadata (listOrphans engine.metadata.rows (2 ^ 64 - 1) now) }

/-- The constructor and `recover()`, on the rows a directory holds. -/
def start (options : EngineOptions) (now : TimestampMs) (rows : Rows) :
    Except StoreError StorageEngine := do
  let (metadata, charges) ← openMetadataStore rows
  let quotas ← seedQuotas options.allocatableBytes charges metadata.rows
  let (metadata, limit) ← seedUploadLimit options metadata
  pure (recover ⟨metadata, quotas, limit⟩ now)

end StorageEngine

end MonoBucket

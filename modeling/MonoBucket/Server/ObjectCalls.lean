/-
The steps of the object handlers

`statObject` and the handlers that change an object, one step at a time, any
number of them at once. A read looks into the cache, on a miss asks the store,
and fills the cache with what it was told. A write commits, drops the entry and
responds. The other requests write the store and the other entries of the cache
between these steps as they like.
-/

import MonoBucket.S3.ObjectCache
import MonoBucket.Server.FrontDoors

namespace MonoBucket.ObjectCache

open S3 Codec FrontDoors

/-! ### Requests -/

/-- An object, in a bucket that `requireBucket` lets through. -/
structure ObjectName where
  bucket : Bytes
  key : Text
  valid : isValidBucketName bucket = true
  deriving DecidableEq

def ObjectName.cacheKey (name : ObjectName) : Bytes := objectCacheKey name.bucket name.key.items

theorem ObjectName.cacheKey_inj {name other : ObjectName} (h : name.cacheKey = other.cacheKey) :
    name = other := by
  obtain ⟨hbucket, hkey⟩ := objectCacheKey_inj name.valid other.valid h
  cases name
  cases other
  simp only [ObjectName.mk.injEq]
  exact ⟨hbucket, Sized.ext hkey⟩

/-- A write of the store that an entry is dropped behind. -/
inductive Mutation
  | put (name : ObjectName) (object : ObjectRecord) (declared : UInt64)
  | delete (name : ObjectName)
  | complete (name : ObjectName) (uploadId : Bytes) (requested : List StorageEngine.RequestedPart)
    (assembled : ObjectRecord)

namespace Mutation

def name : Mutation → ObjectName
  | .put name .. | .delete name | .complete name .. => name

def commit (engine : StorageEngine) (now : TimestampMs) :
    Mutation → StorageEngine × Except StoreError Unit
  | .put name object declared =>
    engine.putObject name.bucket { object with key := name.key.items } declared now
  | .delete name => engine.deleteObject name.bucket name.key.items now
  | .complete _ uploadId requested assembled =>
    engine.completeUpload uploadId requested assembled now

end Mutation

/-- What arrives, past the checks that come before the cache and the store. -/
inductive Request
  | statObject (name : ObjectName)
  | putObject (name : ObjectName) (object : ObjectRecord) (declared : UInt64)
  | deleteObject (name : ObjectName)
  | deleteObjects (bucket : Bytes) (valid : isValidBucketName bucket = true) (keys : List Text)
  | completeMultipartUpload (name : ObjectName) (uploadId : Bytes)
    (requested : List StorageEngine.RequestedPart) (assembled : ObjectRecord)

/-! ### Calls -/

/-- Where a call is: what it does next, and what it carries there. -/
inductive Phase
  | idle
  /-- `statObject`, before its look into the cache. -/
  | looking (name : ObjectName)
  | missed (name : ObjectName)
  | filling (name : ObjectName) (record : ObjectRecord)
  /-- What `statObject` returned. -/
  | answered (name : ObjectName) (answer : Option ObjectRecord)
  /-- A completion, before `requireUpload`. -/
  | checking (name : ObjectName) (uploadId : Bytes) (requested : List StorageEngine.RequestedPart)
    (assembled : ObjectRecord)
  | committing (mutation : Mutation) (rest : List Mutation)
  | invalidating (name : ObjectName) (rest : List Mutation)
  | responding
  | done

/-- On to the next key, or to the response. -/
def Phase.next : List Mutation → Phase
  | [] => .responding
  | mutation :: rest => .committing mutation rest

/-- A deletion of many refuses an empty key and takes the next one. -/
def arrive : Request → Phase
  | .statObject name => .looking name
  | .putObject name object declared => .committing (.put name object declared) []
  | .deleteObject name => .committing (.delete name) []
  | .deleteObjects bucket valid keys =>
    Phase.next ((keys.filter fun key => key ≠ .empty).map fun key => .delete ⟨bucket, key, valid⟩)
  | .completeMultipartUpload name uploadId requested assembled =>
    .checking name uploadId requested assembled

/-- One step of a call. A write that throws is reported, and the next key taken. -/
def act (config : ServerConfig) (ticks : Int64) (now : TimestampMs) (server : Server) :
    Phase → Option (Server × Phase)
  | .idle | .answered .. | .done => none
  | .looking name =>
    let (cache, stored) := server.cache.get config.hash ticks name.cacheKey
    match stored.bind decodeCachedObject with
    | some record => some ({ server with cache := cache }, .answered name (some record))
    | none => some ({ server with cache := cache }, .missed name)
  | .missed name =>
    match getObject server.engine.metadata.rows name.bucket name.key.items with
    | .error _ => some (server, .done)
    | .ok none => some (server, .answered name none)
    | .ok (some record) => some (server, .filling name record)
  | .filling name record =>
    some
      ({ server with
          cache := server.cache.set config.hash ticks name.cacheKey
            (encodeCachedObject name.key record) config.cacheTtlSeconds },
        .answered name (some record))
  | .checking name uploadId requested assembled =>
    match requireUpload server.engine.metadata.rows name.bucket name.key.items uploadId with
    | .error _ => some (server, .responding)
    | .ok _ => some (server, .committing (.complete name uploadId requested assembled) [])
  | .committing mutation rest =>
    match mutation.commit server.engine now with
    | (engine, .error _) => some ({ server with engine := engine }, Phase.next rest)
    | (engine, .ok _) => some ({ server with engine := engine }, .invalidating mutation.name rest)
  | .invalidating name rest =>
    some (invalidateObject config name.bucket name.key.items server, Phase.next rest)
  | .responding => some (server, .done)

/-! ### The server -/

/-- What the other requests write. -/
inductive Elsewhere
  | createBucket (name : Bytes) (quotaBytes : UInt64) (now : TimestampMs)
  | deleteBucket (name : Bytes)
  | createUpload (upload : UploadRecord)
  | putPart (bucket uploadId : Bytes) (part : PartRecord) (declared : UInt64) (now : TimestampMs)
  | abortUpload (uploadId : Bytes) (now : TimestampMs)

def Elsewhere.apply (engine : StorageEngine) : Elsewhere → StorageEngine
  | .createBucket name quotaBytes now => (engine.createBucket name quotaBytes now).1
  | .deleteBucket name => (engine.deleteBucket name).1
  | .createUpload upload => (engine.createUpload upload).1
  | .putPart bucket uploadId part declared now =>
    (engine.putPart bucket uploadId part declared now).1
  | .abortUpload uploadId now => (engine.abortUpload uploadId now).1

/-- What else happens to the cache: the steps of `requireBucket` and of
`invalidateBucket`, and the maintenance task. -/
inductive CacheUse
  | getBucket (ticks : Int64) (name : Bytes)
  | putBucket (ticks : Int64) (name : Bytes) (record : BucketRecord)
  | delBucket (name : Bytes)
  | evict (ticks : Int64) (budgetBytes : UInt64)

def CacheUse.apply (config : ServerConfig) (cache : MemoryCache) : CacheUse → MemoryCache
  | .getBucket ticks name => (cache.get config.hash ticks (bucketCacheKey name)).1
  | .putBucket ticks name record =>
    cache.set config.hash ticks (bucketCacheKey name) (encodeCachedBucket record)
      config.cacheTtlSeconds
  | .delBucket name => (cache.del config.hash (bucketCacheKey name)).1
  | .evict ticks budgetBytes => cache.evict ticks budgetBytes

abbrev State (ι : Type) := Pool ι Server Phase

inductive Label (ι : Type)
  | arrive (who : ι) (request : Request)
  | call (who : ι) (ticks : Int64) (now : TimestampMs)
  | elsewhere (write : Elsewhere)
  | cache (use : CacheUse)

section Steps

variable {ι : Type} [DecidableEq ι] (config : ServerConfig)

def step (state : State ι) : Label ι → Option (State ι)
  | .arrive who request =>
    match state.calls who with
    | .idle => some (state.move who state.shared (arrive request))
    | _ => none
  | .call who ticks now =>
    (act config ticks now state.shared (state.calls who)).map fun (server, phase) =>
      state.move who server phase
  | .elsewhere write =>
    some { state with
      shared := { state.shared with engine := write.apply state.shared.engine } }
  | .cache use =>
    some { state with
      shared := { state.shared with cache := use.apply config state.shared.cache } }

end Steps

end MonoBucket.ObjectCache

/-
The store's mutations on a disk that fails

The mutations of the metadata store again, statement by statement, with RocksDB's
answer to the write of each: a write that fails applies nothing and throws. Most
of them move their counters once the write is in. A put of an object, a
completion and a put of a part move some before it, and a completion even reads
the parts in between, so what they throw from there on leaves the counters moved
unless the moves add up to nothing.

On a disk that works they are the mutations of the store.
-/

import MonoBucket.Lib.Throwing
import MonoBucket.Storage.MetadataStore

namespace MonoBucket.FailedWrites

open Codec

/-! ### Statements -/

abbrev Mutation (α : Type) := Throwing MetadataStore StoreError α

/-- A `rocksdb::Status` that is not OK, with its text. -/
inductive Status
  | corruption (text : Bytes)
  | ioError (text : Bytes)
  | other (text : Bytes)
  deriving DecidableEq

/-- `check`. -/
def Status.error (context : Bytes) : Status → StoreError
  | corruption text => .storage .corruption (context ++ ascii ": " ++ text)
  | ioError text => .storage .io (context ++ ascii ": " ++ text)
  | other text => .storage .internal (context ++ ascii ": " ++ text)

/-- What a write meets: a disk that works, or the status it fails with. -/
abbrev Disk := Option Status

/-- A read of the rows. -/
def read {α : Type} (read : Rows → Except StoreError α) : Mutation α := do
  match read (← get).rows with
  | .ok value => pure value
  | .error error => throw error

/-- `check(db_->Write(..), context)`. -/
def write (disk : Disk) (context : Bytes) (batch : WriteBatch) : Mutation Unit :=
  match disk with
  | some status => throw (status.error context)
  | none => modify fun store => { store with rows := store.rows.write batch }

/-- `fetch_add` and `fetch_sub` of the counters. -/
def count (change : Counters → Counters) : Mutation Unit :=
  modify fun store => { store with counters := change store.counters }

/-! ### Buckets -/

def createBucket (disk : Disk) (bucket : BucketRecord) : Mutation Unit := do
  read fun rows =>
    match rows.find? (Keys.bucket bucket.name) with
    | some _ =>
      fail .bucketAlreadyExists (ascii "bucket \x27" ++ bucket.name ++ ascii "\x27 already exists")
    | none => .ok ()
  write disk (ascii "creating bucket \x27" ++ bucket.name ++ ascii "\x27")
    [.put (Keys.bucket bucket.name) (encodeBucket bucket)]
  count fun counters => { counters with buckets := counters.buckets + 1 }

/-- The checks of `deleteBucket`. -/
def requireEmptyBucket (rows : Rows) (name : Bytes) : Except StoreError Unit := do
  match ← loadBucket rows name with
  | none => noSuchBucket name
  | some _ =>
    if rows.hasAny (Keys.objectPrefix name) then
      fail .bucketNotEmpty (ascii "bucket \x27" ++ name ++ ascii "\x27 still contains objects")
    else if rows.hasAny (Keys.uploadByKeyPrefix name) then
      fail .bucketNotEmpty (ascii "bucket \x27" ++ name ++ ascii "\x27 has multipart uploads in progress")
    else pure ()

def deleteBucket (disk : Disk) (name : Bytes) : Mutation Unit := do
  read fun rows => requireEmptyBucket rows name
  write disk (ascii "deleting bucket \x27" ++ name ++ ascii "\x27") [.delete (Keys.bucket name)]
  count fun counters => { counters with buckets := counters.buckets - 1 }

/-! ### Objects -/

/-- What a publishing mutation counts before its write. -/
def countPublishing (previous : Option ObjectRecord) : Mutation Unit := do
  match previous with
  | some object => count fun counters => { counters with bytes := counters.bytes - object.size }
  | none => count fun counters => { counters with objects := counters.objects + 1 }
  count fun counters => { counters with orphans := counters.orphans - 1 }
  if previous.isSome then
    count fun counters => { counters with orphans := counters.orphans + 1 }

/-- The reads of `putObject` before it counts. -/
def previousObject (rows : Rows) (bucket : Bytes) (object : ObjectRecord) :
    Except StoreError (Option ObjectRecord) := do
  requireBucket rows bucket
  loadObject rows (Keys.object bucket object.key) object.key

def putObject (disk : Disk) (bucket : Bytes) (object : ObjectRecord) (now : TimestampMs) :
    Mutation PutOutcome := do
  let previous ← read fun rows => previousObject rows bucket object
  countPublishing previous
  write disk (ascii "putting object \x27" ++ object.key ++ ascii "\x27")
    (putObjectBatch bucket object previous now)
  count fun counters => { counters with bytes := counters.bytes + object.size }
  pure (PutOutcome.ofObject previous)

/-- The reads of `deleteObject`. -/
def existingObject (rows : Rows) (bucket key : Bytes) :
    Except StoreError (Option ObjectRecord) := do
  requireBucket rows bucket
  loadObject rows (Keys.object bucket key) key

def deleteObject (disk : Disk) (bucket key : Bytes) (now : TimestampMs) :
    Mutation DeleteOutcome := do
  match ← read fun rows => existingObject rows bucket key with
  | none => pure {}
  | some existing =>
    write disk (ascii "deleting object \x27" ++ key ++ ascii "\x27")
      (deleteObjectBatch bucket key existing now)
    count fun counters =>
      { counters with
        objects := counters.objects - 1
        bytes := counters.bytes - existing.size
        orphans := counters.orphans + 1 }
    pure (DeleteOutcome.ofObject existing)

/-! ### Multipart -/

def createUpload (disk : Disk) (upload : UploadRecord) : Mutation Unit := do
  read fun rows => requireBucket rows upload.bucket.items
  write disk (ascii "creating upload for \x27" ++ upload.key.items ++ ascii "\x27")
    (createUploadBatch upload)
  count fun counters => { counters with uploads := counters.uploads + 1 }

/-- The reads of `putPart` before it counts. -/
def previousPart (rows : Rows) (uploadId : Bytes) (part : PartRecord) :
    Except StoreError (Option PartRecord) := do
  checkPartNumber part.partNumber
  match ← loadUpload rows uploadId with
  | none => noSuchUpload uploadId
  | some _ => loadPart rows uploadId part.partNumber

/-- What `putPart` counts before its write. -/
def countPart (previous : Option PartRecord) : Mutation Unit := do
  count fun counters => { counters with orphans := counters.orphans - 1 }
  if previous.isSome then
    count fun counters => { counters with orphans := counters.orphans + 1 }

def putPart (disk : Disk) (uploadId : Bytes) (part : PartRecord) (now : TimestampMs) :
    Mutation PutOutcome := do
  let previous ← read fun rows => previousPart rows uploadId part
  countPart previous
  write disk (ascii "storing part " ++ decimal part.partNumber.toNat)
    (putPartBatch uploadId part previous now)
  pure (PutOutcome.ofPart previous)

/-- The reads of `abortUpload`. -/
def uploadAndParts (rows : Rows) (uploadId : Bytes) :
    Except StoreError (UploadRecord × List PartRecord) := do
  match ← loadUpload rows uploadId with
  | none => noSuchUpload uploadId
  | some upload =>
    let parts ← collectParts rows uploadId
    pure (upload, parts)

def abortUpload (disk : Disk) (uploadId : Bytes) (now : TimestampMs) : Mutation AbortOutcome := do
  let (upload, parts) ← read fun rows => uploadAndParts rows uploadId
  write disk (ascii "aborting upload " ++ uploadId) (abortUploadBatch upload parts now)
  count fun counters => counters.finished parts
  pure (AbortOutcome.ofParts upload parts)

/-- The reads of `completeUpload` before it counts. -/
def uploadAndPrevious (rows : Rows) (bucket uploadId : Bytes) (object : ObjectRecord) :
    Except StoreError (UploadRecord × Option ObjectRecord) := do
  requireBucket rows bucket
  match ← loadUpload rows uploadId with
  | none => noSuchUpload uploadId
  | some upload =>
    let previous ← loadObject rows (Keys.object bucket object.key) object.key
    pure (upload, previous)

def completeUpload (disk : Disk) (bucket uploadId : Bytes) (object : ObjectRecord)
    (now : TimestampMs) : Mutation CompleteOutcome := do
  let (upload, previous) ← read fun rows => uploadAndPrevious rows bucket uploadId object
  countPublishing previous
  let parts ← read fun rows => collectParts rows uploadId
  write disk (ascii "completing upload " ++ uploadId)
    (completeUploadBatch bucket upload object previous parts now)
  count fun counters => { counters with bytes := counters.bytes + object.size }.finished parts
  pure (CompleteOutcome.ofRead previous parts)

/-! ### Reclamation -/

def trackBlob (disk : Disk) (blobId : Bytes) (now : TimestampMs) : Mutation Unit := do
  write disk (ascii "tracking blob " ++ blobId) [orphanRow blobId now]
  count fun counters => { counters with orphans := counters.orphans + 1 }

def forgetOrphans (disk : Disk) (blobIds : List Bytes) : Mutation Unit := do
  if blobIds ≠ [] then
    write disk (ascii "forgetting reclaimed blobs")
      (blobIds.map fun blobId => .delete (Keys.orphan blobId))
    count fun counters =>
      { counters with
        orphans :=
          if blobIds.length.toUInt64 < counters.orphans then
            counters.orphans - blobIds.length.toUInt64
          else 0 }

/-! ### What the statements leave -/

section Statements

variable {α : Type} {store next : MetadataStore} {error : StoreError}

theorem outcome_read (reading : Rows → Except StoreError α) (store : MetadataStore) :
    (read reading).outcome store = (reading store.rows, store) := by
  show (match reading store.rows with | .ok value => pure value | .error error => throw error :
    Mutation α).outcome store = _
  cases reading store.rows <;> rfl

theorem outcome_count (change : Counters → Counters) (store : MetadataStore) :
    (count change).outcome store = (.ok (), { store with counters := change store.counters }) := rfl

theorem outcome_countPublishing (previous : Option ObjectRecord) (store : MetadataStore) :
    (countPublishing previous).outcome store =
      (.ok (), { store with counters := store.counters.publishing previous }) := by
  cases previous <;> rfl

theorem outcome_countPart (previous : Option PartRecord) (store : MetadataStore) :
    (countPart previous).outcome store =
      (.ok (), { store with counters := store.counters.storingPart previous }) := by
  cases previous <;> rfl

theorem outcome_write_none (context : Bytes) (batch : WriteBatch) (store : MetadataStore) :
    (write none context batch).outcome store =
      (.ok (), { store with rows := store.rows.write batch }) := rfl

theorem inspects_read (reading : Rows → Except StoreError α) : (read reading).Inspects := fun store => by
  rw [outcome_read]

theorem returns_count (change : Counters → Counters) : (count change).Returns :=
  fun store => ⟨(), _, outcome_count change store⟩

/-- A write that fails has applied nothing. -/
theorem untraced_write (disk : Disk) (context : Bytes) (batch : WriteBatch) :
    (write disk context batch).Untraced := by
  cases disk with
  | none => exact Throwing.Returns.untraced fun store => ⟨(), _, outcome_write_none context batch store⟩
  | some status => exact (Throwing.inspects_throw _).untraced

/-- A write and what is counted behind it. -/
theorem untraced_write_count (disk : Disk) (context : Bytes) (batch : WriteBatch)
    (change : Counters → Counters) (answer : α) :
    (do write disk context batch; count change; pure answer : Mutation α).Untraced :=
  (untraced_write disk context batch).bind_returns fun _ =>
    (returns_count change).bind fun _ => Throwing.returns_pure answer

end Statements

/-! ### Mutations that count behind their write -/

theorem untraced_createBucket (disk : Disk) (bucket : BucketRecord) :
    (createBucket disk bucket).Untraced :=
  .bind_inspects (inspects_read _) fun _ =>
    (untraced_write _ _ _).bind_returns fun _ => returns_count _

theorem untraced_deleteBucket (disk : Disk) (name : Bytes) : (deleteBucket disk name).Untraced :=
  .bind_inspects (inspects_read _) fun _ =>
    (untraced_write _ _ _).bind_returns fun _ => returns_count _

theorem untraced_deleteObject (disk : Disk) (bucket key : Bytes) (now : TimestampMs) :
    (deleteObject disk bucket key now).Untraced := by
  refine .bind_inspects (inspects_read _) fun existing => ?_
  cases existing with
  | none => exact (Throwing.inspects_pure _).untraced
  | some existing => exact untraced_write_count _ _ _ _ _

theorem untraced_createUpload (disk : Disk) (upload : UploadRecord) :
    (createUpload disk upload).Untraced :=
  .bind_inspects (inspects_read _) fun _ =>
    (untraced_write _ _ _).bind_returns fun _ => returns_count _

theorem untraced_abortUpload (disk : Disk) (uploadId : Bytes) (now : TimestampMs) :
    (abortUpload disk uploadId now).Untraced :=
  .bind_inspects (inspects_read _) fun (_, _) => untraced_write_count _ _ _ _ _

theorem untraced_trackBlob (disk : Disk) (blobId : Bytes) (now : TimestampMs) :
    (trackBlob disk blobId now).Untraced :=
  (untraced_write _ _ _).bind_returns fun _ => returns_count _

theorem untraced_forgetOrphans (disk : Disk) (blobIds : List Bytes) :
    (forgetOrphans disk blobIds).Untraced := by
  rw [forgetOrphans]
  split_ifs
  · exact (untraced_write _ _ _).bind_returns fun _ => returns_count _
  · exact (Throwing.inspects_pure _).untraced

/-! ### Mutations that count before it -/

section Counting

variable {store next : MetadataStore} {error : StoreError} {disk : Disk} {now : TimestampMs}

/-- What throws behind a read and a count leaves the count. -/
theorem thrown_of_counting {α β : Type} {reading : Rows → Except StoreError α}
    {counting : α → Mutation Unit} (change : α → Counters → Counters) {rest : α → Mutation β}
    (hcounting : ∀ value store, (counting value).outcome store =
      (.ok (), { store with counters := change value store.counters }))
    (hrest : ∀ value, (rest value).Untraced)
    (h : (do let value ← read reading; counting value; rest value : Mutation β).outcome store =
      (.error error, next)) :
    (reading store.rows = .error error ∧ next = store) ∨
      ∃ value, reading store.rows = .ok value ∧
        next = { store with counters := change value store.counters } := by
  rcases Throwing.thrown_of_bind h with hthrown | ⟨value, middle, hvalue, hthrown⟩
  · rw [outcome_read] at hthrown
    obtain ⟨hread, rfl⟩ := Prod.mk.inj hthrown
    exact Or.inl ⟨hread, rfl⟩
  · rw [outcome_read] at hvalue
    obtain ⟨hread, rfl⟩ := Prod.mk.inj hvalue
    refine Or.inr ⟨value, hread, ?_⟩
    rcases Throwing.thrown_of_bind hthrown with hthrown | ⟨⟨⟩, counted, hcounted, hthrown⟩
    · rw [hcounting] at hthrown
      cases (Prod.mk.inj hthrown).1
    · rw [hcounting] at hcounted
      obtain ⟨-, rfl⟩ := Prod.mk.inj hcounted
      exact hrest value _ _ _ hthrown

theorem thrown_of_putObject {bucket : Bytes} {object : ObjectRecord}
    (h : (putObject disk bucket object now).outcome store = (.error error, next)) :
    (previousObject store.rows bucket object = .error error ∧ next = store) ∨
      ∃ previous, previousObject store.rows bucket object = .ok previous ∧
        next = { store with counters := store.counters.publishing previous } :=
  thrown_of_counting (fun previous counters => counters.publishing previous)
    outcome_countPublishing (fun _ => untraced_write_count _ _ _ _ _) h

theorem thrown_of_putPart {uploadId : Bytes} {part : PartRecord}
    (h : (putPart disk uploadId part now).outcome store = (.error error, next)) :
    (previousPart store.rows uploadId part = .error error ∧ next = store) ∨
      ∃ previous, previousPart store.rows uploadId part = .ok previous ∧
        next = { store with counters := store.counters.storingPart previous } :=
  thrown_of_counting (fun previous counters => counters.storingPart previous)
    outcome_countPart
    (fun _ => (untraced_write _ _ _).bind_returns fun _ => Throwing.returns_pure _) h

theorem thrown_of_completeUpload {bucket uploadId : Bytes} {object : ObjectRecord}
    (h : (completeUpload disk bucket uploadId object now).outcome store = (.error error, next)) :
    (uploadAndPrevious store.rows bucket uploadId object = .error error ∧ next = store) ∨
      ∃ found, uploadAndPrevious store.rows bucket uploadId object = .ok found ∧
        next = { store with counters := store.counters.publishing found.2 } :=
  thrown_of_counting (fun found counters => counters.publishing found.2)
    (fun found => outcome_countPublishing found.2)
    (fun _ => .bind_inspects (inspects_read _) fun _ => untraced_write_count _ _ _ _ _) h

end Counting

/-! ### When the counts add up to nothing -/

/-- A replaced object of no size. -/
theorem publishing_eq_iff (counters : Counters) (previous : Option ObjectRecord) :
    counters.publishing previous = counters ↔ ∃ object, previous = some object ∧ object.size = 0 := by
  cases previous with
  | none =>
      refine iff_of_false (fun h => ?_) (by simp)
      have hobjects := congrArg Counters.objects h
      simp [Counters.publishing] at hobjects
  | some object =>
      have hsame : (counters.publishing (some object)).bytes = counters.bytes ↔ object.size = 0 := by
        show counters.bytes - object.size = counters.bytes ↔ object.size = 0
        constructor
        · intro h
          grind
        · intro h
          rw [h, UInt64.sub_zero]
      constructor
      · exact fun h => ⟨object, rfl, hsame.mp (congrArg Counters.bytes h)⟩
      · rintro ⟨replaced, hreplaced, hsize⟩
        obtain rfl := Option.some.inj hreplaced
        simp [Counters.publishing, hsize]

/-- A replaced part of any size. -/
theorem storingPart_eq_iff (counters : Counters) (previous : Option PartRecord) :
    counters.storingPart previous = counters ↔ previous.isSome := by
  cases previous with
  | none =>
      refine iff_of_false (fun h => ?_) (by simp)
      have horphans := congrArg Counters.orphans h
      simp only [Counters.storingPart, Option.isSome_none] at horphans
      grind
  | some part => simp [Counters.storingPart]

/-! ### A disk that works -/

section Working

variable (store : MetadataStore) (now : TimestampMs)

/-- What a mutation that throws before its batch leaves and answers. -/
def settle {α : Type} (store : MetadataStore) :
    Except StoreError (MetadataStore × α) → Except StoreError α × MetadataStore
  | .ok (next, answer) => (.ok answer, next)
  | .error error => (.error error, store)

/-- With nothing to answer. -/
def settleUnit (store : MetadataStore) (answer : Except StoreError MetadataStore) :
    Except StoreError Unit × MetadataStore :=
  settle store (answer.map fun next => (next, ()))

theorem outcome_createBucket (bucket : BucketRecord) :
    (createBucket none bucket).outcome store =
      settleUnit store (MonoBucket.createBucket store bucket) := by
  rw [createBucket, Throwing.outcome_bind, outcome_read, MonoBucket.createBucket]
  cases store.rows.find? (Keys.bucket bucket.name) <;> rfl

theorem outcome_deleteBucket (name : Bytes) :
    (deleteBucket none name).outcome store = settleUnit store (MonoBucket.deleteBucket store name) := by
  rw [deleteBucket, Throwing.outcome_bind, outcome_read, MonoBucket.deleteBucket, requireEmptyBucket]
  cases loadBucket store.rows name with
  | error error => rfl
  | ok found =>
      cases found with
      | none => rfl
      | some bucket =>
          cases store.rows.hasAny (Keys.objectPrefix name) with
          | true => rfl
          | false => cases store.rows.hasAny (Keys.uploadByKeyPrefix name) <;> rfl

theorem outcome_putObject (bucket : Bytes) (object : ObjectRecord) :
    (putObject none bucket object now).outcome store =
      settle store (MonoBucket.putObject store bucket object now) := by
  rw [putObject, Throwing.outcome_bind, outcome_read, MonoBucket.putObject, previousObject]
  cases requireBucket store.rows bucket with
  | error error => rfl
  | ok present =>
      cases loadObject store.rows (Keys.object bucket object.key) object.key with
      | error error => rfl
      | ok previous => cases previous <;> rfl

theorem outcome_deleteObject (bucket key : Bytes) :
    (deleteObject none bucket key now).outcome store =
      settle store (MonoBucket.deleteObject store bucket key now) := by
  rw [deleteObject, Throwing.outcome_bind, outcome_read, MonoBucket.deleteObject, existingObject]
  cases requireBucket store.rows bucket with
  | error error => rfl
  | ok present =>
      cases loadObject store.rows (Keys.object bucket key) key with
      | error error => rfl
      | ok existing => cases existing <;> rfl

theorem outcome_createUpload (upload : UploadRecord) :
    (createUpload none upload).outcome store =
      settleUnit store (MonoBucket.createUpload store upload) := by
  rw [createUpload, Throwing.outcome_bind, outcome_read, MonoBucket.createUpload]
  cases requireBucket store.rows upload.bucket.items <;> rfl

theorem outcome_putPart (uploadId : Bytes) (part : PartRecord) :
    (putPart none uploadId part now).outcome store =
      settle store (MonoBucket.putPart store uploadId part now) := by
  rw [putPart, Throwing.outcome_bind, outcome_read, MonoBucket.putPart, previousPart]
  cases checkPartNumber part.partNumber with
  | error error => rfl
  | ok valid =>
      cases loadUpload store.rows uploadId with
      | error error => rfl
      | ok found =>
          cases found with
          | none => rfl
          | some upload =>
              cases loadPart store.rows uploadId part.partNumber with
              | error error => rfl
              | ok previous => cases previous <;> rfl

theorem outcome_abortUpload (uploadId : Bytes) :
    (abortUpload none uploadId now).outcome store =
      settle store (MonoBucket.abortUpload store uploadId now) := by
  rw [abortUpload, Throwing.outcome_bind, outcome_read, MonoBucket.abortUpload, uploadAndParts]
  cases loadUpload store.rows uploadId with
  | error error => rfl
  | ok found =>
      cases found with
      | none => rfl
      | some upload => cases collectParts store.rows uploadId <;> rfl

/-- A completion throws between its counts and its write when a part row does not decode. -/
theorem outcome_completeUpload (bucket uploadId : Bytes) (object : ObjectRecord)
    {parts : List PartRecord} (hparts : collectParts store.rows uploadId = .ok parts) :
    (completeUpload none bucket uploadId object now).outcome store =
      settle store (MonoBucket.completeUpload store bucket uploadId object now) := by
  rw [completeUpload, Throwing.outcome_bind, outcome_read, MonoBucket.completeUpload,
    uploadAndPrevious]
  cases requireBucket store.rows bucket with
  | error error => rfl
  | ok present =>
      cases loadUpload store.rows uploadId with
      | error error => rfl
      | ok found =>
          cases found with
          | none => rfl
          | some upload =>
              rw [hparts]
              cases loadObject store.rows (Keys.object bucket object.key) object.key with
              | error error => rfl
              | ok previous =>
                  show (countPublishing previous >>= fun _ =>
                    (read fun rows => collectParts rows uploadId) >>= fun _ => _).outcome store = _
                  rw [Throwing.outcome_bind, outcome_countPublishing]
                  dsimp only
                  rw [Throwing.outcome_bind, outcome_read]
                  dsimp only
                  rw [hparts]
                  rfl

theorem outcome_trackBlob (blobId : Bytes) :
    (trackBlob none blobId now).outcome store = (.ok (), MonoBucket.trackBlob store blobId now) := rfl

theorem outcome_forgetOrphans (blobIds : List Bytes) :
    (forgetOrphans none blobIds).outcome store = (.ok (), MonoBucket.forgetOrphans store blobIds) := by
  by_cases h : blobIds = []
  · subst h
    rfl
  · rw [forgetOrphans, MonoBucket.forgetOrphans, if_pos h, if_neg h]
    rfl

end Working

/-! ### Every mutation -/

inductive Call
  | createBucket (bucket : BucketRecord)
  | deleteBucket (name : Bytes)
  | putObject (bucket : Bytes) (object : ObjectRecord) (now : TimestampMs)
  | deleteObject (bucket key : Bytes) (now : TimestampMs)
  | createUpload (upload : UploadRecord)
  | putPart (uploadId : Bytes) (part : PartRecord) (now : TimestampMs)
  | abortUpload (uploadId : Bytes) (now : TimestampMs)
  | completeUpload (bucket uploadId : Bytes) (object : ObjectRecord) (now : TimestampMs)
  | trackBlob (blobId : Bytes) (now : TimestampMs)
  | forgetOrphans (blobIds : List Bytes)

/-- The call on a disk, as far as its failure goes. -/
def Call.perform (disk : Disk) : Call → Mutation Unit
  | createBucket bucket => FailedWrites.createBucket disk bucket
  | deleteBucket name => FailedWrites.deleteBucket disk name
  | putObject bucket object now => do let _ ← FailedWrites.putObject disk bucket object now
  | deleteObject bucket key now => do let _ ← FailedWrites.deleteObject disk bucket key now
  | createUpload upload => FailedWrites.createUpload disk upload
  | putPart uploadId part now => do let _ ← FailedWrites.putPart disk uploadId part now
  | abortUpload uploadId now => do let _ ← FailedWrites.abortUpload disk uploadId now
  | completeUpload bucket uploadId object now => do
    let _ ← FailedWrites.completeUpload disk bucket uploadId object now
  | trackBlob blobId now => FailedWrites.trackBlob disk blobId now
  | forgetOrphans blobIds => FailedWrites.forgetOrphans disk blobIds

/-- What the call counts before its write adds up to nothing, or it throws before it
counts: it replaces an object of no size, or a part. -/
def Call.Balanced (store : MetadataStore) : Call → Prop
  | putObject bucket object _ =>
    ∀ previous, previousObject store.rows bucket object = .ok previous →
      ∃ replaced, previous = some replaced ∧ replaced.size = 0
  | putPart uploadId part _ =>
    ∀ previous, previousPart store.rows uploadId part = .ok previous → previous.isSome
  | completeUpload bucket uploadId object _ =>
    ∀ upload previous, uploadAndPrevious store.rows bucket uploadId object = .ok (upload, previous) →
      ∃ replaced, previous = some replaced ∧ replaced.size = 0
  | _ => True

section Every

variable {disk : Disk} {store next : MetadataStore} {error : StoreError}

/-- A call that forgets its answer throws as it does. -/
theorem thrown_of_forget {α : Type} {mutation : Mutation α}
    (h : (do let _ ← mutation : Mutation Unit).outcome store = (.error error, next)) :
    mutation.outcome store = (.error error, next) := by
  rcases Throwing.thrown_of_bind h with hthrown | ⟨value, middle, -, hthrown⟩
  · exact hthrown
  · cases (Prod.mk.inj hthrown).1

/-- A mutation that throws leaves the rows and the counters of `usage()` as they were exactly
when what it had counted adds up to nothing. -/
theorem traceless_iff_balanced (call : Call)
    (h : (call.perform disk).outcome store = (.error error, next)) :
    (next.rows = store.rows ∧ next.counters = store.counters) ↔ call.Balanced store := by
  have huntraced : ∀ {α : Type} {mutation : Mutation α}, mutation.Untraced →
      mutation.outcome store = (.error error, next) →
      next.rows = store.rows ∧ next.counters = store.counters := by
    intro α mutation hmutation hthrown
    obtain rfl := hmutation store error next hthrown
    exact ⟨rfl, rfl⟩
  cases call with
  | createBucket bucket => exact iff_of_true (huntraced (untraced_createBucket _ _) h) trivial
  | deleteBucket name => exact iff_of_true (huntraced (untraced_deleteBucket _ _) h) trivial
  | deleteObject bucket key now =>
      exact iff_of_true (huntraced (untraced_deleteObject _ _ _ _) (thrown_of_forget h)) trivial
  | createUpload upload => exact iff_of_true (huntraced (untraced_createUpload _ _) h) trivial
  | abortUpload uploadId now =>
      exact iff_of_true (huntraced (untraced_abortUpload _ _ _) (thrown_of_forget h)) trivial
  | trackBlob blobId now => exact iff_of_true (huntraced (untraced_trackBlob _ _ _) h) trivial
  | forgetOrphans blobIds => exact iff_of_true (huntraced (untraced_forgetOrphans _ _) h) trivial
  | putObject bucket object now =>
      rcases thrown_of_putObject (thrown_of_forget h) with ⟨hread, rfl⟩ | ⟨previous, hread, rfl⟩
      · exact iff_of_true ⟨rfl, rfl⟩ (by simp [Call.Balanced, hread])
      · simp [Call.Balanced, hread, publishing_eq_iff]
  | putPart uploadId part now =>
      rcases thrown_of_putPart (thrown_of_forget h) with ⟨hread, rfl⟩ | ⟨previous, hread, rfl⟩
      · exact iff_of_true ⟨rfl, rfl⟩ (by simp [Call.Balanced, hread])
      · simp [Call.Balanced, hread, storingPart_eq_iff]
  | completeUpload bucket uploadId object now =>
      rcases thrown_of_completeUpload (thrown_of_forget h) with ⟨hread, rfl⟩ | ⟨found, hread, rfl⟩
      · exact iff_of_true ⟨rfl, rfl⟩ (by simp [Call.Balanced, hread])
      · obtain ⟨upload, previous⟩ := found
        simp [Call.Balanced, hread, publishing_eq_iff]

end Every

/-! ### A full disk -/

def fullDisk : Disk := some (.ioError (ascii "no space left on device"))

def openUpload : UploadRecord where
  uploadId := ascii "id"
  bucket := ⟨ascii "photos", fits_photos⟩
  key := ⟨ascii "one", fits_one⟩

def storedPart : PartRecord where
  partNumber := 1
  blobId := ⟨ascii "first", fits_first⟩
  size := 7

/-- A bucket, and an upload with one part. -/
def oneUpload : MetadataStore where
  rows := Rows.write .empty
    (.put (Keys.bucket (ascii "photos")) (encodeBucket { name := ascii "photos" }) ::
      .put (Keys.part openUpload.uploadId 1) (encodePart storedPart) :: createUploadBatch openUpload)
  counters := { buckets := 1, uploads := 1 }

/-- The part is put again, and the write fails. -/
theorem traceless_replaced_part :
    ∃ next error, ((Call.putPart openUpload.uploadId storedPart 0).perform fullDisk).outcome oneUpload =
        (.error error, next) ∧
      next.rows = oneUpload.rows ∧ next.counters = oneUpload.counters := by
  have hbalanced : (Call.putPart openUpload.uploadId storedPart 0).Balanced oneUpload := by
    intro previous hprevious
    have hread : previousPart oneUpload.rows openUpload.uploadId storedPart =
        .ok (some storedPart) := by
      decide +kernel
    rw [hread] at hprevious
    rw [← Except.ok.inj hprevious]
    rfl
  obtain ⟨next, error, hthrown⟩ : ∃ next error,
      ((Call.putPart openUpload.uploadId storedPart 0).perform fullDisk).outcome oneUpload =
        (.error error, next) := ⟨_, _, rfl⟩
  exact ⟨next, error, hthrown, (traceless_iff_balanced _ hthrown).mpr hbalanced⟩

/-- A new object is put, and the write fails: it is counted all the same. -/
theorem traced_new_object :
    ∃ next error, ((Call.putObject (ascii "photos")
        { key := ascii "two", blobId := ⟨ascii "second", by decide⟩, size := 5 } 0).perform
          fullDisk).outcome oneUpload = (.error error, next) ∧
      ¬ (next.rows = oneUpload.rows ∧ next.counters = oneUpload.counters) :=
  ⟨_, _, rfl, fun h => absurd h.2 (by decide +kernel)⟩

end MonoBucket.FailedWrites

/-
The engine's calls, step by step

`finishWrite`, `deleteObject`, `finishPart`, `abortUpload`, `completeUpload`,
`getObject`, `reclaim` and `checkpoint` of the storage engine as the steps another
thread can come between: a claim on the ledger, a marker, a file linked into the
tree, the steps of the store's own call, the ledger settled, the checkpoint flag
read, one file unlinked, the markers dropped.

Each file removal may find its file or not, and may fail; a checkpoint visits the
files in whatever order the directory gives them, and may give up. New payload and
upload ids come from the system's random source: none is given out twice.
-/

import MonoBucket.Storage.BlobCustody
import MonoBucket.Storage.EngineWrites

namespace MonoBucket.EngineCalls

open StoreCalls (Commit)

/-! ### State -/

structure Config where
  /-- The stripe of the store's locks a key is picked for. -/
  stripeFor : Bytes → Nat
  maxUploadBytes : UInt64
  reclaimGraceMs : TimestampMs

/-- What a checkpoint leaves at its destination. -/
structure Copy where
  rows : Rows
  tree : OrderedMap Bytes Bytes

/-- The store, the ledger, the payload tree and the checkpoint flag. What follows
them is not the engine's: when the last step was, when each payload was marked,
the uploads there have been, and what each file held when it was linked in. -/
structure Shared (ι : Type) where
  store : StoreCalls.Shared ι := {}
  quotas : QuotaLedger := {}
  tree : OrderedMap Bytes Bytes := .empty
  checkpointing : Bool := false
  clock : TimestampMs := 0
  tracked : OrderedMap Bytes TimestampMs := .empty
  uploads : List Bytes := []
  written : OrderedMap Bytes Bytes := .empty

namespace Shared

variable {ι : Type}

def rows (shared : Shared ι) : Rows := shared.store.store.rows

/-- The engine as an operation that runs alone finds it. -/
def engine (shared : Shared ι) (config : Config) : StorageEngine where
  metadata := shared.store.store
  quotas := shared.quotas
  maxUploadBytes := config.maxUploadBytes

def withEngine (shared : Shared ι) (engine : StorageEngine) : Shared ι :=
  { shared with
    store := { shared.store with store := engine.metadata }
    quotas := engine.quotas }

end Shared

/-! ### Calls -/

/-- A payload on its way into a row. -/
inductive Write
  | object (bucket : Bytes) (object : ObjectRecord)
  | part (uploadId : Bytes) (part : PartRecord)
  | completion (upload : UploadRecord) (parts : List PartRecord) (object : ObjectRecord)

namespace Write

def blobId : Write → Bytes
  | object _ record | completion _ _ record => record.blobId.items
  | part _ record => record.blobId.items

def size : Write → UInt64
  | object _ record | completion _ _ record => record.size
  | part _ record => record.size

def operation : Write → StoreCalls.Operation
  | object bucket record => .putObject bucket record
  | part uploadId record => .putPart uploadId record
  | completion upload _ record => .completeUpload upload.bucket.items upload.uploadId record

end Write

/-- What a call returns: what its store call did, an error, what it read, or what
a pass or a checkpoint came to. -/
inductive Answer
  | done (commit : Option Commit)
  | failed (error : StoreError)
  | absent
  | object (record : ObjectRecord) (body : Bytes)
  | reclaimed (count : Nat)
  | copied (copy : Copy)
  | notCopied

/-- Where a call is. A claim on the ledger goes with the write it was made for. -/
inductive Phase
  | idle
  | reserve (bucket : Bytes) (declared : UInt64) (write : Write) (body : Bytes)
  | track (reservation : Reservation) (write : Write) (body : Bytes)
  | partFind (reservation : Reservation) (uploadId : Bytes) (part : PartRecord) (body : Bytes)
  | partFindAgain (reservation : Reservation) (upload : UploadRecord) (part : PartRecord)
    (body : Bytes)
  | partList (reservation : Reservation) (upload : UploadRecord) (part : PartRecord) (body : Bytes)
  | completeFind (uploadId : Bytes) (requested : List StorageEngine.RequestedPart)
    (object : ObjectRecord)
  | completeFindAgain (upload : UploadRecord) (requested : List StorageEngine.RequestedPart)
    (object : ObjectRecord)
  | completeList (upload : UploadRecord) (requested : List StorageEngine.RequestedPart)
    (object : ObjectRecord)
  | append (upload : UploadRecord) (parts rest : List PartRecord) (object : ObjectRecord)
    (body : Bytes)
  | rename (bucket : Bytes) (reservation : Reservation) (write : Write) (body : Bytes)
  | extend (bucket : Bytes) (reservation : Reservation) (write : Write)
  /-- Inside the store, or back from it with the ledger to settle. -/
  | store (bucket : Bytes) (reservation : Reservation) (call : StoreCalls.Phase)
  | refuse (reservation : Reservation) (error : StoreError)
  /-- About to read the checkpoint flag for the first of some releases. -/
  | look (answer : Answer) (batches : List (List Bytes))
  | unlink (answer : Answer) (rest blobIds : List Bytes) (batches : List (List Bytes))
  | sweep (limit : Nat)
  | sweepLook (limit : Nat) (cutoff : TimestampMs)
  | sweepList (limit : Nat) (cutoff : TimestampMs)
  | getRead (bucket key : Bytes)
  | getOpen (record : ObjectRecord)
  | raise
  | snapshot
  | scan (rows : Rows)
  | copy (rows : Rows) (pending : List Bytes) (copied : OrderedMap Bytes Bytes)
  | drop (answer : Answer)
  | returned (answer : Answer)

/-- The requests of the engine. A payload's id, digests and time are whatever its
writer will find; its size is the length of its bytes. -/
inductive Request
  | putObject (bucket : Bytes) (object : ObjectRecord) (body : Bytes) (declared : UInt64)
  | deleteObject (bucket key : Bytes)
  | putPart (bucket uploadId : Bytes) (part : PartRecord) (body : Bytes) (declared : UInt64)
  | abortUpload (uploadId : Bytes)
  | completeUpload (uploadId : Bytes) (requested : List StorageEngine.RequestedPart)
    (object : ObjectRecord)
  | getObject (bucket key : Bytes)
  | reclaim (limit : Nat)
  | checkpoint

def begin : Request → Phase
  | .putObject bucket object body declared =>
    .reserve bucket declared (.object bucket { object with size := body.length.toUInt64 }) body
  | .deleteObject bucket key => .store bucket {} (StoreCalls.begin (.deleteObject bucket key))
  | .putPart bucket uploadId part body declared =>
    .reserve bucket declared (.part uploadId { part with size := body.length.toUInt64 }) body
  | .abortUpload uploadId => .store [] {} (StoreCalls.begin (.abortUpload uploadId))
  | .completeUpload uploadId requested object => .completeFind uploadId requested object
  | .getObject bucket key => .getRead bucket key
  | .reclaim limit => .sweep limit
  | .checkpoint => .raise

inductive Effect
  | nothing
  | ledger (quotas : QuotaLedger)
  | track (blobId : Bytes)
  | rename (blobId body : Bytes)
  | store (effect : StoreCalls.Effect)
  | unlink (blobId : Bytes)
  | forget (blobIds : List Bytes)
  | raise
  | drop

/-! ### Between the steps -/

/-- Where a write goes once its payload is marked. -/
def Write.tracked (reservation : Reservation) (body : Bytes) : Write → Phase
  | .object bucket record => .rename bucket reservation (.object bucket record) body
  | .part uploadId record => .partFind reservation uploadId record body
  | .completion upload parts record => .append upload parts parts record body

/-- A completion is charged already; any other write has its claim raised. -/
def Write.renamed (bucket : Bytes) (reservation : Reservation) : Write → Phase
  | .completion upload parts record =>
    .store bucket reservation (StoreCalls.begin (Write.completion upload parts record).operation)
  | write => .extend bucket reservation write

/-- What is refused before the payload is linked in. -/
def Write.check (config : Config) : Write → Except StoreError Unit
  | .object _ record => do
    StorageEngine.requireStorableKey record.key
    StorageEngine.requireWithinUploadLimit { maxUploadBytes := config.maxUploadBytes } record.size
      (ascii "the object")
  | .part .. | .completion .. => .ok ()

/-- The parts a completion assembles, or why it may not. -/
def assemble (config : Config) (stored : List PartRecord)
    (requested : List StorageEngine.RequestedPart) : Except StoreError (List PartRecord) := do
  let ordered ← StorageEngine.orderedParts stored 0 requested
  StorageEngine.requirePartSizes ordered
  StorageEngine.requireWithinUploadLimit { maxUploadBytes := config.maxUploadBytes }
    (partBytes ordered) (ascii "the completed object")
  pure ordered

def requireRoomForPart (config : Config) (stored : List PartRecord) (part : PartRecord) :
    Except StoreError Unit :=
  StorageEngine.requireWithinUploadLimit { maxUploadBytes := config.maxUploadBytes }
    (partBytes (stored.filter fun other => other.partNumber ≠ part.partNumber) + part.size)
    (ascii "the completed object")

/-- `BlobStore::open` of a payload that is not there. -/
def missingPayload (blobId : Bytes) : StoreError :=
  .storage .noSuchKey (ascii "payload " ++ blobId ++ ascii " is missing from the store")

/-- The ledger once a store call has returned. -/
def settle (quotas : QuotaLedger) (bucket : Bytes) (reservation : Reservation) :
    Option Commit → QuotaLedger
  | none => quotas.recordDeletion bucket 0
  | some (.putObject _ object previous) =>
    quotas.recordObject bucket reservation object.size (PutOutcome.ofObject previous).replacedBytes
  | some (.deleteObject _ _ existing) => quotas.recordDeletion bucket existing.size
  | some (.putPart _ part previous) =>
    quotas.recordPart bucket reservation part.size (PutOutcome.ofPart previous).replacedBytes
  | some (.abortUpload upload parts) =>
    quotas.recordUploadAborted upload.bucket.items (partBytes parts)
  | some (.completeUpload _ _ object previous parts) =>
    quotas.recordUploadCompleted bucket object.size (PutOutcome.ofObject previous).replacedBytes
      (partBytes parts)

/-- What a commit released, as `reclaimNow` is given it. -/
def releases : Option Commit → List (List Bytes)
  | none => []
  | some (.putObject _ _ previous) => (PutOutcome.ofObject previous).releasedBlobId.toList.map ([·])
  | some (.deleteObject _ _ existing) => [[existing.blobId.items]]
  | some (.putPart _ _ previous) => (PutOutcome.ofPart previous).releasedBlobId.toList.map ([·])
  | some (.abortUpload _ parts) => [partBlobIds parts].filter (· ≠ [])
  | some (.completeUpload _ _ _ previous parts) =>
    (PutOutcome.ofObject previous).releasedBlobId.toList.map ([·]) ++
      [partBlobIds parts].filter (· ≠ [])

section Steps

variable {ι : Type} (config : Config)

/-- A read of the store, and where the call goes from what it finds. -/
def reading {α : Type} (read : Except StoreError α) (failed : StoreError → Phase) (next : α → Phase) :
    Option (Effect × Phase) :=
  match read with
  | .error error => some (.nothing, failed error)
  | .ok found => some (.nothing, next found)

/-- A read of an upload that has to be there. -/
def finding (rows : Rows) (uploadId : Bytes) (failed : StoreError → Phase)
    (next : UploadRecord → Phase) : Option (Effect × Phase) :=
  reading (do
    match ← loadUpload rows uploadId with
    | none => noSuchUpload uploadId
    | some upload => pure upload) failed next

/-- One step of a call. An id that has been given out is not given out again, and a
lock somebody holds is waited for. -/
def act (shared : Shared ι) (now : TimestampMs) : Phase → Option (Effect × Phase)
  | .idle | .returned _ | .unlink _ (_ :: _) _ _ | .copy _ (_ :: _) _ => none
  | .reserve bucket declared write body =>
    match shared.quotas.reserve bucket declared with
    | .error error => some (.nothing, .returned (.failed error))
    | .ok (quotas, reservation) => some (.ledger quotas, .track reservation write body)
  | .track reservation write body =>
    match shared.tracked.find? write.blobId with
    | some _ => none
    | none => some (.track write.blobId, write.tracked reservation body)
  | .partFind reservation uploadId part body =>
    finding shared.rows uploadId (.refuse reservation) fun upload =>
      .partFindAgain reservation upload part body
  | .partFindAgain reservation upload part body =>
    finding shared.rows upload.uploadId (.refuse reservation) fun _ =>
      .partList reservation upload part body
  | .partList reservation upload part body =>
    reading (do
      let stored ← collectParts shared.rows upload.uploadId
      requireRoomForPart config stored part) (.refuse reservation) fun _ =>
        .rename upload.bucket.items reservation (.part upload.uploadId part) body
  | .completeFind uploadId requested object =>
    finding shared.rows uploadId (fun error => .returned (.failed error)) fun upload =>
      if requested = [] then
        .returned (.failed (.storage .invalidPart
          (ascii "a completed multipart upload must name at least one part")))
      else .completeFindAgain upload requested object
  | .completeFindAgain upload requested object =>
    finding shared.rows upload.uploadId (fun error => .returned (.failed error)) fun _ =>
      .completeList upload requested object
  | .completeList upload requested object =>
    reading (do
      let stored ← collectParts shared.rows upload.uploadId
      assemble config stored requested) (fun error => .returned (.failed error)) fun parts =>
        .track {} (.completion upload parts { object with key := upload.key.items }) []
  | .append upload parts [] object body =>
    some (.nothing, .rename upload.bucket.items {}
      (.completion upload parts { object with size := body.length.toUInt64 }) body)
  | .append upload parts (part :: rest) object body =>
    match shared.tree.find? part.blobId.items with
    | none => some (.nothing, .refuse {} (missingPayload part.blobId.items))
    | some content => some (.nothing, .append upload parts rest object (body ++ content))
  | .rename bucket reservation write body =>
    match write.check config with
    | .error error => some (.nothing, .refuse reservation error)
    | .ok _ => some (.rename write.blobId body, write.renamed bucket reservation)
  | .extend bucket reservation write =>
    match shared.quotas.extend reservation bucket write.size with
    | .error error => some (.nothing, .refuse reservation error)
    | .ok (quotas, reservation) =>
      some (.ledger quotas, .store bucket reservation (StoreCalls.begin write.operation))
  | .store bucket reservation call =>
    match call with
    | .returned (.error error) => some (.nothing, .refuse reservation error)
    | .returned (.ok commit) =>
      some (.ledger (settle shared.quotas bucket reservation commit),
        .look (.done commit) (releases commit))
    | _ =>
      (StoreCalls.act config.stripeFor shared.store call).map fun (effect, next) =>
        (.store effect, .store bucket reservation next)
  | .refuse reservation error =>
    some (.ledger (shared.quotas.release reservation), .returned (.failed error))
  | .look answer [] => some (.nothing, .returned answer)
  | .look answer (blobIds :: batches) =>
    if shared.checkpointing then some (.nothing, .look answer batches)
    else some (.nothing, .unlink answer blobIds blobIds batches)
  | .unlink answer [] blobIds batches => some (.forget blobIds, .look answer batches)
  | .sweep limit => some (.nothing, .sweepLook limit (now - config.reclaimGraceMs))
  | .sweepLook limit cutoff =>
    if shared.checkpointing then some (.nothing, .returned (.reclaimed 0))
    else some (.nothing, .sweepList limit cutoff)
  | .sweepList limit cutoff =>
    let blobIds := listOrphans shared.rows limit cutoff
    if blobIds = [] then some (.nothing, .returned (.reclaimed 0))
    else some (.nothing, .unlink (.reclaimed blobIds.length) blobIds blobIds [])
  | .getRead bucket key =>
    reading (getObject shared.rows bucket key) (fun error => .returned (.failed error)) fun
      | none => .returned .absent
      | some record => .getOpen record
  | .getOpen record =>
    match shared.tree.find? record.blobId.items with
    | none => some (.nothing, .returned (.failed (missingPayload record.blobId.items)))
    | some body => some (.nothing, .returned (.object record body))
  | .raise => some (.raise, .snapshot)
  | .snapshot => some (.nothing, .scan shared.rows)
  | .scan rows => some (.nothing, .copy rows (shared.tree.entries.map Prod.fst) .empty)
  | .copy rows [] copied => some (.nothing, .drop (.copied ⟨rows, copied⟩))
  | .drop answer => some (.drop, .returned answer)

/-- `BlobStore::remove` of the next file: it is gone afterwards, or the removal
failed. What it says is not looked at. -/
def removeNext (removed : Bool) : Phase → Option (Effect × Phase)
  | .unlink answer (blobId :: rest) blobIds batches =>
    some (if removed then .unlink blobId else .nothing, .unlink answer rest blobIds batches)
  | _ => none

/-- `forEachBlob` comes to a file, or passes over one that has gone. -/
def visit (shared : Shared ι) (blobId : Bytes) : Phase → Option (Effect × Phase)
  | .copy rows pending copied =>
    match shared.tree.find? blobId with
    | some body =>
      some (.nothing, .copy rows (pending.filter (· ≠ blobId)) (copied.insert blobId body))
    | none =>
      if blobId ∈ pending then some (.nothing, .copy rows (pending.filter (· ≠ blobId)) copied)
      else none
  | _ => none

/-- A checkpoint that fails on the filesystem. -/
def giveUp : Phase → Option (Effect × Phase)
  | .snapshot | .scan _ | .copy .. => some (.nothing, .drop .notCopied)
  | _ => none

variable [DecidableEq ι]

def Effect.apply (who : ι) (now : TimestampMs) (shared : Shared ι) : Effect → Shared ι
  | .nothing => { shared with clock := now }
  | .ledger quotas => { shared with clock := now, quotas := quotas }
  | .track blobId =>
    { shared with
      clock := now
      store := { shared.store with store := trackBlob shared.store.store blobId now }
      tracked := shared.tracked.insert blobId now }
  | .rename blobId body =>
    { shared with
      clock := now
      tree := shared.tree.insert blobId body
      written := shared.written.insert blobId body }
  | .store effect =>
    { shared with
      clock := now
      store := effect.apply config.stripeFor who now shared.store }
  | .unlink blobId => { shared with clock := now, tree := shared.tree.erase blobId }
  | .forget blobIds =>
    { shared with
      clock := now
      store := { shared.store with store := forgetOrphans shared.store.store blobIds } }
  | .raise => { shared with clock := now, checkpointing := true }
  | .drop => { shared with clock := now, checkpointing := false }

end Steps

/-! ### The system -/

abbrev State (ι : Type) := Pool ι (Shared ι) Phase

inductive Label (ι : Type)
  | createBucket (name : Bytes) (quotaBytes : UInt64) (now : TimestampMs)
  | createUpload (upload : UploadRecord)
  | start (who : ι) (request : Request)
  | call (who : ι) (now : TimestampMs)
  | remove (who : ι) (removed : Bool)
  | visit (who : ι) (blobId : Bytes)
  | giveUp (who : ι)

section System

variable {ι : Type} [DecidableEq ι] (config : Config)

def State.rows {ι : Type} (state : State ι) : Rows := state.shared.rows

def State.take (state : State ι) (who : ι) (now : TimestampMs) (taken : Effect × Phase) : State ι :=
  state.move who (taken.1.apply config who now state.shared) taken.2

def step (state : State ι) : Label ι → Option (State ι)
  | .createBucket name quotaBytes now =>
    match (state.shared.engine config).createBucket name quotaBytes now with
    | (_, .error _) => none
    | (engine, .ok _) => some { state with shared := state.shared.withEngine engine }
  | .createUpload upload =>
    if upload.uploadId ∈ state.shared.uploads then none
    else
      match (state.shared.engine config).createUpload upload with
      | (_, .error _) => none
      | (engine, .ok _) =>
        some { state with
          shared :=
            { state.shared.withEngine engine with
              uploads := upload.uploadId :: state.shared.uploads } }
  | .start who request =>
    match state.calls who with
    | .idle => some (state.move who state.shared (begin request))
    | _ => none
  | .call who now =>
    (act config state.shared now (state.calls who)).map (state.take config who now)
  | .remove who removed =>
    (removeNext removed (state.calls who)).map (state.take config who state.shared.clock)
  | .visit who blobId =>
    (visit state.shared blobId (state.calls who)).map (state.take config who state.shared.clock)
  | .giveUp who => (giveUp (state.calls who)).map (state.take config who state.shared.clock)

end System

/-- The empty store, and no call begun. -/
def emptyStart {ι : Type} : State ι := ⟨{}, fun _ => .idle⟩

end MonoBucket.EngineCalls

/-
The store's mutations, step by step

`putObject`, `deleteObject`, `putPart`, `abortUpload` and `completeUpload` of the
metadata store as the steps another thread can come between: the reads before the
lock, the lock, the reads under it, the batch, and what follows the batch. An
abort and a completion look the upload up before they lock anything, and what
they lock is not what a part upload locks.

A stripe is locked by the key it is picked for. The buckets' own lock is held
shared by all of these, so it stops none of them.
-/

import MonoBucket.Lib.Trace
import MonoBucket.Storage.BlobRows

namespace MonoBucket.StoreCalls

open Codec

/-! ### Commits -/

/-- What a mutation is about to write, with what it has read. -/
inductive Commit
  | putObject (bucket : Bytes) (object : ObjectRecord) (previous : Option ObjectRecord)
  | deleteObject (bucket key : Bytes) (existing : ObjectRecord)
  | putPart (uploadId : Bytes) (part : PartRecord) (previous : Option PartRecord)
  | abortUpload (upload : UploadRecord) (parts : List PartRecord)
  | completeUpload (bucket : Bytes) (upload : UploadRecord) (object : ObjectRecord)
    (previous : Option ObjectRecord) (parts : List PartRecord)
  deriving DecidableEq

namespace Commit

def batch (now : TimestampMs) : Commit → WriteBatch
  | putObject bucket object previous => putObjectBatch bucket object previous now
  | deleteObject bucket key existing => deleteObjectBatch bucket key existing now
  | putPart uploadId part previous => putPartBatch uploadId part previous now
  | abortUpload upload parts => abortUploadBatch upload parts now
  | completeUpload bucket upload object previous parts =>
    completeUploadBatch bucket upload object previous parts now

/-- What `stripeFor` is given. -/
def lockKey : Commit → Bytes
  | putObject bucket object _ => Keys.object bucket object.key
  | deleteObject bucket key _ => Keys.object bucket key
  | putPart uploadId part _ => Keys.part uploadId part.partNumber
  | abortUpload upload _ => Keys.uploadById upload.uploadId
  | completeUpload bucket _ object _ _ => Keys.object bucket object.key

/-- The counters moved before the batch is written. -/
def countBefore (counters : Counters) : Commit → Counters
  | putObject _ _ previous | completeUpload _ _ _ previous _ => counters.publishing previous
  | putPart _ _ previous => counters.storingPart previous
  | deleteObject .. | abortUpload .. => counters

/-- The counters moved once it has been. -/
def countAfter (counters : Counters) : Commit → Counters
  | putObject _ object _ => { counters with bytes := counters.bytes + object.size }
  | deleteObject _ _ existing =>
    { counters with
      objects := counters.objects - 1
      bytes := counters.bytes - existing.size
      orphans := counters.orphans + 1 }
  | putPart .. => counters
  | abortUpload _ parts => counters.finished parts
  | completeUpload _ _ object _ parts =>
    { counters with bytes := counters.bytes + object.size }.finished parts

end Commit

/-! ### Calls -/

/-- Where a call is. -/
inductive Phase
  | idle
  | putRequire (bucket : Bytes) (object : ObjectRecord)
  | putLock (bucket : Bytes) (object : ObjectRecord)
  | putLoad (bucket : Bytes) (object : ObjectRecord)
  | deleteRequire (bucket key : Bytes)
  | deleteLock (bucket key : Bytes)
  | deleteLoad (bucket key : Bytes)
  | partLock (uploadId : Bytes) (part : PartRecord)
  | partFind (uploadId : Bytes) (part : PartRecord)
  | partLoad (uploadId : Bytes) (part : PartRecord)
  | abortFind (uploadId : Bytes)
  | abortLock (upload : UploadRecord)
  | abortCollect (upload : UploadRecord)
  | completeRequire (bucket uploadId : Bytes) (object : ObjectRecord)
  | completeFind (bucket uploadId : Bytes) (object : ObjectRecord)
  | completeLock (bucket : Bytes) (upload : UploadRecord) (object : ObjectRecord)
  | completeLoad (bucket : Bytes) (upload : UploadRecord) (object : ObjectRecord)
  | completeCollect (bucket : Bytes) (upload : UploadRecord) (object : ObjectRecord)
    (previous : Option ObjectRecord)
  | write (commit : Commit)
  /-- The batch is written, the lock not yet given up. -/
  | settle (commit : Commit)
  /-- Nothing was committed by a deletion of nothing, or by a call that threw. -/
  | returned (answer : Except StoreError (Option Commit))

/-- The store and, of each stripe, who holds it. -/
structure Shared (ι : Type) where
  store : MetadataStore := {}
  holders : Nat → Option ι := fun _ => none

inductive Effect
  | nothing
  | lock (key : Bytes)
  | unlock (key : Bytes)
  | write (commit : Commit)
  | settle (commit : Commit)

/-- The requests of the store. -/
inductive Operation
  | putObject (bucket : Bytes) (object : ObjectRecord)
  | deleteObject (bucket key : Bytes)
  | putPart (uploadId : Bytes) (part : PartRecord)
  | abortUpload (uploadId : Bytes)
  | completeUpload (bucket uploadId : Bytes) (object : ObjectRecord)

def begin : Operation → Phase
  | .putObject bucket object => .putRequire bucket object
  | .deleteObject bucket key => .deleteRequire bucket key
  | .putPart uploadId part =>
    match checkPartNumber part.partNumber with
    | .error error => .returned (.error error)
    | .ok _ => .partLock uploadId part
  | .abortUpload uploadId => .abortFind uploadId
  | .completeUpload bucket uploadId object => .completeRequire bucket uploadId object

section Steps

variable {ι : Type} (stripeFor : Bytes → Nat)

/-- A read, and where the call goes from what it finds. One that throws under a
lock gives the lock up. -/
def reading {α : Type} (held : Option Bytes) (read : Except StoreError α)
    (next : α → Effect × Phase) : Effect × Phase :=
  match read with
  | .error error => (held.elim .nothing .unlock, .returned (.error error))
  | .ok found => next found

/-- A read of an upload that has to be there. -/
def finding (held : Option Bytes) (rows : Rows) (uploadId : Bytes) (next : UploadRecord → Phase) :
    Effect × Phase :=
  reading held (loadUpload rows uploadId) fun
    | none => (held.elim .nothing .unlock, .returned (noSuchUpload uploadId))
    | some upload => (.nothing, next upload)

/-- One step of a call; a lock somebody holds is waited for. -/
def act (shared : Shared ι) : Phase → Option (Effect × Phase)
  | .idle | .returned _ => none
  | .putRequire bucket object =>
    some (reading none (requireBucket shared.store.rows bucket) fun _ =>
      (.nothing, .putLock bucket object))
  | .putLock bucket object =>
    acquire (Keys.object bucket object.key) (.putLoad bucket object)
  | .putLoad bucket object =>
    some (reading (some (Keys.object bucket object.key))
      (loadObject shared.store.rows (Keys.object bucket object.key) object.key) fun previous =>
        (.nothing, .write (.putObject bucket object previous)))
  | .deleteRequire bucket key =>
    some (reading none (requireBucket shared.store.rows bucket) fun _ =>
      (.nothing, .deleteLock bucket key))
  | .deleteLock bucket key => acquire (Keys.object bucket key) (.deleteLoad bucket key)
  | .deleteLoad bucket key =>
    some (reading (some (Keys.object bucket key))
      (loadObject shared.store.rows (Keys.object bucket key) key) fun
        | none => (.unlock (Keys.object bucket key), .returned (.ok none))
        | some existing => (.nothing, .write (.deleteObject bucket key existing)))
  | .partLock uploadId part =>
    acquire (Keys.part uploadId part.partNumber) (.partFind uploadId part)
  | .partFind uploadId part =>
    some (finding (some (Keys.part uploadId part.partNumber)) shared.store.rows uploadId fun _ =>
      .partLoad uploadId part)
  | .partLoad uploadId part =>
    some (reading (some (Keys.part uploadId part.partNumber))
      (loadPart shared.store.rows uploadId part.partNumber) fun previous =>
        (.nothing, .write (.putPart uploadId part previous)))
  | .abortFind uploadId => some (finding none shared.store.rows uploadId .abortLock)
  | .abortLock upload => acquire (Keys.uploadById upload.uploadId) (.abortCollect upload)
  | .abortCollect upload =>
    some (reading (some (Keys.uploadById upload.uploadId))
      (collectParts shared.store.rows upload.uploadId) fun parts =>
        (.nothing, .write (.abortUpload upload parts)))
  | .completeRequire bucket uploadId object =>
    some (reading none (requireBucket shared.store.rows bucket) fun _ =>
      (.nothing, .completeFind bucket uploadId object))
  | .completeFind bucket uploadId object =>
    some (finding none shared.store.rows uploadId fun upload => .completeLock bucket upload object)
  | .completeLock bucket upload object =>
    acquire (Keys.object bucket object.key) (.completeLoad bucket upload object)
  | .completeLoad bucket upload object =>
    some (reading (some (Keys.object bucket object.key))
      (loadObject shared.store.rows (Keys.object bucket object.key) object.key) fun previous =>
        (.nothing, .completeCollect bucket upload object previous))
  | .completeCollect bucket upload object previous =>
    some (reading (some (Keys.object bucket object.key))
      (collectParts shared.store.rows upload.uploadId) fun parts =>
        (.nothing, .write (.completeUpload bucket upload object previous parts)))
  | .write commit => some (.write commit, .settle commit)
  | .settle commit => some (.settle commit, .returned (.ok (some commit)))
where
  acquire (key : Bytes) (next : Phase) : Option (Effect × Phase) :=
    match shared.holders (stripeFor key) with
    | none => some (.lock key, next)
    | some _ => none

variable [DecidableEq ι]

/-- What a step does to the store and the stripes. -/
def Effect.apply (who : ι) (now : TimestampMs) (shared : Shared ι) : Effect → Shared ι
  | .nothing => shared
  | .lock key =>
    { shared with holders := Function.update shared.holders (stripeFor key) (some who) }
  | .unlock key => { shared with holders := Function.update shared.holders (stripeFor key) none }
  | .write commit =>
    { shared with
      store :=
        { shared.store with
          rows := shared.store.rows.write (commit.batch now)
          counters := commit.countBefore shared.store.counters } }
  | .settle commit =>
    { store := { shared.store with counters := commit.countAfter shared.store.counters }
      holders := Function.update shared.holders (stripeFor commit.lockKey) none }

end Steps

/-! ### What a call can do -/

/-- The key whose stripe a call holds. -/
def Phase.locks : Phase → Option Bytes
  | .putLoad bucket object => some (Keys.object bucket object.key)
  | .deleteLoad bucket key => some (Keys.object bucket key)
  | .partFind uploadId part | .partLoad uploadId part => some (Keys.part uploadId part.partNumber)
  | .abortCollect upload => some (Keys.uploadById upload.uploadId)
  | .completeLoad bucket _ object | .completeCollect bucket _ object _ =>
    some (Keys.object bucket object.key)
  | .write commit | .settle commit => some commit.lockKey
  | _ => none

/-- A step of a call: the phase before, what it changes, the phase after, and what
it has read. -/
inductive Move (rows : Rows) : Phase → Effect → Phase → Prop
  | throw {phase : Phase} {answer : Except StoreError (Option Commit)} (hphase : phase.locks = none)
      (hanswer : ∀ commit, answer ≠ .ok (some commit)) : Move rows phase .nothing (.returned answer)
  | give {phase : Phase} {key : Bytes} {answer : Except StoreError (Option Commit)}
      (hphase : phase.locks = some key) (hanswer : ∀ commit, answer ≠ .ok (some commit)) :
      Move rows phase (.unlock key) (.returned answer)
  | putRequire {bucket : Bytes} {object : ObjectRecord} :
      Move rows (.putRequire bucket object) .nothing (.putLock bucket object)
  | putLock {bucket : Bytes} {object : ObjectRecord} :
      Move rows (.putLock bucket object) (.lock (Keys.object bucket object.key))
        (.putLoad bucket object)
  | putLoad {bucket : Bytes} {object : ObjectRecord} {previous : Option ObjectRecord}
      (hload : loadObject rows (Keys.object bucket object.key) object.key = .ok previous) :
      Move rows (.putLoad bucket object) .nothing (.write (.putObject bucket object previous))
  | deleteRequire {bucket key : Bytes} :
      Move rows (.deleteRequire bucket key) .nothing (.deleteLock bucket key)
  | deleteLock {bucket key : Bytes} :
      Move rows (.deleteLock bucket key) (.lock (Keys.object bucket key)) (.deleteLoad bucket key)
  | deleteLoad {bucket key : Bytes} {existing : ObjectRecord}
      (hload : loadObject rows (Keys.object bucket key) key = .ok (some existing)) :
      Move rows (.deleteLoad bucket key) .nothing (.write (.deleteObject bucket key existing))
  | partLock {uploadId : Bytes} {part : PartRecord} :
      Move rows (.partLock uploadId part) (.lock (Keys.part uploadId part.partNumber))
        (.partFind uploadId part)
  | partFind {uploadId : Bytes} {part : PartRecord} {upload : UploadRecord}
      (hload : loadUpload rows uploadId = .ok (some upload)) :
      Move rows (.partFind uploadId part) .nothing (.partLoad uploadId part)
  | partLoad {uploadId : Bytes} {part : PartRecord} {previous : Option PartRecord}
      (hload : loadPart rows uploadId part.partNumber = .ok previous) :
      Move rows (.partLoad uploadId part) .nothing (.write (.putPart uploadId part previous))
  | abortFind {uploadId : Bytes} {upload : UploadRecord}
      (hload : loadUpload rows uploadId = .ok (some upload)) :
      Move rows (.abortFind uploadId) .nothing (.abortLock upload)
  | abortLock {upload : UploadRecord} :
      Move rows (.abortLock upload) (.lock (Keys.uploadById upload.uploadId)) (.abortCollect upload)
  | abortCollect {upload : UploadRecord} {parts : List PartRecord}
      (hparts : collectParts rows upload.uploadId = .ok parts) :
      Move rows (.abortCollect upload) .nothing (.write (.abortUpload upload parts))
  | completeRequire {bucket uploadId : Bytes} {object : ObjectRecord} :
      Move rows (.completeRequire bucket uploadId object) .nothing
        (.completeFind bucket uploadId object)
  | completeFind {bucket uploadId : Bytes} {object : ObjectRecord} {upload : UploadRecord}
      (hload : loadUpload rows uploadId = .ok (some upload)) :
      Move rows (.completeFind bucket uploadId object) .nothing (.completeLock bucket upload object)
  | completeLock {bucket : Bytes} {upload : UploadRecord} {object : ObjectRecord} :
      Move rows (.completeLock bucket upload object) (.lock (Keys.object bucket object.key))
        (.completeLoad bucket upload object)
  | completeLoad {bucket : Bytes} {upload : UploadRecord} {object : ObjectRecord}
      {previous : Option ObjectRecord}
      (hload : loadObject rows (Keys.object bucket object.key) object.key = .ok previous) :
      Move rows (.completeLoad bucket upload object) .nothing
        (.completeCollect bucket upload object previous)
  | completeCollect {bucket : Bytes} {upload : UploadRecord} {object : ObjectRecord}
      {previous : Option ObjectRecord} {parts : List PartRecord}
      (hparts : collectParts rows upload.uploadId = .ok parts) :
      Move rows (.completeCollect bucket upload object previous) .nothing
        (.write (.completeUpload bucket upload object previous parts))
  | write {commit : Commit} : Move rows (.write commit) (.write commit) (.settle commit)
  | settle {commit : Commit} :
      Move rows (.settle commit) (.settle commit) (.returned (.ok (some commit)))

/-- A lock is taken when nobody holds it. -/
def Effect.Free {ι : Type} (stripeFor : Bytes → Nat) (holders : Nat → Option ι) : Effect → Prop
  | .lock key => holders (stripeFor key) = none
  | _ => True

section Inversion

variable {ι : Type} {stripeFor : Bytes → Nat} {shared : Shared ι} {rows : Rows}
  {phase next : Phase} {effect : Effect}

/-- A call that throws has committed nothing. -/
theorem uncommitted (error : StoreError) (commit : Commit) :
    (.error error : Except StoreError (Option Commit)) ≠ .ok (some commit) := by
  intro h
  cases h

theorem move_of_reading {α : Type} {read : Except StoreError α} {go : α → Effect × Phase}
    (h : reading phase.locks read go = (effect, next))
    (hgo : ∀ found, read = .ok found → go found = (effect, next) → Move rows phase effect next) :
    Move rows phase effect next := by
  cases read with
  | error error =>
      obtain ⟨rfl, rfl⟩ := Prod.mk.inj h
      cases hlocks : phase.locks with
      | none => exact .throw hlocks (uncommitted _)
      | some key => exact .give hlocks (uncommitted _)
  | ok found => exact hgo found rfl h

theorem move_of_finding {uploadId : Bytes} {go : UploadRecord → Phase}
    (h : finding phase.locks rows uploadId go = (effect, next))
    (hgo : ∀ upload, loadUpload rows uploadId = .ok (some upload) →
      Move rows phase .nothing (go upload)) : Move rows phase effect next := by
  refine move_of_reading h fun found hload h => ?_
  cases found with
  | none =>
      obtain ⟨rfl, rfl⟩ := Prod.mk.inj h
      cases hlocks : phase.locks with
      | none => exact .throw hlocks (uncommitted _)
      | some key => exact .give hlocks (uncommitted _)
  | some upload =>
      obtain ⟨rfl, rfl⟩ := Prod.mk.inj h
      exact hgo upload hload

/-- Only `acquire` takes a lock. -/
theorem free_of_reading {α : Type} {held : Option Bytes} {read : Except StoreError α}
    {go : α → Effect × Phase} {holders : Nat → Option ι}
    (h : reading held read go = (effect, next))
    (hgo : ∀ found, (go found).1.Free stripeFor holders) : effect.Free stripeFor holders := by
  cases read with
  | error error =>
      obtain ⟨rfl, -⟩ := Prod.mk.inj h
      cases held <;> trivial
  | ok found =>
      have hfree := hgo found
      rwa [show go found = (effect, next) from h] at hfree

theorem free_of_finding {held : Option Bytes} {uploadId : Bytes} {go : UploadRecord → Phase}
    {holders : Nat → Option ι} (h : finding held rows uploadId go = (effect, next)) :
    effect.Free stripeFor holders := by
  refine free_of_reading h fun found => ?_
  cases found with
  | none => cases held <;> trivial
  | some upload => trivial

theorem move_of_acquire {key : Bytes} {after : Phase}
    (h : act.acquire stripeFor shared key after = some (effect, next))
    (hgo : Move rows phase (.lock key) after) :
    Move rows phase effect next ∧ effect.Free stripeFor shared.holders := by
  rw [act.acquire] at h
  split at h
  · rename_i hfree
    obtain ⟨rfl, rfl⟩ := Prod.mk.inj (Option.some.inj h)
    exact ⟨hgo, hfree⟩
  · cases h

/-- Every step is one of the list. -/
theorem move_of_act (h : act stripeFor shared phase = some (effect, next)) :
    Move shared.store.rows phase effect next ∧ effect.Free stripeFor shared.holders := by
  cases phase with
  | idle => cases h
  | returned answer => cases h
  | putRequire bucket object =>
      have hread := Option.some.inj h
      refine ⟨move_of_reading hread fun found _ hgo => ?_, free_of_reading hread fun _ => trivial⟩
      obtain ⟨rfl, rfl⟩ := Prod.mk.inj hgo
      exact .putRequire
  | putLock bucket object => exact move_of_acquire h .putLock
  | putLoad bucket object =>
      have hread := Option.some.inj h
      refine ⟨move_of_reading hread fun previous hload hgo => ?_,
        free_of_reading hread fun _ => trivial⟩
      obtain ⟨rfl, rfl⟩ := Prod.mk.inj hgo
      exact .putLoad hload
  | deleteRequire bucket key =>
      have hread := Option.some.inj h
      refine ⟨move_of_reading hread fun found _ hgo => ?_, free_of_reading hread fun _ => trivial⟩
      obtain ⟨rfl, rfl⟩ := Prod.mk.inj hgo
      exact .deleteRequire
  | deleteLock bucket key => exact move_of_acquire h .deleteLock
  | deleteLoad bucket key =>
      have hread := Option.some.inj h
      refine ⟨move_of_reading hread fun found hload hgo => ?_,
        free_of_reading hread fun found => by cases found <;> trivial⟩
      cases found with
      | none =>
          obtain ⟨rfl, rfl⟩ := Prod.mk.inj hgo
          exact .give rfl fun commit h => Option.some_ne_none commit (Except.ok.inj h).symm
      | some existing =>
          obtain ⟨rfl, rfl⟩ := Prod.mk.inj hgo
          exact .deleteLoad hload
  | partLock uploadId part => exact move_of_acquire h .partLock
  | partFind uploadId part =>
      have hfind := Option.some.inj h
      exact ⟨move_of_finding hfind fun upload hload => .partFind hload, free_of_finding hfind⟩
  | partLoad uploadId part =>
      have hread := Option.some.inj h
      refine ⟨move_of_reading hread fun previous hload hgo => ?_,
        free_of_reading hread fun _ => trivial⟩
      obtain ⟨rfl, rfl⟩ := Prod.mk.inj hgo
      exact .partLoad hload
  | abortFind uploadId =>
      have hfind := Option.some.inj h
      exact ⟨move_of_finding hfind fun upload hload => .abortFind hload, free_of_finding hfind⟩
  | abortLock upload => exact move_of_acquire h .abortLock
  | abortCollect upload =>
      have hread := Option.some.inj h
      refine ⟨move_of_reading hread fun parts hparts hgo => ?_,
        free_of_reading hread fun _ => trivial⟩
      obtain ⟨rfl, rfl⟩ := Prod.mk.inj hgo
      exact .abortCollect hparts
  | completeRequire bucket uploadId object =>
      have hread := Option.some.inj h
      refine ⟨move_of_reading hread fun found _ hgo => ?_, free_of_reading hread fun _ => trivial⟩
      obtain ⟨rfl, rfl⟩ := Prod.mk.inj hgo
      exact .completeRequire
  | completeFind bucket uploadId object =>
      have hfind := Option.some.inj h
      exact ⟨move_of_finding hfind fun upload hload => .completeFind hload, free_of_finding hfind⟩
  | completeLock bucket upload object => exact move_of_acquire h .completeLock
  | completeLoad bucket upload object =>
      have hread := Option.some.inj h
      refine ⟨move_of_reading hread fun previous hload hgo => ?_,
        free_of_reading hread fun _ => trivial⟩
      obtain ⟨rfl, rfl⟩ := Prod.mk.inj hgo
      exact .completeLoad hload
  | completeCollect bucket upload object previous =>
      have hread := Option.some.inj h
      refine ⟨move_of_reading hread fun parts hparts hgo => ?_,
        free_of_reading hread fun _ => trivial⟩
      obtain ⟨rfl, rfl⟩ := Prod.mk.inj hgo
      exact .completeCollect hparts
  | write commit =>
      obtain ⟨rfl, rfl⟩ := Prod.mk.inj (Option.some.inj h)
      exact ⟨.write, trivial⟩
  | settle commit =>
      obtain ⟨rfl, rfl⟩ := Prod.mk.inj (Option.some.inj h)
      exact ⟨.settle, trivial⟩

end Inversion

end MonoBucket.StoreCalls

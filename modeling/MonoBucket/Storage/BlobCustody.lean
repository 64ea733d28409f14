/-
Every payload named or owed

The store's mutations over one store, any number of them at once, each bringing a
payload that was marked before it began. A part upload and the end of its upload
lock different stripes, so the end may list the parts, the part commit, and the
end commit without it; the part's row then outlives its upload, and a payload it
replaced or was replaced by may be left with neither a row nor a marker.

As long as a part commits only while its upload is there, and an upload ends only
with the parts it has, every payload brought is named by one row, or named by none
and marked.
-/

import MonoBucket.Lib.Custody
import MonoBucket.Storage.BucketRows
import MonoBucket.Storage.StoreCommits

namespace MonoBucket.StoreCalls

open Codec

/-! ### The system -/

/-- The store with the ids that have been given out: payloads tracked, payloads
handed to a call, and uploads. -/
structure System (ι : Type) where
  shared : Shared ι := {}
  tracked : List Bytes := []
  brought : List Bytes := []
  uploads : List Bytes := []

abbrev State (ι : Type) := Pool ι (System ι) Phase

def Operation.brings : Operation → Option Bytes
  | .putObject _ object | .completeUpload _ _ object => some object.blobId.items
  | .putPart _ part => some part.blobId.items
  | .deleteObject .. | .abortUpload _ => none

inductive Label (ι : Type)
  | createBucket (bucket : BucketRecord)
  | createUpload (upload : UploadRecord)
  | track (blobId : Bytes) (now : TimestampMs)
  | start (who : ι) (operation : Operation)
  | call (who : ι) (now : TimestampMs)

def System.withStore {ι : Type} (system : System ι) (store : MetadataStore) : System ι :=
  { system with shared := { system.shared with store := store } }

section Steps

variable {ι : Type} [DecidableEq ι] (stripeFor : Bytes → Nat)

/-- New ids come from the system's random source: no upload's and no payload's is
given out twice. -/
def step (state : State ι) : Label ι → Option (State ι)
  | .createBucket bucket =>
    match MonoBucket.createBucket state.shared.shared.store bucket with
    | .error _ => none
    | .ok store => some { state with shared := state.shared.withStore store }
  | .createUpload upload =>
    if upload.uploadId ∈ state.shared.uploads then none
    else
      match MonoBucket.createUpload state.shared.shared.store upload with
      | .error _ => none
      | .ok store =>
        some { state with
          shared :=
            { state.shared.withStore store with
              uploads := upload.uploadId :: state.shared.uploads } }
  | .track blobId now =>
    if blobId ∈ state.shared.tracked then none
    else
      some { state with
        shared :=
          { state.shared.withStore (trackBlob state.shared.shared.store blobId now) with
            tracked := blobId :: state.shared.tracked } }
  | .start who operation =>
    match state.calls who with
    | .idle =>
      if ∀ blobId ∈ operation.brings,
          blobId ∈ state.shared.tracked ∧ blobId ∉ state.shared.brought then
        some (state.move who
          { state.shared with brought := operation.brings.toList ++ state.shared.brought }
          (begin operation))
      else none
    | _ => none
  | .call who now =>
    (act stripeFor state.shared.shared (state.calls who)).map fun (effect, next) =>
      state.move who
        { state.shared with shared := effect.apply stripeFor who now state.shared.shared } next

end Steps

def State.rows {ι : Type} (state : State ι) : Rows := state.shared.shared.store.rows

/-- The empty store, and no call begun. -/
def emptyStart {ι : Type} : State ι := ⟨{}, fun _ => .idle⟩

/-! ### Payloads named and owed -/

/-- An object's row, or the row of a part whose upload is there. -/
def Rooted (rows : Rows) (key : Bytes) : Prop :=
  key.head? = some Keys.kObject ∨
    ∃ uploadId number, key = Keys.part uploadId number ∧
      rows.find? (Keys.uploadById uploadId) ≠ none

/-- Named by exactly one row, a live one, and not marked. -/
def Owned (rows : Rows) (blobId : Bytes) : Prop :=
  ∃ key, rows.blobAt key = some blobId ∧
    (∀ other, rows.blobAt other = some blobId → other = key) ∧ Rooted rows key ∧
    rows.queuedAt blobId = none

/-- Named by no row, and marked. -/
def Owed (rows : Rows) (blobId : Bytes) : Prop :=
  ¬ rows.Names blobId ∧ rows.queuedAt blobId ≠ none

/-- Every payload brought is in exactly one of the two states. -/
def Conserved {ι : Type} (state : State ι) : Prop :=
  ∀ blobId ∈ state.shared.brought, Xor (Owned state.rows blobId) (Owed state.rows blobId)

/-- Every part an upload has is among the ones read, with the same payload. -/
def PartsRead (rows : Rows) (uploadId : Bytes) (parts : List PartRecord) : Prop :=
  match collectParts rows uploadId with
  | .error _ => False
  | .ok current => ∀ part ∈ current,
      ∃ read ∈ parts, read.partNumber = part.partNumber ∧ read.blobId = part.blobId

instance (rows : Rows) (uploadId : Bytes) (parts : List PartRecord) :
    Decidable (PartsRead rows uploadId parts) := by
  unfold PartsRead
  split <;> infer_instance

/-- A part commits while its upload is there, and an upload ends with the parts it
has. -/
def Commit.InTime (rows : Rows) : Commit → Prop
  | .putPart uploadId _ _ => rows.find? (Keys.uploadById uploadId) ≠ none
  | .abortUpload upload parts | .completeUpload _ upload _ _ parts =>
    PartsRead rows upload.uploadId parts
  | .putObject .. | .deleteObject .. => True

instance (rows : Rows) : ∀ commit, Decidable (Commit.InTime rows commit)
  | .putPart .. => inferInstanceAs (Decidable (_ ≠ _))
  | .abortUpload .. | .completeUpload .. => inferInstanceAs (Decidable (PartsRead ..))
  | .putObject .. | .deleteObject .. => isTrue trivial

def Phase.commits : Phase → Option Commit
  | .write commit => some commit
  | _ => none

def CommitsInTime {ι : Type} (state : State ι) : Label ι → Prop
  | .call who _ => ∀ commit ∈ (state.calls who).commits, commit.InTime state.rows
  | _ => True

instance {ι : Type} (state : State ι) (label : Label ι) : Decidable (CommitsInTime state label) :=
  match label with
  | .call who _ => inferInstanceAs (Decidable (∀ commit ∈ (state.calls who).commits, _))
  | .createBucket _ | .createUpload _ | .track .. | .start .. => isTrue trivial

/-! ### Rows outside a call -/

section Outside

variable {store next : MetadataStore}

/-- Rows whose objects, parts, uploads and markers are the ones of others. -/
structure SameBlobs (before after : Rows) : Prop where
  object : ∀ bucket key, after.find? (Keys.object bucket key) = before.find? (Keys.object bucket key)
  part : ∀ uploadId number,
    after.find? (Keys.part uploadId number) = before.find? (Keys.part uploadId number)
  blobAt : after.blobAt = before.blobAt

theorem sameBlobs_write {rows : Rows} {batch : WriteBatch}
    (h : ∀ op ∈ batch, ∃ tag, op.key.head? = some tag ∧ tag ≠ Keys.kObject ∧ tag ≠ Keys.kPart) :
    SameBlobs rows (rows.write batch) where
  object bucket key := by
    refine Rows.find?_write_of_forall_ne rows fun op hop hkey => ?_
    obtain ⟨tag, htag, hobject, -⟩ := h op hop
    rw [hkey] at htag
    exact hobject (Option.some.inj htag).symm
  part uploadId number := by
    refine Rows.find?_write_of_forall_ne rows fun op hop hkey => ?_
    obtain ⟨tag, htag, -, hpart⟩ := h op hop
    rw [hkey] at htag
    exact hpart (Option.some.inj htag).symm
  blobAt := blobAt_write_of_tags h

theorem tags_createUploadBatch (upload : UploadRecord) :
    ∀ op ∈ createUploadBatch upload, ∃ tag, op.key.head? = some tag ∧
      (tag = Keys.kUploadById ∨ tag = Keys.kUploadByKey) := by
  intro op hop
  rcases List.mem_cons.mp hop with rfl | hlast
  · exact ⟨_, rfl, Or.inl rfl⟩
  · obtain rfl := List.mem_singleton.mp hlast
    exact ⟨_, rfl, Or.inr rfl⟩

end Outside

/-! ### What a run keeps -/

section Kept

variable {ι : Type} {stripeFor : Bytes → Nat} {state : State ι} {rows : Rows}

/-- The names of the rows as slots, and what the calls have in hand. -/
def custody (rows : Rows) (issued : Bytes → Prop) (calls : ι → Phase) :
    Custody ι Bytes Bytes where
  slots := rows.blobAt
  issued := issued
  bringing who := (calls who).brings
  noted who key blobId := (key, blobId) ∈ (calls who).notes

/-- The upload a call has found for its part. -/
def Phase.uploading : Phase → Option Bytes
  | .partLoad uploadId _ | .write (.putPart uploadId _ _) => some uploadId
  | _ => none

def Marked (rows : Rows) (blobId : Bytes) : Prop := rows.queuedAt blobId ≠ none

structure Kept (stripeFor : Bytes → Nat) (state : State ι) : Prop where
  sound : (custody state.rows (· ∈ state.shared.brought) state.calls).Sound
  books : (custody state.rows (· ∈ state.shared.brought) state.calls).Balanced (Marked state.rows)
  tracked : ∀ blobId ∈ state.shared.brought, blobId ∈ state.shared.tracked
  waiting : ∀ blobId ∈ state.shared.tracked, blobId ∉ state.shared.brought →
    Marked state.rows blobId
  locked : Locked stripeFor state.shared.shared.holders fun who => (state.calls who).locks
  current : ∀ who, (state.calls who).Current state.rows
  uploads : ∀ uploadId, state.rows.find? (Keys.uploadById uploadId) ≠ none →
    uploadId ∈ state.shared.uploads
  uploading : ∀ who, ∀ uploadId ∈ (state.calls who).uploading, uploadId ∈ state.shared.uploads
  rooted : ∀ key blobId, state.rows.blobAt key = some blobId → Rooted state.rows key

theorem Kept.conserved (h : Kept stripeFor state) : Conserved state := by
  intro blobId hbrought
  by_cases hheld : state.rows.Names blobId
  · refine Or.inl ⟨?_, fun howed => howed.1 hheld⟩
    obtain ⟨key, hkey⟩ := hheld
    refine ⟨key, hkey, fun other hother => h.sound.once hother hkey, h.rooted key blobId hkey, ?_⟩
    by_contra hmarked
    exact (h.books blobId hbrought).mp hmarked ⟨key, hkey⟩
  · refine Or.inr ⟨⟨hheld, (h.books blobId hbrought).mpr hheld⟩, ?_⟩
    rintro ⟨key, hkey, -⟩
    exact hheld ⟨key, hkey⟩

/-! ### The steps outside a call -/

theorem kept_emptyStart : Kept stripeFor (emptyStart : State ι) where
  sound :=
    { issued := fun h => nomatch h
      once := fun h => nomatch h
      brought := fun h => nomatch h
      fresh := fun h => nomatch h
      distinct := fun h => nomatch h
      notedIssued := fun h => nomatch h
      notedSettled := fun h => nomatch h
      notedPlace := fun h => nomatch h }
  books := fun _ h => nomatch h
  tracked := fun _ h => nomatch h
  waiting := fun _ h => nomatch h
  locked := fun _ _ h => nomatch h
  current := fun _ => trivial
  uploads := fun _ h => absurd rfl h
  uploading := fun _ _ h => nomatch h
  rooted := fun _ _ h => nomatch h

theorem Phase.Current.outside {phase : Phase} {after : Rows} (h : phase.Current rows)
    (hsame : SameBlobs rows after)
    (hupload : ∀ uploadId ∈ phase.uploading,
      after.find? (Keys.uploadById uploadId) = rows.find? (Keys.uploadById uploadId)) :
    phase.Current after := by
  have hobject : ∀ {bucket key : Bytes} {found : Option ObjectRecord},
      loadObject rows (Keys.object bucket key) key = .ok found →
      loadObject after (Keys.object bucket key) key = .ok found := by
    intro bucket key found hload
    rw [← hload]
    exact readRow_congr (hsame.object bucket key)
  cases phase with
  | completeCollect bucket upload object previous => exact hobject h
  | write commit =>
      cases commit with
      | putObject bucket object previous => exact hobject h
      | deleteObject bucket key existing => exact hobject h
      | completeUpload bucket upload object previous parts => exact hobject h
      | abortUpload upload parts => trivial
      | putPart uploadId part previous =>
          intro hthere
          rw [hupload uploadId rfl] at hthere
          have hpart : loadPart rows uploadId part.partNumber = .ok previous := h hthere
          rw [← hpart]
          exact readRow_congr (hsame.part uploadId part.partNumber)
  | _ => trivial

theorem Kept.outside (h : Kept stripeFor state) {shared : System ι}
    (hsame : SameBlobs state.rows shared.shared.store.rows)
    (hbrought : shared.brought = state.shared.brought)
    (hholders : shared.shared.holders = state.shared.shared.holders)
    (htracked : ∀ blobId ∈ state.shared.tracked, blobId ∈ shared.tracked)
    (hwaiting : ∀ blobId ∈ shared.tracked, blobId ∉ state.shared.brought →
      Marked shared.shared.store.rows blobId)
    (hmarked : ∀ blobId ∈ state.shared.tracked,
      (Marked shared.shared.store.rows blobId ↔ Marked state.rows blobId))
    (huploads : ∀ uploadId, shared.shared.store.rows.find? (Keys.uploadById uploadId) ≠ none →
      uploadId ∈ shared.uploads)
    (hearlier : ∀ uploadId ∈ state.shared.uploads, uploadId ∈ shared.uploads ∧
      shared.shared.store.rows.find? (Keys.uploadById uploadId) =
        state.rows.find? (Keys.uploadById uploadId)) :
    Kept stripeFor { state with shared := shared } := by
  have hcustody : custody shared.shared.store.rows (· ∈ shared.brought) state.calls =
      custody state.rows (· ∈ state.shared.brought) state.calls := by
    rw [custody, custody, hsame.blobAt, hbrought]
  refine
    { sound := ?_, books := ?_, tracked := ?_, waiting := ?_, locked := ?_, current := ?_,
      uploads := huploads, uploading := ?_, rooted := ?_ }
  · show (custody shared.shared.store.rows (· ∈ shared.brought) state.calls).Sound
    rw [hcustody]
    exact h.sound
  · show (custody shared.shared.store.rows (· ∈ shared.brought) state.calls).Balanced _
    rw [hcustody]
    intro blobId hissued
    exact (hmarked blobId (h.tracked blobId hissued)).trans (h.books blobId hissued)
  · intro blobId hmem
    rw [hbrought] at hmem
    exact htracked blobId (h.tracked blobId hmem)
  · intro blobId hmem hfree
    exact hwaiting blobId hmem (by rwa [hbrought] at hfree)
  · intro who key hlocks
    rw [hholders]
    exact h.locked who key hlocks
  · intro who
    exact (h.current who).outside hsame fun uploadId huploading =>
      (hearlier uploadId (h.uploading who uploadId huploading)).2
  · intro who uploadId huploading
    exact (hearlier uploadId (h.uploading who uploadId huploading)).1
  · intro key blobId hblob
    have hblob : state.rows.blobAt key = some blobId := by rw [← hsame.blobAt]; exact hblob
    refine (h.rooted key blobId hblob).imp id ?_
    rintro ⟨uploadId, number, hkey, hthere⟩
    rw [← (hearlier uploadId (h.uploads uploadId hthere)).2] at hthere
    exact ⟨uploadId, number, hkey, hthere⟩

theorem marked_write_of_tags {batch : WriteBatch} {blobId : Bytes}
    (h : ∀ op ∈ batch, op.key.head? ≠ some Keys.kOrphan) :
    Marked (rows.write batch) blobId ↔ Marked rows blobId := by
  rw [Marked, queuedAt_write_of_tags h, Marked]

theorem Kept.createBucket (h : Kept stripeFor state) {bucket : BucketRecord} {store : MetadataStore}
    (hstore : MonoBucket.createBucket state.shared.shared.store bucket = .ok store) :
    Kept stripeFor { state with shared := state.shared.withStore store } := by
  have hrows : (state.shared.withStore store).shared.store.rows =
      state.rows.write [.put (Keys.bucket bucket.name) (encodeBucket bucket)] :=
    StorageEngine.createBucket_ok hstore
  have hkey : ∀ op ∈ [RowOp.put (Keys.bucket bucket.name) (encodeBucket bucket)],
      op.key = Keys.bucket bucket.name := fun op hop => by rw [List.mem_singleton.mp hop]; rfl
  have hmarked : ∀ blobId, Marked (state.shared.withStore store).shared.store.rows blobId ↔
      Marked state.rows blobId := by
    intro blobId
    rw [hrows]
    refine marked_write_of_tags fun op hop => ?_
    rw [hkey op hop]
    exact (by decide : some Keys.kBucket ≠ some Keys.kOrphan)
  have hupload : ∀ uploadId,
      (state.shared.withStore store).shared.store.rows.find? (Keys.uploadById uploadId) =
        state.rows.find? (Keys.uploadById uploadId) := by
    intro uploadId
    rw [hrows]
    refine Rows.find?_write_of_forall_ne _ fun op hop hsame => ?_
    rw [hkey op hop] at hsame
    exact absurd (congrArg List.head? hsame)
      (by decide : ¬ some Keys.kBucket = some Keys.kUploadById)
  refine h.outside ?_ rfl rfl (fun _ hmem => hmem) ?_ (fun blobId _ => hmarked blobId) ?_ ?_
  · rw [hrows]
    refine sameBlobs_write fun op hop => ⟨Keys.kBucket, ?_, by decide, by decide⟩
    rw [hkey op hop]
    rfl
  · intro blobId hmem hfree
    exact (hmarked blobId).mpr (h.waiting blobId hmem hfree)
  · intro uploadId hthere
    rw [hupload] at hthere
    exact h.uploads uploadId hthere
  · intro uploadId hmem
    exact ⟨hmem, hupload uploadId⟩

theorem Kept.createUpload (h : Kept stripeFor state) {upload : UploadRecord}
    {store : MetadataStore} (hnew : upload.uploadId ∉ state.shared.uploads)
    (hstore : MonoBucket.createUpload state.shared.shared.store upload = .ok store) :
    Kept stripeFor
      { state with
        shared :=
          { state.shared.withStore store with
            uploads := upload.uploadId :: state.shared.uploads } } := by
  have hrows : (state.shared.withStore store).shared.store.rows =
      state.rows.write (createUploadBatch upload) := createUpload_ok hstore
  have hmarked : ∀ blobId, Marked (state.shared.withStore store).shared.store.rows blobId ↔
      Marked state.rows blobId := by
    intro blobId
    rw [hrows]
    refine marked_write_of_tags fun op hop htag => ?_
    obtain ⟨tag, hhead, rfl | rfl⟩ := tags_createUploadBatch upload op hop
    · exact absurd (hhead.symm.trans htag) (by decide)
    · exact absurd (hhead.symm.trans htag) (by decide)
  have hupload : ∀ uploadId, uploadId ≠ upload.uploadId →
      (state.shared.withStore store).shared.store.rows.find? (Keys.uploadById uploadId) =
        state.rows.find? (Keys.uploadById uploadId) := by
    intro uploadId hne
    rw [hrows]
    refine Rows.find?_write_of_forall_ne _ fun op hop hsame => ?_
    rcases List.mem_cons.mp hop with rfl | hlast
    · exact hne (List.cons.inj hsame).2.symm
    · obtain rfl := List.mem_singleton.mp hlast
      exact absurd (congrArg List.head? hsame)
        (by decide : ¬ some Keys.kUploadByKey = some Keys.kUploadById)
  refine h.outside ?_ rfl rfl (fun _ hmem => hmem) ?_ (fun blobId _ => hmarked blobId) ?_ ?_
  · show SameBlobs _ (state.shared.withStore store).shared.store.rows
    rw [hrows]
    refine sameBlobs_write fun op hop => ?_
    obtain ⟨tag, hhead, rfl | rfl⟩ := tags_createUploadBatch upload op hop
    · exact ⟨_, hhead, by decide, by decide⟩
    · exact ⟨_, hhead, by decide, by decide⟩
  · intro blobId hmem hfree
    exact (hmarked blobId).mpr (h.waiting blobId hmem hfree)
  · intro uploadId hthere
    by_cases hsame : uploadId = upload.uploadId
    · rw [hsame]
      exact List.mem_cons_self ..
    · have hthere : (state.shared.withStore store).shared.store.rows.find?
          (Keys.uploadById uploadId) ≠ none := hthere
      rw [hupload uploadId hsame] at hthere
      exact List.mem_cons_of_mem _ (h.uploads uploadId hthere)
  · intro uploadId hmem
    refine ⟨List.mem_cons_of_mem _ hmem, hupload uploadId ?_⟩
    rintro rfl
    exact hnew hmem

theorem Kept.track (h : Kept stripeFor state) {blobId : Bytes} {now : TimestampMs}
    (hnew : blobId ∉ state.shared.tracked) :
    Kept stripeFor
      { state with
        shared :=
          { state.shared.withStore (trackBlob state.shared.shared.store blobId now) with
            tracked := blobId :: state.shared.tracked } } := by
  have hmarked : ∀ other, Marked (state.rows.write [orphanRow blobId now]) other ↔
      other = blobId ∨ Marked state.rows other := by
    intro other
    show (state.rows.apply (orphanRow blobId now)).queuedAt other ≠ none ↔ _
    rw [queuedAt_put_orphan]
    by_cases hsame : other = blobId
    · simp [hsame]
    · simp [hsame, Marked]
  have hupload : ∀ uploadId, (state.rows.write [orphanRow blobId now]).find?
      (Keys.uploadById uploadId) = state.rows.find? (Keys.uploadById uploadId) := by
    intro uploadId
    refine Rows.find?_write_of_forall_ne _ fun op hop hsame => ?_
    obtain rfl := List.mem_singleton.mp hop
    exact absurd (congrArg List.head? hsame)
      (by decide : ¬ some Keys.kOrphan = some Keys.kUploadById)
  have hsame : SameBlobs state.rows (state.rows.write [orphanRow blobId now]) := by
    refine sameBlobs_write fun op hop => ?_
    rw [List.mem_singleton.mp hop]
    exact ⟨_, rfl, by decide, by decide⟩
  refine h.outside hsame rfl rfl (fun _ hmem => List.mem_cons_of_mem _ hmem) ?_ ?_ ?_ ?_
  · intro other hmem hfree
    refine (hmarked other).mpr ((List.mem_cons.mp hmem).imp id fun hold => ?_)
    exact h.waiting other hold hfree
  · intro other hmem
    refine (hmarked other).trans (or_iff_right ?_)
    rintro rfl
    exact hnew hmem
  · intro uploadId hthere
    exact h.uploads uploadId (by rwa [← hupload])
  · intro uploadId hmem
    exact ⟨hmem, hupload uploadId⟩

/-! ### The steps of a call -/

variable [DecidableEq ι] {who : ι}

theorem brings_begin (operation : Operation) :
    (begin operation).brings = operation.brings ∨ (begin operation).brings = none := by
  cases operation with
  | putPart uploadId part =>
      rw [begin]
      split
      · exact Or.inr rfl
      · exact Or.inl rfl
  | _ => exact Or.inl rfl

/-- A call begins with nothing locked and nothing read. -/
theorem begin_fresh (operation : Operation) (rows : Rows) :
    (begin operation).locks = none ∧ (begin operation).notes = [] ∧
      (begin operation).uploading = none ∧ (begin operation).Current rows := by
  cases operation with
  | putPart uploadId part =>
      rw [begin]
      split
      · exact ⟨rfl, rfl, rfl, trivial⟩
      · exact ⟨rfl, rfl, rfl, trivial⟩
  | _ => exact ⟨rfl, rfl, rfl, trivial⟩

theorem forall_calls_move {state : State ι} {P : ι → Phase → Prop} {shared : System ι} {next : Phase}
    (hwho : P who next) (hother : ∀ other, other ≠ who → P other (state.calls other)) :
    ∀ other, P other ((state.move who shared next).calls other) :=
  (Pool.forall_move state who shared next).mpr ⟨hwho, hother⟩

/-- A call's move, as a step of the books: the slots it may fill, and what it
brings and notes afterwards. -/
theorem step_move (shared : System ι) {rows after : Rows} {next : Phase} {target : Option Bytes}
    (hissued : ∀ blobId ∈ state.shared.brought, blobId ∈ shared.brought)
    (hslots : ∀ {key blobId}, after.blobAt key = some blobId → rows.blobAt key = some blobId ∨
      (target = some key ∧ (state.calls who).brings = some blobId ∧ next.brings = none))
    (hbrings : ∀ {blobId}, next.brings = some blobId → (state.calls who).brings = some blobId ∨
      (blobId ∉ state.shared.brought ∧ blobId ∈ shared.brought))
    (hnotes : ∀ {pair}, pair ∈ next.notes →
      pair ∈ (state.calls who).notes ∨ rows.blobAt pair.1 = some pair.2) :
    Custody.Step who target (custody rows (· ∈ state.shared.brought) state.calls)
      (custody after (· ∈ shared.brought) (state.move who shared next).calls) where
  issued := hissued _
  slots := by
    intro key blobId hslot
    refine (hslots hslot).imp id fun hput => ⟨hput.1, hput.2.1, ?_⟩
    show ((state.move who shared next).calls who).brings = none
    rw [state.move_calls_self]
    exact hput.2.2
  bringing := by
    intro blobId hbringing
    have hbringing : ((state.move who shared next).calls who).brings = some blobId := hbringing
    rw [state.move_calls_self] at hbringing
    exact hbrings hbringing
  bringingOther := fun hother => congrArg Phase.brings (state.move_calls_of_ne shared next hother)
  noted := by
    intro key blobId hnoted
    have hnoted : (key, blobId) ∈ ((state.move who shared next).calls who).notes := hnoted
    rw [state.move_calls_self] at hnoted
    exact hnotes hnoted
  notedOther := by
    intro other hother
    funext key blobId
    show ((key, blobId) ∈ ((state.move who shared next).calls other).notes) = _
    rw [state.move_calls_of_ne shared next hother]
    rfl

theorem Kept.start (h : Kept stripeFor state) {operation : Operation}
    (hnew : ∀ blobId ∈ operation.brings,
      blobId ∈ state.shared.tracked ∧ blobId ∉ state.shared.brought) :
    Kept stripeFor (state.move who
      { state.shared with brought := operation.brings.toList ++ state.shared.brought }
      (begin operation)) := by
  obtain ⟨hlocks, hnotes, huploading, hcurrent⟩ := begin_fresh operation state.rows
  have hbrings : ∀ {blobId}, (begin operation).brings = some blobId →
      operation.brings = some blobId := by
    intro blobId hbegun
    rcases brings_begin operation with hsame | hnone
    · rwa [hsame] at hbegun
    · rw [hnone] at hbegun
      cases hbegun
  have hstep : Custody.Step who none (custody state.rows (· ∈ state.shared.brought) state.calls)
      (custody state.rows (· ∈ operation.brings.toList ++ state.shared.brought)
        (state.move who
          { state.shared with brought := operation.brings.toList ++ state.shared.brought }
          (begin operation)).calls) :=
    step_move { state.shared with brought := operation.brings.toList ++ state.shared.brought }
      (fun _ hmem => List.mem_append_right _ hmem) Or.inl
      (fun hbegun => Or.inr ⟨(hnew _ (hbrings hbegun)).2,
        List.mem_append_left _ (Option.mem_toList.mpr (hbrings hbegun))⟩)
      (fun hpair => by rw [hnotes] at hpair; cases hpair)
  have hissued : ∀ blobId, blobId ∈ operation.brings.toList ++ state.shared.brought →
      blobId ∉ state.shared.brought → Marked state.rows blobId := by
    intro blobId hmem hfresh
    rcases List.mem_append.mp hmem with hbrings | hold
    · exact h.waiting blobId (hnew blobId (Option.mem_toList.mp hbrings)).1 hfresh
    · exact absurd hold hfresh
  refine
    { sound := h.sound.step hstep, books := h.books.seen h.sound rfl hissued, tracked := ?_,
      waiting := ?_, locked := ?_,
      current := forall_calls_move hcurrent fun other _ => h.current other, uploads := h.uploads,
      uploading := ?_, rooted := h.rooted }
  · intro blobId hmem
    rcases List.mem_append.mp hmem with hbrings | hold
    · exact (hnew blobId (Option.mem_toList.mp hbrings)).1
    · exact h.tracked blobId hold
  · intro blobId hmem hfree
    exact h.waiting blobId hmem fun hold => hfree (List.mem_append_right _ hold)
  · refine forall_calls_move (P := fun other phase => ∀ key, phase.locks = some key →
      state.shared.shared.holders (stripeFor key) = some other) ?_ fun other _ => h.locked other
    intro key hkey
    rw [hlocks] at hkey
    cases hkey
  · refine forall_calls_move (P := fun _ phase => ∀ uploadId ∈ phase.uploading,
      uploadId ∈ state.shared.uploads) ?_ fun other _ => h.uploading other
    intro uploadId hmem
    rw [huploading] at hmem
    cases hmem

theorem locks_move (h : Kept stripeFor state) {effect : Effect} {next : Phase} {now : TimestampMs}
    (hmove : Move state.rows (state.calls who) effect next)
    (hfree : effect.Free stripeFor state.shared.shared.holders) :
    Locked stripeFor (effect.apply stripeFor who now state.shared.shared).holders
      fun other => ((state.move who
        { state.shared with
          shared := effect.apply stripeFor who now state.shared.shared } next).calls other).locks := by
  have hlocked : Locked stripeFor (effect.apply stripeFor who now state.shared.shared).holders
      (Function.update (fun who => (state.calls who).locks) who next.locks) :=
    h.locked.move rfl hmove hfree
  have hsame : (Function.update (fun who => (state.calls who).locks) who next.locks) =
      fun other => (Function.update state.calls who next other).locks := by
    funext other
    by_cases hother : other = who
    · rw [hother, Function.update_self, Function.update_self]
    · rw [Function.update_of_ne hother, Function.update_of_ne hother]
  rwa [hsame] at hlocked

/-- A call finds the upload its part is for in the rows. -/
theorem uploading_of_move {phase next : Phase} {effect : Effect} (hmove : Move rows phase effect next)
    {uploadId : Bytes} (hnext : uploadId ∈ next.uploading) :
    uploadId ∈ phase.uploading ∨ rows.find? (Keys.uploadById uploadId) ≠ none := by
  cases hmove with
  | partFind hload =>
      obtain rfl := Option.some.inj hnext
      obtain ⟨stored, hfind, -⟩ := decode_of_readRow hload
      exact Or.inr (by rw [hfind]; exact Option.some_ne_none stored)
  | partLoad hload => exact Or.inl hnext
  | _ => cases hnext

/-- A step that writes no batch. -/
theorem Kept.read (h : Kept stripeFor state) {effect : Effect} {next : Phase} {now : TimestampMs}
    (hmove : Move state.rows (state.calls who) effect next)
    (hfree : effect.Free stripeFor state.shared.shared.holders)
    (heffect : ∀ commit, effect ≠ .write commit) :
    Kept stripeFor (state.move who
      { state.shared with shared := effect.apply stripeFor who now state.shared.shared } next) := by
  have hrows : (effect.apply stripeFor who now state.shared.shared).store.rows = state.rows := by
    cases effect with
    | write commit => exact absurd rfl (heffect commit)
    | _ => rfl
  set shared : System ι :=
    { state.shared with shared := effect.apply stripeFor who now state.shared.shared } with hshared
  have hafter : State.rows (state.move who shared next) = state.rows := hrows
  have hstep : Custody.Step who none (custody state.rows (· ∈ state.shared.brought) state.calls)
      (custody state.rows (· ∈ shared.brought) (state.move who shared next).calls) := by
    refine step_move shared (fun _ hmem => hmem) Or.inl (fun hbrings => Or.inl ?_) (notes_of_move hmove)
    rcases brings_of_move hmove with hsame | hnone
    · rwa [hsame] at hbrings
    · rw [hnone] at hbrings
      cases hbrings
  refine
    { sound := ?_, books := ?_, tracked := h.tracked, waiting := ?_, locked := locks_move h hmove hfree,
      current := ?_, uploads := ?_, uploading := ?_, rooted := ?_ }
  · rw [hafter]
    exact h.sound.step hstep
  · rw [hafter]
    exact h.books.seen h.sound rfl fun blobId hmem hnew => absurd hmem hnew
  · rw [hafter]
    exact h.waiting
  · rw [hafter]
    exact forall_calls_move (current_of_move hmove (h.current who) heffect)
      fun other _ => h.current other
  · rw [hafter]
    exact h.uploads
  · refine forall_calls_move (P := fun _ phase => ∀ uploadId ∈ phase.uploading,
      uploadId ∈ state.shared.uploads) ?_ fun other _ => h.uploading other
    intro uploadId hmem
    exact (uploading_of_move hmove hmem).elim (h.uploading who uploadId) (h.uploads uploadId)
  · rw [hafter]
    exact h.rooted

section Commits

variable {commit : Commit} {key blobId : Bytes}

theorem mem_releasedParts_of_read {uploadId : Bytes} {parts : List PartRecord}
    (hread : PartsRead rows uploadId parts) (hblob : rows.blobAt key = some blobId)
    (hkey : key ∈ (Commit.releasedParts uploadId parts).map Prod.fst) :
    (key, blobId) ∈ Commit.releasedParts uploadId parts := by
  obtain ⟨named, -, rfl⟩ := List.mem_map.mp (mem_releasedParts.mp hkey)
  rw [PartsRead] at hread
  split at hread
  · exact hread.elim
  · rename_i current hcurrent
    obtain ⟨part, hpart, hnumber, rfl⟩ := exists_of_collectParts hcurrent hblob
    obtain ⟨read, hmem, hsame, hblobId⟩ := hread part hpart
    refine List.mem_map.mpr ⟨read, hmem, ?_⟩
    rw [hsame, hnumber, hblobId]

/-- Every part of an upload that ends in time is released. -/
theorem mem_released_of_ends {upload : UploadRecord} {number : UInt32}
    (hintime : commit.InTime rows) (hends : commit.ends = some upload)
    (hblob : rows.blobAt (Keys.part upload.uploadId number) = some blobId) :
    (Keys.part upload.uploadId number, blobId) ∈ commit.released := by
  have hparts : ∀ {parts : List PartRecord}, PartsRead rows upload.uploadId parts →
      (Keys.part upload.uploadId number, blobId) ∈ Commit.releasedParts upload.uploadId parts := by
    intro parts hread
    refine mem_releasedParts_of_read hread hblob ?_
    rw [PartsRead] at hread
    split at hread
    · exact hread.elim
    · rename_i current hcurrent
      obtain ⟨part, hpart, hnumber, -⟩ := exists_of_collectParts hcurrent hblob
      obtain ⟨read, hmem, hsame, -⟩ := hread part hpart
      refine mem_releasedParts.mpr (List.mem_map.mpr ⟨read, hmem, ?_⟩)
      rw [hsame, hnumber]
  cases commit with
  | abortUpload other parts =>
      obtain rfl := Option.some.inj hends
      exact hparts hintime
  | completeUpload bucket other object previous parts =>
      obtain rfl := Option.some.inj hends
      exact List.mem_append_right _ (hparts hintime)
  | _ => cases hends

theorem mem_replacedObject_of_current {bucket objectKey : Bytes} {previous : Option ObjectRecord}
    (hload : loadObject rows (Keys.object bucket objectKey) objectKey = .ok previous)
    (hblob : rows.blobAt (Keys.object bucket objectKey) = some blobId) :
    (Keys.object bucket objectKey, blobId) ∈ Commit.replacedObject bucket objectKey previous := by
  rw [blobAt_of_loadObject hload] at hblob
  obtain ⟨object, hobject, rfl⟩ := Option.map_eq_some_iff.mp hblob
  exact List.mem_map.mpr ⟨object, Option.mem_toList.mpr hobject, rfl⟩

/-- What a commit writes over or clears, it releases. -/
theorem mem_released_of_current (hcurrent : Phase.Current rows (.write commit))
    (hintime : commit.InTime rows) (hblob : rows.blobAt key = some blobId)
    (hkey : commit.published.map Prod.fst = some key ∨ key ∈ commit.released.map Prod.fst) :
    (key, blobId) ∈ commit.released := by
  cases commit with
  | putObject bucket object previous =>
      have hsame : key = Keys.object bucket object.key :=
        hkey.elim (fun h => (Option.some.inj h).symm) (eq_of_mem_replacedObject key)
      subst hsame
      exact mem_replacedObject_of_current hcurrent hblob
  | deleteObject bucket objectKey existing =>
      have hsame : key = Keys.object bucket objectKey :=
        hkey.elim (fun h => nomatch h) List.mem_singleton.mp
      subst hsame
      have hload : loadObject rows (Keys.object bucket objectKey) objectKey =
        .ok (some existing) := hcurrent
      rw [blobAt_of_loadObject hload] at hblob
      obtain rfl := Option.some.inj hblob
      exact List.mem_singleton_self _
  | putPart uploadId part previous =>
      have hsame : key = Keys.part uploadId part.partNumber := by
        refine hkey.elim (fun h => (Option.some.inj h).symm) fun h => ?_
        obtain ⟨pair, hpair, rfl⟩ := List.mem_map.mp h
        obtain ⟨old, -, rfl⟩ := List.mem_map.mp hpair
        rfl
      subst hsame
      have hload : loadPart rows uploadId part.partNumber = .ok previous := hcurrent hintime
      rw [blobAt_of_loadPart hload] at hblob
      obtain ⟨old, hold, rfl⟩ := Option.map_eq_some_iff.mp hblob
      exact List.mem_map.mpr ⟨old, Option.mem_toList.mpr hold, rfl⟩
  | abortUpload upload parts =>
      exact mem_releasedParts_of_read hintime hblob (hkey.elim (fun h => nomatch h) id)
  | completeUpload bucket upload object previous parts =>
      have hload : loadObject rows (Keys.object bucket object.key) object.key = .ok previous :=
        hcurrent
      have hobject : key = Keys.object bucket object.key → (key, blobId) ∈
          Commit.replacedObject bucket object.key previous := by
        rintro rfl
        exact mem_replacedObject_of_current hload hblob
      rcases hkey with hpublished | hreleased
      · exact List.mem_append_left _ (hobject (Option.some.inj hpublished).symm)
      · rw [Commit.released, List.map_append] at hreleased
        rcases List.mem_append.mp hreleased with hreplaced | hparts
        · exact List.mem_append_left _ (hobject (eq_of_mem_replacedObject key hreplaced))
        · exact List.mem_append_right _ (mem_releasedParts_of_read hintime hblob hparts)

/-- The rows that name payloads after a commit in time are live ones. -/
theorem rooted_commit {now : TimestampMs}
    (hrooted : ∀ key blobId, rows.blobAt key = some blobId → Rooted rows key)
    (hintime : commit.InTime rows)
    (hblob : (rows.write (commit.batch now)).blobAt key = some blobId) :
    Rooted (rows.write (commit.batch now)) key := by
  rw [blobAt_commit, Commit.blobAfter] at hblob
  split at hblob
  · rename_i hpublished
    cases commit with
    | putObject bucket object previous =>
        obtain rfl := Option.some.inj hpublished
        exact Or.inl rfl
    | completeUpload bucket upload object previous parts =>
        obtain rfl := Option.some.inj hpublished
        exact Or.inl rfl
    | putPart uploadId part previous =>
        obtain rfl := Option.some.inj hpublished
        refine Or.inr ⟨uploadId, part.partNumber, rfl, ?_⟩
        rw [find?_upload_commit fun upload hends => by cases hends]
        exact hintime
    | deleteObject bucket objectKey existing => cases hpublished
    | abortUpload upload parts => cases hpublished
  · split at hblob
    · cases hblob
    · rename_i hkept
      refine (hrooted key blobId hblob).imp id ?_
      rintro ⟨uploadId, number, rfl, hthere⟩
      refine ⟨uploadId, number, rfl, ?_⟩
      rwa [find?_upload_commit]
      rintro upload hends rfl
      exact hkept (List.mem_map.mpr ⟨_, mem_released_of_ends hintime hends hblob, rfl⟩)

theorem marked_commit {now : TimestampMs} :
    Marked (rows.write (commit.batch now)) blobId ↔
      blobId ∈ commit.released.map Prod.snd ∨
        (Marked rows blobId ∧ commit.published.map Prod.snd ≠ some blobId) := by
  rw [Marked, queuedAt_commit]
  by_cases hreleased : blobId ∈ commit.released.map Prod.snd
  · simp [hreleased]
  · by_cases hpublished : commit.published.map Prod.snd = some blobId
    · simp [hreleased, hpublished]
    · simp [hreleased, hpublished, Marked]

end Commits

/-- What a commit's batch does to the names, as a step of the books. -/
theorem settles_commit {now : TimestampMs} {commit : Commit} {next : Phase} {shared : System ι}
    {issued : Bytes → Prop} (h : Kept stripeFor state) (hphase : state.calls who = .write commit)
    (hintime : commit.InTime state.rows) :
    Custody.Settles who (custody state.rows (· ∈ state.shared.brought) state.calls)
      (custody (state.rows.write (commit.batch now)) issued (state.move who shared next).calls)
      (fun blobId => blobId ∈ commit.released.map Prod.snd)
      (fun blobId => commit.published.map Prod.snd = some blobId) where
  cleared := by
    intro blobId hdropped
    obtain ⟨⟨key, dropped⟩, hpair, rfl⟩ := List.mem_map.mp hdropped
    have hnoted : (custody state.rows (· ∈ state.shared.brought) state.calls).noted who key
        dropped := by
      show (key, dropped) ∈ (state.calls who).notes
      rw [hphase]
      exact hpair
    refine ⟨key, hnoted, ?_⟩
    show (state.rows.write (commit.batch now)).blobAt key ≠ some dropped
    rw [blobAt_commit]
    -- What it publishes is fresh, so it is nothing it has read.
    refine Commit.blobAfter_ne_of_released hpair fun hsame => ?_
    have hbringing : (state.calls who).brings = some dropped := by
      rw [hphase]
      exact hsame
    exact h.sound.notedSettled hnoted hbringing
  kept := by
    intro key blobId hblob
    have hblob : state.rows.blobAt key = some blobId := hblob
    have hcurrent := h.current who
    rw [hphase] at hcurrent
    by_cases hkey : commit.published.map Prod.fst = some key ∨ key ∈ commit.released.map Prod.fst
    · exact Or.inr (List.mem_map.mpr
        ⟨_, mem_released_of_current hcurrent hintime hblob hkey, rfl⟩)
    · refine Or.inl ?_
      show (state.rows.write (commit.batch now)).blobAt key = _
      rw [blobAt_commit, Commit.blobAfter, if_neg fun h => hkey (Or.inl h),
        if_neg fun h => hkey (Or.inr h), hblob]
  held := by
    intro blobId hput
    obtain ⟨⟨key, put⟩, hpair, rfl⟩ := Option.map_eq_some_iff.mp hput
    refine ⟨key, ?_⟩
    show (state.rows.write (commit.batch now)).blobAt key = some put
    rw [blobAt_commit, Commit.blobAfter, hpair]
    exact if_pos rfl
  brought := by
    intro blobId _ hbringing
    have hbringing : (state.calls who).brings = some blobId := hbringing
    rwa [hphase] at hbringing

/-- The batch of a commit in time. -/
theorem Kept.commit (h : Kept stripeFor state) {commit : Commit} {now : TimestampMs}
    (hphase : state.calls who = .write commit) (hintime : commit.InTime state.rows) :
    Kept stripeFor (state.move who
      { state.shared with
        shared := (Effect.write commit).apply stripeFor who now state.shared.shared }
      (.settle commit)) := by
  set shared : System ι :=
    { state.shared with
      shared := (Effect.write commit).apply stripeFor who now state.shared.shared } with hshared
  have hmove : Move state.rows (state.calls who) (.write commit) (.settle commit) := by
    rw [hphase]
    exact .write
  have hbrings : (state.calls who).brings = commit.published.map Prod.snd := by rw [hphase]; rfl
  have hstep : Custody.Step who (commit.published.map Prod.fst)
      (custody state.rows (· ∈ state.shared.brought) state.calls)
      (custody (state.rows.write (commit.batch now)) (· ∈ shared.brought)
        (state.move who shared (.settle commit)).calls) := by
    refine step_move shared (fun _ hmem => hmem) (fun hslot => ?_) (fun hnone => by cases hnone)
      (fun hnone => by cases hnone)
    rw [blobAt_commit, Commit.blobAfter] at hslot
    split at hslot
    · rename_i hpublished
      exact Or.inr ⟨hpublished, hbrings.trans hslot, rfl⟩
    · split at hslot
      · cases hslot
      · exact Or.inl hslot
  refine
    { sound := h.sound.step hstep, books := ?_, tracked := h.tracked, waiting := ?_,
      locked := locks_move h hmove trivial, current := ?_, uploads := ?_, uploading := ?_,
      rooted := fun key blobId hblob => rooted_commit h.rooted hintime hblob }
  · refine h.books.step h.sound hstep (settles_commit h hphase hintime)
      (fun blobId hmem hnew => absurd hmem hnew) fun blobId _ => marked_commit
  · intro blobId hmem hfree
    refine marked_commit.mpr (Or.inr ⟨h.waiting blobId hmem hfree, fun hput => hfree ?_⟩)
    have hbringing : (custody state.rows (· ∈ state.shared.brought) state.calls).bringing who =
      some blobId := hbrings.trans hput
    exact h.sound.brought hbringing
  · refine forall_calls_move (P := fun _ phase => phase.Current (state.rows.write (commit.batch now)))
      trivial fun other hother => (h.current other).commit fun key hlocks hsame => hother ?_
    refine h.locked.exclusive hlocks ?_
    show (state.calls who).locks = some key
    rw [hphase, ← hsame]
    rfl
  · intro uploadId hthere
    exact h.uploads uploadId (find?_upload_after hthere).1
  · refine forall_calls_move (P := fun _ phase => ∀ uploadId ∈ phase.uploading,
      uploadId ∈ state.shared.uploads) (fun _ hmem => by cases hmem) fun other _ => h.uploading other

theorem Kept.step (h : Kept stripeFor state) {label : Label ι} {next : State ι}
    (hintime : CommitsInTime state label) (hstep : step stripeFor state label = some next) :
    Kept stripeFor next := by
  cases label with
  | createBucket bucket =>
      rw [StoreCalls.step] at hstep
      split at hstep
      · cases hstep
      · rename_i store hstore
        obtain rfl := Option.some.inj hstep
        exact h.createBucket hstore
  | createUpload upload =>
      rw [StoreCalls.step] at hstep
      split at hstep
      · cases hstep
      · rename_i hnew
        split at hstep
        · cases hstep
        · rename_i store hstore
          obtain rfl := Option.some.inj hstep
          exact h.createUpload hnew hstore
  | track blobId now =>
      rw [StoreCalls.step] at hstep
      split at hstep
      · cases hstep
      · rename_i hnew
        obtain rfl := Option.some.inj hstep
        exact h.track hnew
  | start who operation =>
      rw [StoreCalls.step] at hstep
      split at hstep
      · split at hstep
        · rename_i hnew
          obtain rfl := Option.some.inj hstep
          exact h.start hnew
        · cases hstep
      · cases hstep
  | call who now =>
      obtain ⟨⟨effect, phase⟩, hact, rfl⟩ := Option.map_eq_some_iff.mp hstep
      obtain ⟨hmove, hfree⟩ := move_of_act hact
      by_cases heffect : ∃ commit, effect = .write commit
      · obtain ⟨commit, rfl⟩ := heffect
        obtain ⟨hphase, rfl⟩ := locks_of_move hmove
        exact h.commit hphase (hintime commit (by rw [hphase]; rfl))
      · exact h.read hmove hfree fun commit hwrite => heffect ⟨commit, hwrite⟩

end Kept

/-! ### Every run -/

/-- From the empty store, as long as every part commits while its upload is there
and every upload ends with the parts it has, each payload brought is named by one
live row and not marked, or named by none and marked. -/
theorem conserved_of_commitsInTime {ι : Type} [DecidableEq ι] {stripeFor : Bytes → Nat}
    {final : State ι} {labels : List (Label ι)}
    (hintime : Trace.Every (step stripeFor) CommitsInTime emptyStart labels)
    (hrun : Trace.run (step stripeFor) emptyStart labels = some final) : Conserved final := by
  have hkept : ∀ {before after : State ι} {label : Label ι}, Kept stripeFor before →
      CommitsInTime before label → step stripeFor before label = some after →
      Kept stripeFor after :=
    fun h hcommits hstep => h.step hcommits hstep
  exact (hintime.run_invariant hkept kept_emptyStart hrun).conserved

/-! ### Fixed runs -/

section Fixed

/-- Any hash will do; this one keeps a part and its upload apart. -/
def sampleStripe (key : Bytes) : Nat := key.foldl (fun hash byte => 31 * hash + byte.toNat) 7 % 64

def holiday : UploadRecord where
  uploadId := ascii "u"
  bucket := ⟨ascii "photos", fits_photos⟩
  key := ⟨ascii "holiday", by decide⟩

def firstPart : PartRecord where
  partNumber := 1
  blobId := ⟨ascii "p", fits_p⟩
  size := 5

def after (labels : List (Label Bool)) : State Bool :=
  (Trace.run (step sampleStripe) emptyStart labels).getD emptyStart

/-- An upload with no part, a payload for its first one, and the call that brings
it about to write. -/
def partPending : List (Label Bool) :=
  [.createBucket { name := ascii "photos" }, .createUpload holiday, .track (ascii "p") 0,
    .start false (.putPart (ascii "u") firstPart), .call false 0, .call false 0, .call false 0]

def partCommits : List (Label Bool) := [.call false 0, .call false 0]

def aborts : List (Label Bool) :=
  [.start true (.abortUpload (ascii "u")), .call true 0, .call true 0, .call true 0, .call true 0,
    .call true 0]

theorem conserved_of_commitsInTime_partFirst :
    Conserved (after (partPending ++ partCommits ++ aborts)) := by
  have hruns : (Trace.run (step sampleStripe) emptyStart
      (partPending ++ partCommits ++ aborts)).isSome := by decide +kernel
  obtain ⟨final, hfinal⟩ := Option.isSome_iff_exists.mp hruns
  have hafter : after (partPending ++ partCommits ++ aborts) = final := by rw [after, hfinal]; rfl
  rw [hafter]
  exact conserved_of_commitsInTime (by decide +kernel) hfinal

def Phase.returns : Phase → Bool
  | .returned (.ok _) => true
  | _ => false

/-- The abort comes between the part's reads and its batch: both calls return, and
the part's row names a payload for an upload that is not there. -/
theorem part_outlives_its_upload :
    (Trace.run (step sampleStripe) emptyStart (partPending ++ aborts ++ partCommits)).isSome ∧
      (∀ who, ((after (partPending ++ aborts ++ partCommits)).calls who).returns) ∧
      ascii "p" ∈ (after (partPending ++ aborts ++ partCommits)).shared.brought ∧
      ¬ Conserved (after (partPending ++ aborts ++ partCommits)) := by
  have hbrought : ascii "p" ∈ (after (partPending ++ aborts ++ partCommits)).shared.brought := by
    decide +kernel
  have hnamed : (after (partPending ++ aborts ++ partCommits)).rows.blobAt
      (Keys.part (ascii "u") 1) = some (ascii "p") := by decide +kernel
  have hended : (after (partPending ++ aborts ++ partCommits)).rows.find?
      (Keys.uploadById (ascii "u")) = none := by decide +kernel
  refine ⟨by decide +kernel, by decide +kernel, hbrought, fun hconserved => ?_⟩
  rcases hconserved _ hbrought with ⟨⟨key, -, honly, hrooted, -⟩, -⟩ | ⟨⟨hfree, -⟩, -⟩
  · obtain rfl := honly _ hnamed
    rcases hrooted with hobject | ⟨uploadId, number, hkey, hthere⟩
    · exact absurd hobject (by decide)
    · obtain ⟨rfl, -⟩ := Keys.part_inj hkey
      exact hthere hended
  · exact hfree ⟨_, hnamed⟩

end Fixed

end MonoBucket.StoreCalls

/-
The sweep beside other calls

A pass of the sweep as the steps other calls can come between: the list of
candidates, and for each one the read of its parts, the reads of its abort and
the batch. Other calls are the batches they write, whatever they have read
before. A read or a batch of the sweep can fail.

The list of parts is read outside the handler that keeps a pass going, and an
upload is measured before it is aborted. So a pass is sure to go on only while
each candidate is there when it is measured, and to abort idle uploads only
while no part arrives for the one it is about to abort.
-/

import MonoBucket.Lib.Trace
import MonoBucket.Storage.Payloads
import MonoBucket.Storage.UploadSweep

namespace MonoBucket.UploadSweep

open Codec
open StoreCalls (Commit)

/-! ### Other calls -/

/-- A batch of another call, and when its markers were queued. -/
inductive Outside
  | mutation (commit : Commit) (now : TimestampMs)
  | createUpload (upload : UploadRecord)
  | putBucket (bucket : BucketRecord)
  | dropBucket (name : Bytes)
  | trackBlob (blobId : Bytes) (now : TimestampMs)
  | forgetOrphans (blobIds : List Bytes)

namespace Outside

def batch : Outside → WriteBatch
  | .mutation commit now => commit.batch now
  | .createUpload upload => createUploadBatch upload
  | .putBucket bucket => [.put (Keys.bucket bucket.name) (encodeBucket bucket)]
  | .dropBucket name => [.delete (Keys.bucket name)]
  | .trackBlob blobId now => [orphanRow blobId now]
  | .forgetOrphans blobIds => blobIds.map fun blobId => .delete (Keys.orphan blobId)

/-- The upload it begins. -/
def begins : Outside → Option UploadRecord
  | .createUpload upload => some upload
  | _ => none

/-- The part it stores, with its upload. -/
def adds : Outside → Option (Bytes × PartRecord)
  | .mutation (.putPart uploadId part _) _ => some (uploadId, part)
  | _ => none

end Outside

/-! ### The sweep's steps -/

/-- Where a pass is: between candidates, with one measured, with what its abort
has read, or left by an exception. -/
inductive Phase
  | sweeping (todo : List UploadRecord)
  | aborting (upload : UploadRecord) (todo : List UploadRecord)
  | erasing (upload found : UploadRecord) (parts : List PartRecord) (todo : List UploadRecord)
  | thrown (error : StoreError)

namespace Phase

/-- The candidates whose turn is not over. -/
def pending : Phase → List UploadRecord
  | sweeping todo => todo
  | aborting upload todo | erasing upload _ _ todo => upload :: todo
  | thrown _ => []

/-- The candidate that was found idle and is about to be aborted. -/
def measured : Phase → Option UploadRecord
  | aborting upload _ | erasing upload .. => some upload
  | _ => none

end Phase

/-- Why a pass has left a candidate in place: its parts, or what stopped the abort. -/
inductive Reason
  | active (parts : List PartRecord)
  | failed (error : StoreError)

/-- The engine, where the pass is, its candidates and those it has left in place. -/
structure State where
  engine : StorageEngine
  phase : Phase := .sweeping []
  candidates : List UploadRecord := []
  spared : List (UploadRecord × Reason) := []

abbrev State.rows (state : State) : Rows := state.engine.metadata.rows

/-- Failures are what RocksDB said. -/
inductive Label
  | begin
  | measure (failing : Option Bytes)
  | find (failing : Option Bytes)
  | erase (now : TimestampMs) (failing : Option Bytes)
  | elsewhere (change : Outside) (counters : Counters) (quotas : QuotaLedger)

/-- A read that RocksDB may refuse. -/
def reading {α : Type} (failing : Option Bytes) (read : Except StoreError α) : Except StoreError α :=
  match failing with
  | none => read
  | some what => fail .io what

/-- The handler around an abort: an upload that is gone is none of its business, any
other storage error is logged, and nothing else is caught. -/
def State.handle (state : State) (upload : UploadRecord) (todo : List UploadRecord) :
    StoreError → State
  | .storage .noSuchUpload _ => { state with phase := .sweeping todo }
  | .storage code what =>
    { state with
      phase := .sweeping todo
      spared := (upload, .failed (.storage code what)) :: state.spared }
  | .decode error => { state with phase := .thrown (.decode error) }

/-- An upload that begins has an id of its own. -/
def step (limit : Nat) (cutoff : TimestampMs) (state : State) : Label → Option State
  | .begin =>
    match state.phase with
    | .sweeping [] =>
      match listUploadsCreatedBefore state.rows limit cutoff with
      | .error error => some { state with phase := .thrown error }
      | .ok candidates =>
        some { state with phase := .sweeping candidates, candidates := candidates, spared := [] }
    | _ => none
  | .measure failing =>
    match state.phase with
    | .sweeping (upload :: todo) =>
      match reading failing (listParts state.rows upload.uploadId) with
      | .error error => some { state with phase := .thrown error }
      | .ok parts =>
        if cutoff ≤ lastActivity upload parts then
          some
            { state with
              phase := .sweeping todo
              spared := (upload, .active parts) :: state.spared }
        else some { state with phase := .aborting upload todo }
    | _ => none
  | .find failing =>
    match state.phase with
    | .aborting upload todo =>
      match reading failing (FailedWrites.uploadAndParts state.rows upload.uploadId) with
      | .error error => some (state.handle upload todo error)
      | .ok (found, parts) => some { state with phase := .erasing upload found parts todo }
    | _ => none
  | .erase now failing =>
    match state.phase with
    | .erasing upload found parts todo =>
      match failing with
      | some what => some (state.handle upload todo (.storage .io what))
      | none =>
        some { state with engine := state.engine.erase found parts now, phase := .sweeping todo }
    | _ => none
  | .elsewhere change counters quotas =>
    if ∀ upload ∈ change.begins, ∀ candidate ∈ state.candidates,
        upload.uploadId ≠ candidate.uploadId then
      some
        { state with
          engine :=
            { state.engine with
              metadata :=
                { state.engine.metadata with
                  rows := state.rows.write change.batch
                  counters := counters }
              quotas := quotas } }
    else none

def start (engine : StorageEngine) : State where
  engine := engine

/-- Each candidate is there when its parts are read, and while one is about to be
aborted no part of after the cutoff arrives for it. -/
def Undisturbed (cutoff : TimestampMs) (state : State) : Label → Prop
  | .measure failing =>
    failing = none ∧ ∀ upload ∈ state.phase.pending.head?,
      state.rows.find? (Keys.uploadById upload.uploadId) ≠ none
  | .elsewhere change _ _ =>
    ∀ pair ∈ change.adds, ∀ upload ∈ state.phase.measured,
      pair.1 = upload.uploadId → pair.2.uploadedAt < cutoff
  | _ => True

instance (cutoff : TimestampMs) (state : State) (label : Label) :
    Decidable (Undisturbed cutoff state label) := by
  unfold Undisturbed
  cases label <;> infer_instance

/-- What holds whenever no step was disturbed. -/
structure Sound (cutoff : TimestampMs) (state : State) : Prop where
  /-- No exception ends a pass. -/
  returns : ∀ error, state.phase ≠ .thrown error
  /-- Each candidate has its turn, and is gone after it unless it was left in place. -/
  settled : ∀ upload ∈ state.candidates, upload ∈ state.phase.pending ∨
    (∃ reason, (upload, reason) ∈ state.spared) ∨ loadUpload state.rows upload.uploadId = .ok none
  /-- What was left in place without an error had received a part. -/
  spared : ∀ {upload parts}, (upload, .active parts) ∈ state.spared →
    ∃ part ∈ parts, cutoff ≤ part.uploadedAt
  /-- What is about to go is idle. -/
  eager : ∀ {upload found parts todo}, state.phase = .erasing upload found parts todo →
    ∀ live, loadUpload state.rows found.uploadId = .ok (some live) → Idle cutoff state.rows live

/-! ### What other calls write -/

namespace Outside

variable {change : Outside} {key value : Bytes}

/-- The rows put: that of an upload begun, that of a part stored, and rows of other
kinds. -/
theorem put_cases (h : RowOp.put key value ∈ change.batch) :
    (∃ upload, change.begins = some upload ∧ key = Keys.uploadById upload.uploadId ∧
        value = encodeUpload upload) ∨
      (∃ uploadId part, change.adds = some (uploadId, part) ∧
        key = Keys.part uploadId part.partNumber ∧ value = encodePart part) ∨
      (key.head? ≠ some Keys.kUploadById ∧ key.head? ≠ some Keys.kPart ∧
        Written (fun _ => True) key value) := by
  have hother : ∀ {tag : UInt8} {rest : Bytes}, key = tag :: rest →
      tag ≠ Keys.kUploadById ∧ tag ≠ Keys.kPart → Written (fun _ => True) key value →
      key.head? ≠ some Keys.kUploadById ∧ key.head? ≠ some Keys.kPart ∧
        Written (fun _ => True) key value := by
    rintro tag rest rfl ⟨hupload, hpart⟩ hwritten
    exact ⟨fun hhead => hupload (Option.some.inj hhead), fun hhead => hpart (Option.some.inj hhead),
      hwritten⟩
  cases change with
  | mutation commit now =>
      rcases StoreCalls.put_of_commit h with hrow | ⟨blobId, rfl, rfl⟩
      · have hwritten := (StoreCalls.written_of_row hrow).1
        cases commit with
        | putObject bucket object previous =>
            obtain ⟨rfl, rfl⟩ := Prod.mk.inj (Option.some.inj hrow)
            exact Or.inr (Or.inr (hother rfl (by decide) hwritten))
        | completeUpload bucket upload object previous parts =>
            obtain ⟨rfl, rfl⟩ := Prod.mk.inj (Option.some.inj hrow)
            exact Or.inr (Or.inr (hother rfl (by decide) hwritten))
        | putPart uploadId part previous =>
            obtain ⟨rfl, rfl⟩ := Prod.mk.inj (Option.some.inj hrow)
            exact Or.inr (Or.inl ⟨uploadId, part, rfl, rfl, rfl⟩)
        | deleteObject | abortUpload => cases hrow
      · exact Or.inr (Or.inr (hother rfl (by decide) (Written.orphan blobId now)))
  | createUpload upload =>
      rcases List.mem_cons.mp h with hrow | hbyKey
      · obtain ⟨rfl, rfl⟩ := RowOp.put.inj hrow
        exact Or.inl ⟨upload, rfl, rfl, rfl⟩
      · obtain ⟨rfl, rfl⟩ := RowOp.put.inj (List.mem_singleton.mp hbyKey)
        exact Or.inr (Or.inr (hother rfl (by decide) (Written.uploadByKey _ _ _)))
  | putBucket bucket =>
      obtain ⟨rfl, rfl⟩ := RowOp.put.inj (List.mem_singleton.mp h)
      exact Or.inr (Or.inr (hother rfl (by decide) (Written.bucket bucket trivial)))
  | trackBlob blobId now =>
      obtain ⟨rfl, rfl⟩ := RowOp.put.inj (List.mem_singleton.mp h)
      exact Or.inr (Or.inr (hother rfl (by decide) (Written.orphan blobId now)))
  | dropBucket name => simp [batch] at h
  | forgetOrphans blobIds => simp [batch] at h

/-- Each row put is one the server writes. -/
theorem written_of_put (h : RowOp.put key value ∈ change.batch) :
    Written (fun _ => True) key value := by
  rcases put_cases h with ⟨upload, -, rfl, rfl⟩ | ⟨uploadId, part, -, rfl, rfl⟩ | ⟨-, -, hwritten⟩
  · exact Written.uploadById upload
  · exact Written.part uploadId part
  · exact hwritten

/-- An upload's row is put by the call that begins the upload. -/
theorem begins_of_put {uploadId : Bytes}
    (h : RowOp.put (Keys.uploadById uploadId) value ∈ change.batch) :
    ∃ upload ∈ change.begins, upload.uploadId = uploadId := by
  rcases put_cases h with ⟨upload, hbegins, hkey, -⟩ | ⟨other, part, -, hkey, -⟩ | ⟨hhead, -, -⟩
  · exact ⟨upload, hbegins, (List.cons.inj hkey).2.symm⟩
  · exact absurd (congrArg List.head? hkey)
      (by decide : ¬ some Keys.kUploadById = some Keys.kPart)
  · exact absurd rfl hhead

/-- A part's row is put by the call that stores the part. -/
theorem adds_of_put {uploadId : Bytes} {number : UInt32}
    (h : RowOp.put (Keys.part uploadId number) value ∈ change.batch) :
    ∃ part, change.adds = some (uploadId, part) ∧ part.partNumber = number ∧
      value = encodePart part := by
  rcases put_cases h with ⟨upload, -, hkey, -⟩ | ⟨other, part, hadds, hkey, hvalue⟩ | ⟨-, hhead, -⟩
  · exact absurd (congrArg List.head? hkey)
      (by decide : ¬ some Keys.kPart = some Keys.kUploadById)
  · obtain ⟨rfl, rfl⟩ := Keys.part_inj hkey
    exact ⟨part, hadds, rfl, hvalue⟩
  · exact absurd rfl hhead

variable {rows : Rows}

/-- An upload found after a batch that does not begin it was there before. -/
theorem loadUpload_of_batch {uploadId : Bytes} {found : UploadRecord}
    (hid : ∀ upload ∈ change.begins, upload.uploadId ≠ uploadId)
    (h : loadUpload (rows.write change.batch) uploadId = .ok (some found)) :
    loadUpload rows uploadId = .ok (some found) := by
  obtain ⟨stored, hfind, hdecode⟩ := decode_of_readRow h
  rcases Rows.mem_entries_write ((OrderedMap.find?_eq_some_iff _).mp hfind) with hold | hput
  · rw [loadUpload, readRow, (OrderedMap.find?_eq_some_iff _).mpr hold]
    simp [hdecode, decoded, Except.map]
  · obtain ⟨upload, hupload, heq⟩ := begins_of_put hput
    exact absurd heq (hid upload hupload)

/-- Parts of before the cutoff, and none added but such. -/
theorem stale_of_batch {uploadId : Bytes} {cutoff : TimestampMs} (hstale : Stale cutoff rows uploadId)
    (hadds : ∀ pair ∈ change.adds, pair.1 = uploadId → pair.2.uploadedAt < cutoff) :
    Stale cutoff (rows.write change.batch) uploadId := by
  intro number part hload
  obtain ⟨stored, hfind, hdecode⟩ := decode_of_readRow hload
  rcases Rows.mem_entries_write ((OrderedMap.find?_eq_some_iff _).mp hfind) with hold | hput
  · refine hstale number part ?_
    rw [loadPart, readRow, (OrderedMap.find?_eq_some_iff _).mpr hold]
    simp [hdecode, decoded, Except.map]
  · obtain ⟨added, hpair, rfl, rfl⟩ := adds_of_put hput
    obtain rfl := Except.ok.inj ((decodePart_encodePart added).symm.trans hdecode)
    exact hadds (uploadId, added) hpair rfl

end Outside

/-- After a storage error the pass goes on. -/
theorem State.handle_storage (state : State) (upload : UploadRecord) (todo : List UploadRecord)
    (code : StorageErrorCode) (what : Bytes) :
    ∃ spared, state.handle upload todo (.storage code what) =
      { state with phase := .sweeping todo, spared := spared } := by
  cases code <;> exact ⟨_, rfl⟩

/-! ### The invariant -/

/-- `Sound`, with what the pass knows of its candidates. -/
structure Kept (cutoff : TimestampMs) (state : State) : Prop where
  written : state.rows.Holds (Written fun _ => True)
  returns : ∀ error, state.phase ≠ .thrown error
  /-- A candidate's row is the one that was listed, as long as it is there. -/
  listed : ∀ upload ∈ state.candidates, upload.createdAt < cutoff ∧
    ∀ found, loadUpload state.rows upload.uploadId = .ok (some found) → found = upload
  pending : ∀ upload ∈ state.phase.pending, upload ∈ state.candidates
  stale : ∀ upload ∈ state.phase.measured, Stale cutoff state.rows upload.uploadId
  found : ∀ {upload found parts todo}, state.phase = .erasing upload found parts todo →
    found.uploadId = upload.uploadId
  settled : ∀ upload ∈ state.candidates, upload ∈ state.phase.pending ∨
    (∃ reason, (upload, reason) ∈ state.spared) ∨ loadUpload state.rows upload.uploadId = .ok none
  spared : ∀ {upload parts}, (upload, .active parts) ∈ state.spared →
    ∃ part ∈ parts, cutoff ≤ part.uploadedAt

namespace Kept

variable {limit : Nat} {cutoff : TimestampMs} {state next : State} {upload : UploadRecord}
  {todo : List UploadRecord} {engine : StorageEngine} {now : TimestampMs} {failing : Option Bytes}

theorem sound (h : Kept cutoff state) : Sound cutoff state where
  returns := h.returns
  settled := h.settled
  spared := h.spared
  eager := by
    intro upload found parts todo hphase live hlive
    rw [h.found hphase] at hlive
    have hcandidate : upload ∈ state.candidates := h.pending upload (by simp [hphase, Phase.pending])
    obtain ⟨hcreated, hsame⟩ := h.listed upload hcandidate
    obtain rfl := hsame live hlive
    exact ⟨hlive, hcreated, h.stale live (by simp [hphase, Phase.measured])⟩

theorem start (hrows : engine.metadata.rows.Holds (Written fun _ => True)) :
    Kept cutoff (start engine) where
  written := hrows
  returns := by intro error h; cases h
  listed := by intro upload h; cases h
  pending := by intro upload h; cases h
  stale := by intro upload h; cases h
  found := by intro upload found parts todo h; cases h
  settled := by intro upload h; cases h
  spared := by intro upload parts h; cases h

/-- Other rows, in which no candidate is there that was not. -/
structure Fewer (state : State) (engine : StorageEngine) : Prop where
  written : engine.metadata.rows.Holds (Written fun _ => True)
  loaded : ∀ upload ∈ state.candidates, ∀ found,
    loadUpload engine.metadata.rows upload.uploadId = .ok (some found) →
      loadUpload state.rows upload.uploadId = .ok (some found)

theorem Fewer.refl (h : Kept cutoff state) : Fewer state state.engine :=
  ⟨h.written, fun _ _ _ hload => hload⟩

theorem Fewer.listed (h : Kept cutoff state) (hfewer : Fewer state engine)
    (hupload : upload ∈ state.candidates) :
    upload.createdAt < cutoff ∧
      ∀ found, loadUpload engine.metadata.rows upload.uploadId = .ok (some found) → found = upload := by
  obtain ⟨hcreated, hsame⟩ := h.listed upload hupload
  exact ⟨hcreated, fun found hload => hsame found (hfewer.loaded upload hupload found hload)⟩

theorem Fewer.gone (hfewer : Fewer state engine) (hupload : upload ∈ state.candidates)
    (hgone : loadUpload state.rows upload.uploadId = .ok none) :
    loadUpload engine.metadata.rows upload.uploadId = .ok none := by
  obtain ⟨found, hload⟩ := loadUpload_returns hfewer.written upload.uploadId
  cases found with
  | none => exact hload
  | some live =>
      rw [hfewer.loaded upload hupload live hload] at hgone
      cases hgone

/-- The rows change under a pass that stays where it is. -/
theorem withEngine (h : Kept cutoff state) (hfewer : Fewer state engine)
    (hstale : ∀ upload ∈ state.phase.measured, Stale cutoff engine.metadata.rows upload.uploadId) :
    Kept cutoff { state with engine := engine } where
  written := hfewer.written
  returns := h.returns
  listed := fun _ hupload => hfewer.listed h hupload
  pending := h.pending
  stale := hstale
  found := h.found
  settled := fun upload hupload =>
    (h.settled upload hupload).imp_right fun hdone => hdone.imp_right (hfewer.gone hupload)
  spared := h.spared

/-- The turn of a candidate is over: it was left in place or is gone. -/
theorem turn (h : Kept cutoff state) (hturn : state.phase.pending = upload :: todo)
    (hfewer : Fewer state engine) {spared : List (UploadRecord × Reason)}
    (hgrown : ∀ pair ∈ state.spared, pair ∈ spared)
    (hspared : ∀ {upload parts}, (upload, .active parts) ∈ spared →
      ∃ part ∈ parts, cutoff ≤ part.uploadedAt)
    (hdone : (∃ reason, (upload, reason) ∈ spared) ∨
      loadUpload engine.metadata.rows upload.uploadId = .ok none) :
    Kept cutoff { state with engine := engine, phase := .sweeping todo, spared := spared } where
  written := hfewer.written
  returns := by intro error hthrown; cases hthrown
  listed := fun _ hupload => hfewer.listed h hupload
  pending := fun other hother => h.pending other (hturn ▸ List.mem_cons_of_mem _ hother)
  stale := by intro other hother; cases hother
  found := by intro other found parts rest hphase; cases hphase
  settled := by
    intro other hother
    rcases h.settled other hother with hpending | ⟨reason, hreason⟩ | hgone
    · rw [hturn] at hpending
      rcases List.mem_cons.mp hpending with rfl | hrest
      · exact Or.inr hdone
      · exact Or.inl hrest
    · exact Or.inr (Or.inl ⟨reason, hgrown _ hreason⟩)
    · exact Or.inr (Or.inr (hfewer.gone hother hgone))
  spared := hspared

/-- A storage error ends the turn; the handler ignores the one that says the upload is
gone. -/
theorem handle (h : Kept cutoff state) (hturn : state.phase.pending = upload :: todo)
    {code : StorageErrorCode} {what : Bytes}
    (hgone : code = .noSuchUpload → loadUpload state.rows upload.uploadId = .ok none) :
    Kept cutoff (state.handle upload todo (.storage code what)) := by
  by_cases hcode : code = .noSuchUpload
  · subst hcode
    exact h.turn hturn (Fewer.refl h) (fun _ hpair => hpair) h.spared (Or.inr (hgone rfl))
  · have hhandle : state.handle upload todo (.storage code what) =
        { state with
          phase := .sweeping todo
          spared := (upload, .failed (.storage code what)) :: state.spared } := by
      cases code <;> first | rfl | exact absurd rfl hcode
    rw [hhandle]
    refine h.turn hturn (Fewer.refl h) (fun _ hpair => List.mem_cons_of_mem _ hpair) ?_
      (Or.inl ⟨_, List.mem_cons_self⟩)
    intro other parts hother
    rcases List.mem_cons.mp hother with heq | hold
    · cases heq
    · exact h.spared hold

/-- A candidate was measured, or what its abort reads was read. -/
theorem onwards (h : Kept cutoff state) (hturn : state.phase.pending = upload :: todo) {phase : Phase}
    (hpending : phase.pending = upload :: todo) (hmeasured : phase.measured = some upload)
    (hstale : Stale cutoff state.rows upload.uploadId)
    (hfound : ∀ {other found parts rest}, phase = .erasing other found parts rest →
      found.uploadId = other.uploadId) :
    Kept cutoff { state with phase := phase } where
  written := h.written
  returns := by
    rintro error rfl
    cases hmeasured
  listed := h.listed
  pending := fun other hother => h.pending other (by rw [hturn, ← hpending]; exact hother)
  stale := by
    intro other hother
    obtain rfl : upload = other := Option.some.inj (hmeasured.symm.trans hother)
    exact hstale
  found := hfound
  settled := by
    intro other hother
    have hsettled := h.settled other hother
    rwa [hturn, ← hpending] at hsettled
  spared := h.spared

theorem begin (h : Kept cutoff state) {candidates : List UploadRecord}
    (hlist : listUploadsCreatedBefore state.rows limit cutoff = .ok candidates) :
    Kept cutoff
      { state with phase := .sweeping candidates, candidates := candidates, spared := [] } where
  written := h.written
  returns := by intro error hthrown; cases hthrown
  listed := by
    intro upload hupload
    rw [listUploadsCreatedBefore_eq h.written] at hlist
    obtain rfl := Except.ok.inj hlist
    obtain ⟨hlive, hcreated⟩ := mem_oldUploads.mp (List.mem_of_mem_take hupload)
    refine ⟨hcreated, fun found hload => ?_⟩
    rw [hlive] at hload
    exact (Option.some.inj (Except.ok.inj hload)).symm
  pending := fun _ hupload => hupload
  stale := by intro upload hupload; cases hupload
  found := by intro upload found parts todo hphase; cases hphase
  settled := fun _ hupload => Or.inl hupload
  spared := by intro upload parts hspared; cases hspared

theorem measure (h : Kept cutoff state) (hphase : state.phase = .sweeping (upload :: todo))
    (hundisturbed : Undisturbed cutoff state (.measure failing))
    (hstep : step limit cutoff state (.measure failing) = some next) : Kept cutoff next := by
  obtain ⟨rfl, hthere⟩ := hundisturbed
  have hturn : state.phase.pending = upload :: todo := by rw [hphase, Phase.pending]
  have hcandidate : upload ∈ state.candidates := h.pending upload (by simp [hturn])
  obtain ⟨found, hload⟩ := loadUpload_of_find? h.written (hthere upload (by simp [hturn]))
  obtain ⟨parts, hparts⟩ := collectParts_returns h.written upload.uploadId
  have hlist : listParts state.rows upload.uploadId = .ok parts := by
    rw [listParts, hload]
    exact hparts
  rw [step, hphase] at hstep
  simp only [reading, hlist] at hstep
  have hcreated := (h.listed upload hcandidate).1
  split_ifs at hstep with hlate
  · obtain rfl := Option.some.inj hstep
    refine h.turn hturn (Fewer.refl h) (fun _ hpair => List.mem_cons_of_mem _ hpair) ?_
      (Or.inl ⟨_, List.mem_cons_self⟩)
    intro other read hother
    rcases List.mem_cons.mp hother with heq | hold
    · obtain ⟨-, hread⟩ := Prod.mk.inj heq
      obtain rfl := Reason.active.inj hread
      by_contra hnone
      push Not at hnone
      have hlast : lastActivity upload read < cutoff :=
        lastActivity_lt_iff.mpr ⟨hcreated, fun part hpart => Int64.not_le.mp (hnone part hpart)⟩
      exact absurd hlast (Int64.not_lt.mpr hlate)
    · exact h.spared hold
  · obtain rfl := Option.some.inj hstep
    have hactive : active cutoff state.rows upload = false := by
      rw [active, hparts]
      exact decide_eq_false hlate
    exact h.onwards hturn rfl rfl ((active_eq_false_iff h.written hcreated).mp hactive)
      (fun hphase => by cases hphase)

theorem find (h : Kept cutoff state) (hphase : state.phase = .aborting upload todo)
    (hstep : step limit cutoff state (.find failing) = some next) : Kept cutoff next := by
  have hturn : state.phase.pending = upload :: todo := by rw [hphase, Phase.pending]
  have hstale := h.stale upload (by rw [hphase]; rfl)
  rw [step, hphase] at hstep
  cases failing with
  | some what =>
      obtain rfl := Option.some.inj hstep
      exact h.handle hturn (fun hcode => by cases hcode)
  | none =>
      obtain ⟨found, hload⟩ := loadUpload_returns h.written upload.uploadId
      obtain ⟨parts, hparts⟩ := collectParts_returns h.written upload.uploadId
      simp only [reading, FailedWrites.uploadAndParts, hload, hparts] at hstep
      cases found with
      | none =>
          obtain rfl := Option.some.inj hstep
          exact h.handle hturn fun _ => hload
      | some live =>
          obtain rfl := Option.some.inj hstep
          refine h.onwards hturn rfl rfl hstale fun hphase => ?_
          obtain ⟨rfl, rfl, -, -⟩ := Phase.erasing.inj hphase
          exact uploadId_of_loadUpload hload

theorem erase (h : Kept cutoff state) {found : UploadRecord} {parts : List PartRecord}
    (hphase : state.phase = .erasing upload found parts todo)
    (hstep : step limit cutoff state (.erase now failing) = some next) : Kept cutoff next := by
  have hturn : state.phase.pending = upload :: todo := by rw [hphase, Phase.pending]
  rw [step, hphase] at hstep
  cases failing with
  | some what =>
      obtain rfl := Option.some.inj hstep
      exact h.handle hturn (fun hcode => by cases hcode)
  | none =>
      obtain rfl := Option.some.inj hstep
      have herases := StorageEngine.erases_erase h.written found parts now
      have hgone : loadUpload (state.engine.erase found parts now).metadata.rows upload.uploadId =
          .ok none := by
        rw [loadUpload, readRow, herases.gone _ (by simp [h.found hphase])]
      refine h.turn hturn ⟨herases.written, ?_⟩ (fun _ hpair => hpair) h.spared (Or.inr hgone)
      intro other hother live hlive
      by_cases hid : other.uploadId = found.uploadId
      · rw [hid, h.found hphase, hgone] at hlive
        cases hlive
      · rwa [herases.loadUpload_eq (by simp [hid])] at hlive

theorem elsewhere (h : Kept cutoff state) {change : Outside} {counters : Counters}
    {quotas : QuotaLedger}
    (hundisturbed : Undisturbed cutoff state (.elsewhere change counters quotas))
    (hstep : step limit cutoff state (.elsewhere change counters quotas) = some next) :
    Kept cutoff next := by
  rw [step] at hstep
  split_ifs at hstep with hfresh
  obtain rfl := Option.some.inj hstep
  refine h.withEngine ⟨?_, fun upload hupload found => ?_⟩ fun upload hmeasured => ?_
  · exact h.written.write fun key value => Outside.written_of_put
  · exact Outside.loadUpload_of_batch fun begun hbegun => hfresh begun hbegun upload hupload
  · exact Outside.stale_of_batch (h.stale upload hmeasured) fun pair hpair =>
      hundisturbed pair hpair upload hmeasured

/-- Every undisturbed step keeps the invariant. -/
theorem of_step {label : Label} (h : Kept cutoff state) (hundisturbed : Undisturbed cutoff state label)
    (hstep : step limit cutoff state label = some next) : Kept cutoff next := by
  cases label with
  | begin =>
      rw [step] at hstep
      split at hstep
      · split at hstep
        · rename_i error hlist
          rw [listUploadsCreatedBefore_eq h.written] at hlist
          cases hlist
        · rename_i candidates hlist
          obtain rfl := Option.some.inj hstep
          exact h.begin hlist
      · cases hstep
  | measure failing =>
      cases hphase : state.phase with
      | sweeping todo =>
          cases todo with
          | nil => simp [step, hphase] at hstep
          | cons upload todo => exact h.measure hphase hundisturbed hstep
      | _ => simp [step, hphase] at hstep
  | find failing =>
      cases hphase : state.phase with
      | aborting upload todo => exact h.find hphase hstep
      | _ => simp [step, hphase] at hstep
  | erase now failing =>
      cases hphase : state.phase with
      | erasing upload found parts todo => exact h.erase hphase hstep
      | _ => simp [step, hphase] at hstep
  | elsewhere change counters quotas => exact h.elsewhere hundisturbed hstep

end Kept

/-! ### A pass that runs alone -/

section Alone

variable {limit : Nat} {cutoff : TimestampMs} {now : Bytes → TimestampMs} {next : StorageEngine}
  {total : Nat}

/-- Each candidate takes one step or three. -/
theorem run_sweepLoop (limit : Nat) {todo : List UploadRecord} (state : State) {swept : Nat}
    (hphase : state.phase = .sweeping todo)
    (h : StorageEngine.sweepLoop cutoff now state.engine swept todo = (next, .ok total)) :
    ∃ labels final, Trace.run (step limit cutoff) state labels = some final ∧
      final.engine = next ∧ final.phase = .sweeping [] := by
  induction todo generalizing state swept with
  | nil => exact ⟨[], state, rfl, (Prod.mk.inj h).1, hphase⟩
  | cons upload todo ih =>
      rw [StorageEngine.sweepLoop] at h
      cases hlist : listParts state.rows upload.uploadId with
      | error error =>
          rw [hlist] at h
          cases (Prod.mk.inj h).2
      | ok parts =>
          rw [hlist] at h
          dsimp only at h
          by_cases hlate : cutoff ≤ lastActivity upload parts
          · rw [if_pos hlate] at h
            obtain ⟨labels, final, hrun, hfinal⟩ := ih
              { state with
                phase := .sweeping todo
                spared := (upload, .active parts) :: state.spared } rfl h
            refine ⟨.measure none :: labels, final, Trace.run_cons_eq_some.mpr ⟨_, ?_, hrun⟩, hfinal⟩
            simp [step, hphase, reading, hlist, hlate]
          · rw [if_neg hlate, StorageEngine.abortUpload_eq] at h
            have hmeasure : step limit cutoff state (.measure none) =
                some { state with phase := .aborting upload todo } := by
              simp [step, hphase, reading, hlist, hlate]
            cases hread : FailedWrites.uploadAndParts state.rows upload.uploadId with
            | error error =>
                rw [hread] at h
                cases error with
                | decode error => cases (Prod.mk.inj h).2
                | storage code what =>
                    obtain ⟨spared, hspared⟩ := State.handle_storage
                      { state with phase := .aborting upload todo } upload todo code what
                    obtain ⟨labels, final, hrun, hfinal⟩ := ih
                      { state with phase := .sweeping todo, spared := spared } rfl h
                    refine ⟨.measure none :: .find none :: labels, final, ?_, hfinal⟩
                    refine Trace.run_cons_eq_some.mpr ⟨_, hmeasure, ?_⟩
                    refine Trace.run_cons_eq_some.mpr ⟨_, ?_, hrun⟩
                    simp [step, reading, hread, hspared]
            | ok read =>
                obtain ⟨found, foundParts⟩ := read
                rw [hread] at h
                obtain ⟨labels, final, hrun, hfinal⟩ := ih
                  { state with
                    engine := state.engine.erase found foundParts (now upload.uploadId)
                    phase := .sweeping todo } rfl h
                refine ⟨.measure none :: .find none :: .erase (now upload.uploadId) none :: labels,
                  final, ?_, hfinal⟩
                refine Trace.run_cons_eq_some.mpr ⟨_, hmeasure, ?_⟩
                refine Trace.run_cons_eq_some.mpr
                  ⟨{ state with phase := .erasing upload found foundParts todo }, ?_, ?_⟩
                · simp [step, reading, hread]
                · exact Trace.run_cons_eq_some.mpr ⟨_, rfl, hrun⟩

/-- What the sweep does alone is a run of its steps. -/
theorem run_sweepUploadsIdleBefore {engine : StorageEngine}
    (h : engine.sweepUploadsIdleBefore limit cutoff now = (next, .ok total)) :
    ∃ labels final, Trace.run (step limit cutoff) (start engine) labels = some final ∧
      final.engine = next ∧ final.phase = .sweeping [] := by
  rw [StorageEngine.sweepUploadsIdleBefore] at h
  cases hlist : listUploadsCreatedBefore engine.metadata.rows limit cutoff with
  | error error =>
      rw [hlist] at h
      cases (Prod.mk.inj h).2
  | ok candidates =>
      rw [hlist] at h
      obtain ⟨labels, final, hrun, hfinal⟩ := run_sweepLoop limit
        ⟨engine, .sweeping candidates, candidates, []⟩ rfl h
      refine ⟨.begin :: labels, final, Trace.run_cons_eq_some.mpr ⟨_, ?_, hrun⟩, hfinal⟩
      simp [step, start, hlist]

end Alone

/-- Every pass goes on and aborts idle uploads only, in every undisturbed run; and passes that
run alone get to all of them exactly when none has `limit` busy ones before it. -/
theorem sound_of_undisturbed {engine : StorageEngine}
    (hrows : engine.metadata.rows.Holds (Written fun _ => True)) (limit : Nat)
    (cutoff : TimestampMs) :
    (∀ {labels : List Label} {final : State},
        Trace.Every (step limit cutoff) (Undisturbed cutoff) (start engine) labels →
        Trace.run (step limit cutoff) (start engine) labels = some final → Sound cutoff final) ∧
      ∀ now : Nat → Bytes → TimestampMs,
        (∃ count, ∀ upload,
            ¬ Idle cutoff (engine.sweeps limit cutoff now count).metadata.rows upload) ↔
          StorageEngine.InReach limit cutoff engine.metadata.rows := by
  constructor
  · intro labels final hundisturbed hrun
    exact (hundisturbed.run_invariant Kept.of_step (Kept.start hrows) hrun).sound
  · exact StorageEngine.exists_sweeps_iff hrows

/-! ### Two old uploads, one of them busy -/

def busyUpload : UploadRecord where
  uploadId := ascii "a"
  bucket := ⟨ascii "photos", fits_photos⟩
  key := ⟨ascii "one", fits_one⟩
  createdAt := 10

def idleUpload : UploadRecord where
  uploadId := ascii "b"
  bucket := ⟨ascii "photos", fits_photos⟩
  key := ⟨ascii "two", by decide⟩
  createdAt := 20

def latePart : PartRecord where
  partNumber := 1
  blobId := ⟨ascii "blob", fits_blob⟩
  uploadedAt := 500

def twoUploads : StorageEngine where
  metadata :=
    { rows := Rows.write .empty
        (createUploadBatch busyUpload ++ createUploadBatch idleUpload ++
          [.put (Keys.part busyUpload.uploadId latePart.partNumber) (encodePart latePart)]) }

theorem twoUploads_written : twoUploads.metadata.rows.Holds (Written fun _ => True) := by
  rw [twoUploads, Rows.write_append, Rows.write_append]
  have hempty := Rows.Holds.empty (Q := Written fun _ => True)
  refine (holds_createUploadBatch (holds_createUploadBatch hempty busyUpload) idleUpload).write ?_
  intro key value hput
  obtain ⟨rfl, rfl⟩ := RowOp.put.inj (List.mem_singleton.mp hput)
  exact Written.part _ latePart

theorem oldUploads_twoUploads :
    oldUploads 100 twoUploads.metadata.rows = [busyUpload, idleUpload] := by
  decide +kernel

/-- Both are candidates, and another part arrives for the busy one in the meantime. -/
def measuredBoth : List Label :=
  [.begin, .measure none, .elsewhere (.mutation (.putPart busyUpload.uploadId latePart none) 500) {} {},
    .measure none, .find none, .erase 600 none]

theorem sound_measuredBoth :
    (∃ final, Trace.run (step 2 100) (start twoUploads) measuredBoth = some final ∧
      Sound 100 final) ∧
      ∃ count, ∀ upload,
        ¬ Idle 100 (twoUploads.sweeps 2 100 (fun _ _ => 600) count).metadata.rows upload := by
  obtain ⟨hrun, hpasses⟩ := sound_of_undisturbed twoUploads_written 2 100
  constructor
  · exact ⟨_, rfl, hrun
      (show Trace.Every (step 2 100) (Undisturbed 100) (start twoUploads) measuredBoth by
        decide +kernel) rfl⟩
  · apply (hpasses fun _ _ => 600).mpr
    rw [StorageEngine.inReach_iff twoUploads_written, oldUploads_twoUploads]
    exact Sweeping.unblocked_of_length_le le_rfl

/-- One place a pass: the busy upload takes it every time. And an upload that is aborted by
its client between its listing and its turn ends the pass by an exception. -/
theorem unsound_starved_vanished :
    (¬ ∃ count, ∀ upload,
      ¬ Idle 100 (twoUploads.sweeps 1 100 (fun _ _ => 600) count).metadata.rows upload) ∧
      ∃ final, Trace.run (step 2 100) (start twoUploads)
        [.begin, .measure none, .elsewhere (.mutation (.abortUpload idleUpload []) 550) {} {},
          .measure none] = some final ∧ ¬ Sound 100 final := by
  constructor
  · rw [StorageEngine.exists_sweeps_iff twoUploads_written,
      StorageEngine.inReach_iff twoUploads_written, oldUploads_twoUploads]
    intro h
    have hcount := h [busyUpload] idleUpload [] rfl (by decide +kernel)
    exact absurd hcount (by decide +kernel)
  · exact ⟨_, rfl, fun h => h.returns _ rfl⟩

end MonoBucket.UploadSweep

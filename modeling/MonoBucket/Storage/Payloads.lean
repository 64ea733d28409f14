/-
What the files hold

A payload's file is linked into the tree once, with the bytes its writer was given,
and nothing writes to it afterwards. The row that names it records how many bytes
those are. So a file that is there is the whole payload, and its size is the one
recorded.
-/

import MonoBucket.Storage.Reclamation
import MonoBucket.Storage.Written

namespace MonoBucket

open Codec

/-! ### The payload a row records -/

/-- The payload a stored object names, and the size it records. -/
def objectPayload (stored : Bytes) : Option (Bytes × UInt64) :=
  (decodeObject [] stored).toOption.map fun object => (object.blobId.items, object.size)

def partPayload (stored : Bytes) : Option (Bytes × UInt64) :=
  (decodePart 0 stored).toOption.map fun part => (part.blobId.items, part.size)

def rowPayload (key stored : Bytes) : Option (Bytes × UInt64) :=
  if key.head? = some Keys.kObject then objectPayload stored
  else if key.head? = some Keys.kPart then partPayload stored
  else none

namespace Rows

/-- The payload the row under a key names, with its size. -/
def payloadAt (rows : Rows) (key : Bytes) : Option (Bytes × UInt64) :=
  (rows.find? key).bind (rowPayload key)

theorem blobAt_eq_payloadAt (rows : Rows) (key : Bytes) :
    rows.blobAt key = (rows.payloadAt key).map Prod.fst := by
  rw [blobAt, payloadAt]
  cases rows.find? key with
  | none => rfl
  | some stored =>
      show rowBlob key stored = (rowPayload key stored).map Prod.fst
      rw [rowBlob, rowPayload]
      split
      · rw [objectBlob, objectPayload, Option.map_map]
        rfl
      · split
        · rw [partBlob, partPayload, Option.map_map]
          rfl
        · rfl

end Rows

section Decoding

variable {key stored : Bytes} {rows : Rows}

theorem objectPayload_of_decodeObject {object : ObjectRecord}
    (h : decodeObject key stored = .ok object) :
    objectPayload stored = some (object.blobId.items, object.size) := by
  have hfields : decodeObjectFields key =
      (fun read : ObjectRecord => { read with key := key }) <$> decodeObjectFields [] := by
    simp [decodeObjectFields]
  rw [decodeObject, hfields, runOn_map] at h
  rw [objectPayload, decodeObject]
  cases hread : runOn (decodeObjectFields []) stored with
  | error error => simp [hread, Except.map] at h
  | ok read =>
      simp only [hread, Except.map, Except.ok.injEq] at h
      rw [← h]
      rfl

theorem partPayload_of_decodePart {number : UInt32} {part : PartRecord}
    (h : decodePart number stored = .ok part) :
    partPayload stored = some (part.blobId.items, part.size) := by
  have hfields : decodePartFields number =
      (fun read : PartRecord => { read with partNumber := number }) <$> decodePartFields 0 := by
    simp [decodePartFields]
  rw [decodePart, hfields, runOn_map] at h
  rw [partPayload, decodePart]
  cases hread : runOn (decodePartFields 0) stored with
  | error error => simp [hread, Except.map] at h
  | ok read =>
      simp only [hread, Except.map, Except.ok.injEq] at h
      rw [← h]
      rfl

theorem rowPayload_object (bucket objectKey : Bytes) :
    rowPayload (Keys.object bucket objectKey) stored = objectPayload stored := if_pos rfl

theorem rowPayload_encodeObject (bucket objectKey : Bytes) (object : ObjectRecord) :
    rowPayload (Keys.object bucket objectKey) (encodeObject object) =
      some (object.blobId.items, object.size) := by
  rw [rowPayload_object]
  exact objectPayload_of_decodeObject (decodeObject_encodeObject object)

theorem rowPayload_encodePart (uploadId : Bytes) (number : UInt32) (part : PartRecord) :
    rowPayload (Keys.part uploadId number) (encodePart part) =
      some (part.blobId.items, part.size) := by
  have hkind : (Keys.part uploadId number).head? = some Keys.kPart := rfl
  rw [rowPayload, hkind, if_neg (by decide), if_pos rfl]
  exact partPayload_of_decodePart (decodePart_encodePart part)

theorem rowPayload_of_head? {tag : UInt8} (hkey : key.head? = some tag)
    (hobject : tag ≠ Keys.kObject) (hpart : tag ≠ Keys.kPart) : rowPayload key stored = none := by
  rw [rowPayload, hkey, if_neg fun h => hobject (Option.some.inj h),
    if_neg fun h => hpart (Option.some.inj h)]

theorem payloadAt_of_getObject {bucket objectKey : Bytes} {object : ObjectRecord}
    (h : getObject rows bucket objectKey = .ok (some object)) :
    rows.payloadAt (Keys.object bucket objectKey) = some (object.blobId.items, object.size) := by
  obtain ⟨stored, hfind, hdecode⟩ := decode_of_readRow h
  rw [Rows.payloadAt, hfind, Option.bind_some, rowPayload_object]
  exact objectPayload_of_decodeObject hdecode

end Decoding

/-! ### What a store call carries -/

namespace StoreCalls

/-- The row a commit puts. -/
def Commit.row : Commit → Option (Bytes × Bytes)
  | putObject bucket object _ | completeUpload bucket _ object _ _ =>
    some (Keys.object bucket object.key, encodeObject object)
  | putPart uploadId part _ => some (Keys.part uploadId part.partNumber, encodePart part)
  | deleteObject .. | abortUpload .. => none

def Commit.payload : Commit → Option (Bytes × UInt64)
  | putObject _ object _ | completeUpload _ _ object _ _ =>
    some (object.blobId.items, object.size)
  | putPart _ part _ => some (part.blobId.items, part.size)
  | deleteObject .. | abortUpload .. => none

def Phase.payload : Phase → Option (Bytes × UInt64)
  | .putRequire _ object | .putLock _ object | .putLoad _ object
  | .completeRequire _ _ object | .completeFind _ _ object | .completeLock _ _ object
  | .completeLoad _ _ object | .completeCollect _ _ object _ =>
    some (object.blobId.items, object.size)
  | .partLock _ part | .partFind _ part | .partLoad _ part => some (part.blobId.items, part.size)
  | .write commit => commit.payload
  | _ => none

theorem payload_of_move {rows : Rows} {phase next : Phase} {effect : Effect}
    (hmove : Move rows phase effect next) : next.payload = phase.payload ∨ next.payload = none := by
  cases hmove <;> first | exact Or.inl rfl | exact Or.inr rfl

/-- Besides the row it publishes a commit puts markers. -/
theorem put_of_commit {commit : Commit} {now : TimestampMs} {key value : Bytes}
    (hput : RowOp.put key value ∈ commit.batch now) :
    commit.row = some (key, value) ∨ ∃ blobId, key = Keys.orphan blobId ∧ value = encodeOrphan now := by
  have hpublish : ∀ {storedKey stored blobId : Bytes} {released : Option Bytes},
      RowOp.put key value ∈ publishBatch storedKey stored blobId released now →
      (storedKey = key ∧ stored = value) ∨
        ∃ blobId, key = Keys.orphan blobId ∧ value = encodeOrphan now := by
    intro storedKey stored blobId released hput
    simp only [publishBatch, List.mem_append, List.mem_cons, List.mem_map, RowOp.put.injEq,
      reduceCtorEq, List.not_mem_nil, or_false] at hput
    rcases hput with ⟨rfl, rfl⟩ | ⟨blobId, -, hmarker⟩
    · exact Or.inl ⟨rfl, rfl⟩
    · obtain ⟨rfl, rfl⟩ := RowOp.put.inj hmarker
      exact Or.inr ⟨blobId, rfl, rfl⟩
  have hending : ∀ {upload : UploadRecord} {parts : List PartRecord},
      RowOp.put key value ∈ releasePartsBatch upload.uploadId parts now ++ dropUploadBatch upload →
      ∃ blobId, key = Keys.orphan blobId ∧ value = encodeOrphan now := by
    intro upload parts hput
    rcases List.mem_append.mp hput with hparts | hdrop
    · obtain ⟨part, -, hpart⟩ := List.mem_flatMap.mp hparts
      simp only [orphanRow, List.mem_cons, reduceCtorEq, RowOp.put.injEq, List.not_mem_nil,
        or_false, false_or] at hpart
      exact ⟨_, hpart⟩
    · simp [dropUploadBatch] at hdrop
  have hrow : ∀ {storedKey stored : Bytes}, storedKey = key ∧ stored = value →
      some (storedKey, stored) = some (key, value) := by
    rintro storedKey stored ⟨rfl, rfl⟩
    rfl
  cases commit with
  | putObject bucket object previous => exact (hpublish hput).imp hrow id
  | deleteObject bucket objectKey existing =>
      rcases List.mem_cons.mp hput with hdelete | hmark
      · cases hdelete
      · obtain ⟨rfl, rfl⟩ := RowOp.put.inj (List.mem_singleton.mp hmark)
        exact Or.inr ⟨_, rfl, rfl⟩
  | putPart uploadId part previous => exact (hpublish hput).imp hrow id
  | abortUpload upload parts => exact Or.inr (hending hput)
  | completeUpload bucket upload object previous parts =>
      have hput : RowOp.put key value ∈ putObjectBatch bucket object previous now ++
        releasePartsBatch upload.uploadId parts now ++ dropUploadBatch upload := hput
      rw [List.append_assoc] at hput
      rcases List.mem_append.mp hput with hobject | hrest
      · exact (hpublish hobject).imp hrow id
      · exact Or.inr (hending hrest)

/-- The row a commit puts is one the server writes, and names the payload. -/
theorem written_of_row {commit : Commit} {key value : Bytes} (h : commit.row = some (key, value)) :
    Written (fun _ => True) key value ∧ rowPayload key value = commit.payload := by
  cases commit with
  | putObject bucket object previous =>
      obtain ⟨rfl, rfl⟩ := Prod.mk.inj (Option.some.inj h)
      exact ⟨.object bucket object, rowPayload_encodeObject bucket object.key object⟩
  | putPart uploadId part previous =>
      obtain ⟨rfl, rfl⟩ := Prod.mk.inj (Option.some.inj h)
      exact ⟨.part uploadId part, rowPayload_encodePart uploadId part.partNumber part⟩
  | completeUpload bucket upload object previous parts =>
      obtain ⟨rfl, rfl⟩ := Prod.mk.inj (Option.some.inj h)
      exact ⟨.object bucket object, rowPayload_encodeObject bucket object.key object⟩
  | _ => cases h

end StoreCalls

namespace EngineCalls

open StoreCalls (Commit)

/-! ### What every file holds -/

/-- The file was linked in with as many bytes. -/
def Sized (written : OrderedMap Bytes Bytes) (blobId : Bytes) (size : UInt64) : Prop :=
  ∃ body, written.find? blobId = some body ∧ size = body.length.toUInt64

/-- A write not yet linked in has the size of its bytes; one that assembles parts
will have. -/
def Write.Fits (body : Bytes) : Write → Prop
  | .completion .. => True
  | write => write.size = body.length.toUInt64

def Phase.Carries (written : OrderedMap Bytes Bytes) : Phase → Prop
  | .reserve _ _ write body | .track _ write body => write.Fits body
  | .partFind _ _ part body | .partFindAgain _ _ part body | .partList _ _ part body =>
    part.size = body.length.toUInt64
  | .rename _ _ write body => write.size = body.length.toUInt64
  | .extend _ _ write => Sized written write.blobId write.size
  | .store _ _ call => ∀ pair ∈ call.payload, Sized written pair.1 pair.2
  | _ => True

/-- The payload a call has marked and not linked into the tree. -/
def Phase.unlinked : Phase → Option Bytes
  | .partFind _ _ part _ | .partFindAgain _ _ part _ | .partList _ _ part _ =>
    some part.blobId.items
  | .append _ _ _ object _ => some object.blobId.items
  | .rename _ _ write _ => some write.blobId
  | _ => none

/-- A row the server writes, recording the size of the file it names. -/
def Filed.Row (written : OrderedMap Bytes Bytes) (key stored : Bytes) : Prop :=
  Written (fun _ => True) key stored ∧
    ∀ pair ∈ rowPayload key stored, Sized written pair.1 pair.2

structure Filed {ι : Type} (state : State ι) : Prop where
  rows : state.rows.Holds (Filed.Row state.shared.written)
  files : ∀ {blobId body}, state.shared.tree.find? blobId = some body →
    state.shared.written.find? blobId = some body
  known : ∀ {blobId}, state.shared.written.find? blobId ≠ none → state.custody.issued blobId
  unlinked : ∀ {who blobId}, (state.calls who).unlinked = some blobId →
    state.shared.written.find? blobId = none
  carried : ∀ who, (state.calls who).Carries state.shared.written

section Moves

variable {ι : Type} {config : Config} {state next : State ι} {label : Label ι} {shared : Shared ι}
  {now : TimestampMs} {phase after : Phase} {effect : Effect} {written grown : OrderedMap Bytes Bytes}

theorem Sized.mono (hgrown : ∀ {blobId body}, written.find? blobId = some body →
    grown.find? blobId = some body) {blobId : Bytes} {size : UInt64} (h : Sized written blobId size) :
    Sized grown blobId size := by
  obtain ⟨body, hbody, hsize⟩ := h
  exact ⟨body, hgrown hbody, hsize⟩

theorem Phase.Carries.mono (hgrown : ∀ {blobId body}, written.find? blobId = some body →
    grown.find? blobId = some body) (h : phase.Carries written) : phase.Carries grown := by
  cases phase with
  | extend bucket reservation write => exact Sized.mono hgrown h
  | store bucket reservation call => exact fun pair hpair => (h pair hpair).mono hgrown
  | _ => exact h

theorem carries_begin (write : Write) (h : Sized written write.blobId write.size) :
    ∀ pair ∈ (StoreCalls.begin write.operation).payload, Sized written pair.1 pair.2 := by
  intro pair hpair
  cases write with
  | part uploadId part =>
      have hpair : pair ∈ (StoreCalls.begin (.putPart uploadId part)).payload := hpair
      rw [StoreCalls.begin] at hpair
      split at hpair
      · cases hpair
      · obtain rfl := Option.some.inj hpair
        exact h
  | object bucket object =>
      obtain rfl := Option.some.inj hpair
      exact h
  | completion upload parts object =>
      obtain rfl := Option.some.inj hpair
      exact h

theorem carries_of_move (hmove : Move config shared now phase effect after)
    (h : phase.Carries written)
    (hgrown : ∀ {blobId body}, written.find? blobId = some body → grown.find? blobId = some body)
    (hlinked : ∀ {blobId body}, effect = .rename blobId body → grown.find? blobId = some body) :
    after.Carries grown := by
  cases hmove with
  | reserve hreserve => exact h
  | @track reservation write body hnew =>
      cases write with
      | completion upload parts object => trivial
      | _ => exact h
  | partFind hload => exact h
  | partFindAgain => exact h
  | partList => exact h
  | completeList => trivial
  | appended => rfl
  | @rename bucket reservation write body =>
      have hsized : Sized grown write.blobId write.size := ⟨body, hlinked rfl, h⟩
      cases write with
      | completion upload parts object => exact carries_begin _ hsized
      | _ => exact hsized
  | extend hextend => exact carries_begin _ (Sized.mono hgrown h)
  | store hinner hfree =>
      intro pair hpair
      rcases StoreCalls.payload_of_move hinner with hsame | hnone
      · exact (h pair (hsame ▸ hpair)).mono hgrown
      · rw [hnone] at hpair
        cases hpair
  | _ => trivial

theorem unlinked_of_move (hmove : Move config shared now phase effect after) {blobId : Bytes}
    (h : after.unlinked = some blobId) :
    (phase.unlinked = some blobId ∧ ∀ body, effect ≠ .rename blobId body) ∨
      (effect = .track blobId ∧ shared.tracked.find? blobId = none) := by
  have hquiet : ∀ body, Effect.nothing ≠ .rename blobId body := fun _ h => by cases h
  cases hmove with
  | @track reservation write body hnew =>
      have hwrite : write.blobId = blobId := by cases write <;> exact Option.some.inj h
      subst hwrite
      exact Or.inr ⟨rfl, hnew⟩
  | partFind hload => exact Or.inl ⟨h, hquiet⟩
  | partFindAgain => exact Or.inl ⟨h, hquiet⟩
  | partList => exact Or.inl ⟨h, hquiet⟩
  | append hfind => exact Or.inl ⟨h, hquiet⟩
  | appended => exact Or.inl ⟨h, hquiet⟩
  | @rename bucket reservation write body => cases write <;> cases h
  | _ => cases h

theorem brings_of_unlinked {blobId : Bytes} (h : phase.unlinked = some blobId) :
    phase.brings = some blobId := by
  cases phase <;> first | exact h | cases h

/-- A file is linked in by the call that brings it. -/
theorem unlinked_of_rename (hmove : Move config shared now phase effect after) {blobId body : Bytes}
    (heffect : effect = .rename blobId body) : phase.unlinked = some blobId := by
  cases hmove with
  | rename =>
      obtain ⟨rfl, -⟩ := Effect.rename.inj heffect
      rfl
  | _ => cases heffect

theorem written_apply (who : ι) (blobId : Bytes) :
    (effect.apply config who now shared).written.find? blobId =
      match effect with
      | .rename other body => if blobId = other then some body else shared.written.find? blobId
      | _ => shared.written.find? blobId := by
  cases effect with
  | rename other body =>
      show (shared.written.insert other body).find? blobId = _
      by_cases h : blobId = other <;> simp [OrderedMap.find?_insert, h]
  | _ => rfl

/-- No step changes what a file was linked in with. -/
theorem Filed.written_take (h : Filed state) {who : ι}
    (hmove : Move config state.shared now (state.calls who) effect after) {blobId body : Bytes}
    (hwritten : state.shared.written.find? blobId = some body) :
    (effect.apply config who now state.shared).written.find? blobId = some body := by
  rw [written_apply]
  cases effect with
  | rename other content =>
      dsimp only
      split
      · rename_i hsame
        subst hsame
        rw [h.unlinked (unlinked_of_rename hmove rfl)] at hwritten
        cases hwritten
      · exact hwritten
  | _ => exact hwritten

theorem filed_row_marker (written : OrderedMap Bytes Bytes) (blobId : Bytes) (now : TimestampMs) :
    Filed.Row written (Keys.orphan blobId) (encodeOrphan now) := by
  refine ⟨.orphan blobId now, fun pair hpair => ?_⟩
  rw [rowPayload_of_head? (rfl : (Keys.orphan blobId).head? = some Keys.kOrphan) (by decide)
    (by decide)] at hpair
  cases hpair

/-- The rows a step leaves are of the same kind. -/
theorem Filed.rows_take (h : Filed state) {who : ι}
    (hmove : Move config state.shared now (state.calls who) effect after) :
    (effect.apply config who now state.shared).rows.Holds (Filed.Row state.shared.written) := by
  cases effect with
  | track blobId =>
      refine h.rows.write fun key value hput => ?_
      obtain ⟨rfl, rfl⟩ := RowOp.put.inj (List.mem_singleton.mp hput)
      exact filed_row_marker ..
  | forget blobIds =>
      show (forgetOrphans state.shared.store.store blobIds).rows.Holds _
      rw [rows_forgetOrphans]
      exact h.rows.write (by simp)
  | store inner =>
      cases inner with
      | write commit =>
          have hcarried := h.carried who
          obtain ⟨bucket, reservation, hphase, -⟩ := phase_of_write hmove rfl
          rw [hphase] at hcarried
          refine h.rows.write fun key value hput => ?_
          rcases StoreCalls.put_of_commit hput with hrow | ⟨blobId, rfl, rfl⟩
          · obtain ⟨hwritten, hpayload⟩ := StoreCalls.written_of_row hrow
            refine ⟨hwritten, ?_⟩
            rw [hpayload]
            exact hcarried
          · exact filed_row_marker ..
      | _ => exact h.rows
  | _ => exact h.rows

theorem Filed.Row.mono (hgrown : ∀ {blobId body}, written.find? blobId = some body →
    grown.find? blobId = some body) {key stored : Bytes} (h : Filed.Row written key stored) :
    Filed.Row grown key stored :=
  ⟨h.1, fun pair hpair => (h.2 pair hpair).mono hgrown⟩

theorem Filed.other_row {key stored : Bytes} {tag : UInt8}
    (hwritten : Written (fun _ => True) key stored) (hkey : key.head? = some tag)
    (hobject : tag ≠ Keys.kObject) (hpart : tag ≠ Keys.kPart) : Filed.Row written key stored := by
  refine ⟨hwritten, fun pair hpair => ?_⟩
  rw [rowPayload_of_head? hkey hobject hpart] at hpair
  cases hpair

variable [DecidableEq ι] {who : ι}

theorem Filed.move (h : Filed state) (hsound : state.custody.Sound)
    (hmove : Move config state.shared now (state.calls who) effect after) :
    Filed (state.take config who now (effect, after)) where
  rows key stored hfind := (h.rows_take hmove key stored hfind).mono (h.written_take hmove)
  files := by
    intro blobId body hbody
    rw [shared_take, tree_apply] at hbody
    cases effect with
    | rename other content =>
        rw [shared_take, written_apply]
        dsimp only at hbody ⊢
        split
        · rename_i hsame
          rwa [if_pos hsame] at hbody
        · rename_i hother
          rw [if_neg hother] at hbody
          exact h.files hbody
    | unlink other =>
        dsimp only at hbody
        split at hbody
        · cases hbody
        · exact h.files hbody
    | _ => exact h.files hbody
  known := by
    intro blobId hwritten
    rw [shared_take, written_apply] at hwritten
    refine (issued_apply ?_ : (effect.apply config who now state.shared).tracked.find? blobId ≠ none)
    cases effect with
    | rename other content =>
        dsimp only at hwritten
        split at hwritten
        · rename_i hsame
          subst hsame
          have hbrings : state.custody.bringing who = some blobId :=
            brings_of_unlinked (unlinked_of_rename hmove rfl)
          exact hsound.brought hbrings
        · exact h.known hwritten
    | _ => exact h.known hwritten
  unlinked := by
    intro caller blobId hunlinked
    rw [shared_take, written_apply]
    have hbefore : (∃ bringer, (state.calls bringer).unlinked = some blobId ∧
        (bringer = who → ∀ body, effect ≠ .rename blobId body)) ∨
          (effect = .track blobId ∧ state.shared.tracked.find? blobId = none) := by
      revert hunlinked
      refine forall_take (P := fun _ held => held.unlinked = some blobId → _)
        (fun hunlinked => ?_) (fun other hother hunlinked => ?_) caller
      · exact (unlinked_of_move hmove hunlinked).imp (fun hold => ⟨who, hold.1, fun _ => hold.2⟩) id
      · exact Or.inl ⟨other, hunlinked, fun hsame => absurd hsame hother⟩
    rcases hbefore with ⟨bringer, hbringer, hself⟩ | ⟨rfl, hnew⟩
    · cases effect with
      | rename other content =>
          dsimp only
          split
          · rename_i hsame
            subst hsame
            -- Only the one that brings it links it in.
            have hmover : state.custody.bringing who = some blobId :=
              brings_of_unlinked (unlinked_of_rename hmove rfl)
            have hother : state.custody.bringing bringer = some blobId :=
              brings_of_unlinked hbringer
            exact absurd rfl (hself (hsound.distinct hother hmover) content)
          · exact h.unlinked hbringer
      | _ => exact h.unlinked hbringer
    · by_contra hwritten
      exact h.known hwritten hnew
  carried := by
    refine forall_take (P := fun _ held =>
      held.Carries (effect.apply config who now state.shared).written) ?_ fun other _ => ?_
    · refine carries_of_move hmove (h.carried who) (h.written_take hmove) ?_
      rintro blobId body rfl
      rw [written_apply]
      dsimp only
      rw [if_pos rfl]
    · exact (h.carried other).mono (h.written_take hmove)

/-- What a file was linked in with stays what it was linked in with. -/
theorem Filed.written_step (h : Filed state) (hstep : step config state label = some next)
    {blobId body : Bytes} (hwritten : state.shared.written.find? blobId = some body) :
    next.shared.written.find? blobId = some body := by
  rcases quiet_or_move (turn_of_step hstep) with hquiet | ⟨mover, effect, phase, -, hmove, -, rfl⟩
  · rw [hquiet.written]
    exact hwritten
  · exact h.written_take hmove hwritten

theorem Filed.step (h : Filed state) (hsound : state.custody.Sound)
    (hstep : step config state label = some next) : Filed next := by
  cases turn_of_step hstep with
  | @createBucket name quotaBytes created bucket store quotas hstore =>
      refine
        { rows := ?_, files := h.files, known := h.known, unlinked := h.unlinked,
          carried := h.carried }
      show store.rows.Holds _
      rw [StorageEngine.createBucket_ok hstore]
      refine h.rows.write fun key value hput => ?_
      obtain ⟨rfl, rfl⟩ := RowOp.put.inj (List.mem_singleton.mp hput)
      exact Filed.other_row (.bucket bucket trivial) rfl (by decide) (by decide)
  | @createUpload upload store hnew hstore =>
      refine
        { rows := ?_, files := h.files, known := h.known, unlinked := h.unlinked,
          carried := h.carried }
      show store.rows.Holds _
      rw [createUpload_ok hstore]
      refine h.rows.write fun key value hput => ?_
      rcases List.mem_cons.mp hput with hid | hkey
      · obtain ⟨rfl, rfl⟩ := RowOp.put.inj hid
        exact Filed.other_row (.uploadById upload) rfl (by decide) (by decide)
      · obtain ⟨rfl, rfl⟩ := RowOp.put.inj (List.mem_singleton.mp hkey)
        exact Filed.other_row (.uploadByKey ..) rfl (by decide) (by decide)
  | @start starter request hidle =>
      refine
        { rows := h.rows, files := h.files, known := ?_, unlinked := ?_, carried := ?_ }
      · intro blobId hwritten
        exact h.known hwritten
      · intro caller blobId
        refine (Pool.forall_move (P := fun _ (held : Phase) => held.unlinked = some blobId →
          state.shared.written.find? blobId = none) ..).mpr ⟨fun hbegun => ?_, fun other _ => ?_⟩ caller
        · cases request <;> cases hbegun
        · exact h.unlinked
      · refine (Pool.forall_move (P := fun _ (held : Phase) => held.Carries state.shared.written) ..).mpr
          ⟨?_, fun other _ => h.carried other⟩
        cases request with
        | deleteObject bucket key => exact fun pair hpair => nomatch hpair
        | abortUpload uploadId => exact fun pair hpair => nomatch hpair
        | putObject bucket object body declared => rfl
        | putPart bucket uploadId part body declared => rfl
        | _ => trivial
  | move hwho hmove hremoves => exact h.move hsound hmove

omit [DecidableEq ι] in
theorem filed_emptyStart : Filed (emptyStart : State ι) where
  rows := .empty
  files := fun h => nomatch h
  known := fun h => absurd rfl h
  unlinked := fun h => nomatch h
  carried := fun _ => trivial

end Moves

/-! ### Everything a timely run keeps -/

structure InOrder {ι : Type} (config : Config) (state : State ι) : Prop where
  kept : Kept state
  timed : Timed config state
  filed : Filed state

theorem InOrder.step {ι : Type} [DecidableEq ι] {config : Config} {state next : State ι}
    {label : Label ι} (h : InOrder config state) (htimely : Timely config state label)
    (hstep : EngineCalls.step config state label = some next) : InOrder config next where
  kept := h.kept.step (h.timed.safe htimely) hstep
  timed := h.timed.step h.kept htimely hstep
  filed := h.filed.step h.kept.sound hstep

theorem inOrder_emptyStart {ι : Type} {config : Config} :
    InOrder config (emptyStart : State ι) :=
  ⟨kept_emptyStart, timed_emptyStart, filed_emptyStart⟩

end EngineCalls

end MonoBucket

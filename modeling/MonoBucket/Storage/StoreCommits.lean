/-
What a commit does to the rows

Every mutation's batch puts one payload in a row or none, and clears the rows of
the payloads it releases; a released payload is marked, the one put in a row is
not. What a call brings and what it has read so far say which payloads these are.
-/

import MonoBucket.Storage.StoreCalls

namespace MonoBucket.StoreCalls

open Codec

/-! ### What a commit names and releases -/

namespace Commit

/-- The row a commit puts its payload in. -/
def published : Commit → Option (Bytes × Bytes)
  | putObject bucket object _ | completeUpload bucket _ object _ _ =>
    some (Keys.object bucket object.key, object.blobId.items)
  | putPart uploadId part _ => some (Keys.part uploadId part.partNumber, part.blobId.items)
  | deleteObject .. | abortUpload .. => none

def replacedObject (bucket key : Bytes) (previous : Option ObjectRecord) : List (Bytes × Bytes) :=
  previous.toList.map fun object => (Keys.object bucket key, object.blobId.items)

def releasedParts (uploadId : Bytes) (parts : List PartRecord) : List (Bytes × Bytes) :=
  parts.map fun part => (Keys.part uploadId part.partNumber, part.blobId.items)

/-- The rows whose payloads a commit releases, as it read them. -/
def released : Commit → List (Bytes × Bytes)
  | putObject bucket object previous => replacedObject bucket object.key previous
  | deleteObject bucket key existing => [(Keys.object bucket key, existing.blobId.items)]
  | putPart uploadId part previous =>
    previous.toList.map fun old => (Keys.part uploadId part.partNumber, old.blobId.items)
  | abortUpload upload parts => releasedParts upload.uploadId parts
  | completeUpload bucket upload object previous parts =>
    replacedObject bucket object.key previous ++ releasedParts upload.uploadId parts

/-- The upload a commit ends. -/
def ends : Commit → Option UploadRecord
  | abortUpload upload _ | completeUpload _ upload _ _ _ => some upload
  | _ => none

/-- What a commit makes of the names. -/
def blobAfter (commit : Commit) (before : Bytes → Option Bytes) (key : Bytes) : Option Bytes :=
  if commit.published.map Prod.fst = some key then commit.published.map Prod.snd
  else if key ∈ commit.released.map Prod.fst then none
  else before key

/-- What a row names after a commit was put there, or it was there and not
released. -/
theorem blobAfter_cases {commit : Commit} {before : Bytes → Option Bytes} {key blobId : Bytes}
    (h : commit.blobAfter before key = some blobId) :
    commit.published = some (key, blobId) ∨
      (key ∉ commit.released.map Prod.fst ∧ before key = some blobId) := by
  rw [blobAfter] at h
  split at h
  · rename_i hkey
    obtain ⟨⟨storedKey, put⟩, hpair, rfl⟩ := Option.map_eq_some_iff.mp hkey
    rw [hpair] at h
    obtain rfl := Option.some.inj h
    exact Or.inl hpair
  · split at h
    · cases h
    · rename_i hkept
      exact Or.inr ⟨hkept, h⟩

/-- A released row is cleared, or holds what is put there instead. -/
theorem blobAfter_ne_of_released {commit : Commit} {before : Bytes → Option Bytes}
    {key blobId : Bytes} (hreleased : (key, blobId) ∈ commit.released)
    (hput : commit.published.map Prod.snd ≠ some blobId) :
    commit.blobAfter before key ≠ some blobId := by
  rw [blobAfter]
  split
  · exact hput
  · rw [if_pos (List.mem_map.mpr ⟨_, hreleased, rfl⟩)]
    exact nofun

end Commit

section Batches

variable {rows : Rows} {key : Bytes} {now : TimestampMs}

theorem blobAt_dropUploadBatch (upload : UploadRecord) :
    (rows.write (dropUploadBatch upload)).blobAt = rows.blobAt := by
  refine blobAt_write_of_tags fun op hop => ?_
  rcases List.mem_cons.mp hop with rfl | hlast
  · exact ⟨_, rfl, by decide, by decide⟩
  · obtain rfl := List.mem_singleton.mp hlast
    exact ⟨_, rfl, by decide, by decide⟩

theorem queuedAt_dropUploadBatch (upload : UploadRecord) :
    (rows.write (dropUploadBatch upload)).queuedAt = rows.queuedAt := by
  refine queuedAt_write_of_tags fun op hop => ?_
  rcases List.mem_cons.mp hop with rfl | hlast
  · exact (by decide : some Keys.kUploadById ≠ some Keys.kOrphan)
  · obtain rfl := List.mem_singleton.mp hlast
    exact (by decide : some Keys.kUploadByKey ≠ some Keys.kOrphan)

theorem mem_releasedParts {uploadId : Bytes} {parts : List PartRecord} :
    key ∈ (Commit.releasedParts uploadId parts).map Prod.fst ↔
      key ∈ parts.map fun part => Keys.part uploadId part.partNumber := by
  rw [Commit.releasedParts, List.map_map]
  rfl

theorem blobs_releasedParts (uploadId : Bytes) (parts : List PartRecord) :
    (Commit.releasedParts uploadId parts).map Prod.snd = partBlobIds parts := by
  rw [Commit.releasedParts, List.map_map]
  rfl

theorem part_ne_object (uploadId bucket objectKey : Bytes) (number : UInt32) :
    Keys.part uploadId number ≠ Keys.object bucket objectKey := by
  intro h
  have hhead := congrArg List.head? h
  exact absurd hhead (by decide : some Keys.kPart ≠ some Keys.kObject)

theorem object_ne_orphan (bucket objectKey : Bytes) :
    (Keys.object bucket objectKey).head? ≠ some Keys.kOrphan :=
  (by decide : some Keys.kObject ≠ some Keys.kOrphan)

theorem part_ne_orphan (uploadId : Bytes) (number : UInt32) :
    (Keys.part uploadId number).head? ≠ some Keys.kOrphan :=
  (by decide : some Keys.kPart ≠ some Keys.kOrphan)

theorem object_not_mem_releasedParts {uploadId bucket objectKey : Bytes} {parts : List PartRecord} :
    Keys.object bucket objectKey ∉
      (Commit.releasedParts uploadId parts).map Prod.fst := by
  rw [mem_releasedParts]
  rintro hmem
  obtain ⟨part, -, hkey⟩ := List.mem_map.mp hmem
  exact part_ne_object _ _ _ _ hkey

/-- A row written over takes what was cleared of it along. -/
theorem update_eq_ite {before : Bytes → Option Bytes} {storedKey : Bytes} {blobId : Option Bytes}
    (cleared : List Bytes) (h : ∀ other ∈ cleared, other = storedKey) (key : Bytes) :
    Function.update before storedKey blobId key =
      if some storedKey = some key then blobId
      else if key ∈ cleared then none
      else before key := by
  by_cases hkey : key = storedKey
  · rw [hkey, Function.update_self, if_pos rfl]
  · rw [Function.update_of_ne hkey, if_neg fun hsame => hkey (Option.some.inj hsame).symm,
      if_neg fun hmem => hkey (h key hmem)]

theorem eq_of_mem_replacedObject {bucket objectKey : Bytes} {previous : Option ObjectRecord} :
    ∀ other ∈ (Commit.replacedObject bucket objectKey previous).map Prod.fst,
      other = Keys.object bucket objectKey := by
  intro other hother
  obtain ⟨pair, hpair, rfl⟩ := List.mem_map.mp hother
  obtain ⟨object, -, rfl⟩ := List.mem_map.mp hpair
  rfl

theorem blobAt_putObjectBatch (bucket : Bytes) (object : ObjectRecord)
    (previous : Option ObjectRecord) :
    (rows.write (putObjectBatch bucket object previous now)).blobAt =
      Function.update rows.blobAt (Keys.object bucket object.key) (some object.blobId.items) :=
  blobAt_publishBatch (rowBlob_encodeObject bucket object.key object)

theorem blobAt_endingBatch (upload : UploadRecord) (parts : List PartRecord) (key : Bytes) :
    (rows.write (releasePartsBatch upload.uploadId parts now ++ dropUploadBatch upload)).blobAt key =
      if key ∈ (Commit.releasedParts upload.uploadId parts).map Prod.fst then none
      else rows.blobAt key := by
  rw [Rows.write_append, blobAt_dropUploadBatch, blobAt_releasePartsBatch]
  exact if_congr mem_releasedParts.symm rfl rfl

/-- Only the published row and the released ones change what they name. -/
theorem blobAt_commit (commit : Commit) (key : Bytes) :
    (rows.write (commit.batch now)).blobAt key = commit.blobAfter rows.blobAt key := by
  cases commit with
  | putObject bucket object previous =>
      show (rows.write (putObjectBatch bucket object previous now)).blobAt key = _
      rw [blobAt_putObjectBatch]
      exact update_eq_ite _ eq_of_mem_replacedObject key
  | deleteObject bucket objectKey existing =>
      show ((rows.apply (.delete (Keys.object bucket objectKey))).apply
        (orphanRow existing.blobId.items now)).blobAt key = _
      rw [blobAt_orphanRow, blobAt_delete]
      by_cases hkey : key = Keys.object bucket objectKey
      · rw [hkey, Function.update_self]
        exact (if_pos (List.mem_singleton_self _)).symm
      · rw [Function.update_of_ne hkey]
        exact (if_neg fun hmem => hkey (List.mem_singleton.mp hmem)).symm
  | putPart uploadId part previous =>
      show (rows.write (publishBatch (Keys.part uploadId part.partNumber) (encodePart part)
        part.blobId.items (PutOutcome.ofPart previous).releasedBlobId now)).blobAt key = _
      rw [blobAt_publishBatch (rowBlob_encodePart uploadId part.partNumber part)]
      refine update_eq_ite _ (fun other hother => ?_) key
      obtain ⟨pair, hpair, rfl⟩ := List.mem_map.mp hother
      obtain ⟨old, -, rfl⟩ := List.mem_map.mp hpair
      rfl
  | abortUpload upload parts => exact blobAt_endingBatch upload parts key
  | completeUpload bucket upload object previous parts =>
      show (rows.write (putObjectBatch bucket object previous now ++
        releasePartsBatch upload.uploadId parts now ++ dropUploadBatch upload)).blobAt key = _
      rw [List.append_assoc, Rows.write_append, blobAt_endingBatch, blobAt_putObjectBatch,
        update_eq_ite ((Commit.replacedObject bucket object.key previous).map Prod.fst)
          eq_of_mem_replacedObject key]
      show _ = if some (Keys.object bucket object.key) = some key then some object.blobId.items
        else if key ∈ (Commit.replacedObject bucket object.key previous ++
          Commit.releasedParts upload.uploadId parts).map Prod.fst then none
        else rows.blobAt key
      by_cases hkey : some (Keys.object bucket object.key) = some key
      · obtain rfl := Option.some.inj hkey
        rw [if_neg object_not_mem_releasedParts, if_pos rfl, if_pos rfl]
      · rw [if_neg hkey, if_neg hkey, List.map_append]
        by_cases hparts : key ∈ (Commit.releasedParts upload.uploadId parts).map Prod.fst
        · rw [if_pos hparts, if_pos (List.mem_append_right _ hparts)]
        · rw [if_neg hparts]
          refine if_congr ?_ rfl rfl
          exact ⟨List.mem_append_left _, fun hmem => (List.mem_append.mp hmem).resolve_right hparts⟩

theorem queuedAt_putObjectBatch (bucket : Bytes) (object : ObjectRecord)
    (previous : Option ObjectRecord) (blobId : Bytes) :
    (rows.write (putObjectBatch bucket object previous now)).queuedAt blobId =
      if blobId ∈ (Commit.replacedObject bucket object.key previous).map Prod.snd then some now
      else if some object.blobId.items = some blobId then none
      else rows.queuedAt blobId := by
  rw [putObjectBatch, queuedAt_publishBatch (object_ne_orphan _ _)]
  refine if_congr ?_ rfl (if_congr ?_ rfl rfl)
  · cases previous <;> simp [PutOutcome.ofObject, Commit.replacedObject, eq_comm]
  · rw [Option.some.injEq, eq_comm]

theorem queuedAt_endingBatch (upload : UploadRecord) (parts : List PartRecord) (blobId : Bytes) :
    (rows.write (releasePartsBatch upload.uploadId parts now ++ dropUploadBatch upload)).queuedAt
        blobId =
      if blobId ∈ partBlobIds parts then some now else rows.queuedAt blobId := by
  rw [Rows.write_append, queuedAt_dropUploadBatch, queuedAt_releasePartsBatch]

/-- What is released is marked, what is published is not. -/
theorem queuedAt_commit (commit : Commit) (blobId : Bytes) :
    (rows.write (commit.batch now)).queuedAt blobId =
      if blobId ∈ commit.released.map Prod.snd then some now
      else if commit.published.map Prod.snd = some blobId then none
      else rows.queuedAt blobId := by
  cases commit with
  | putObject bucket object previous => exact queuedAt_putObjectBatch bucket object previous blobId
  | deleteObject bucket objectKey existing =>
      show ((rows.apply (.delete (Keys.object bucket objectKey))).apply
        (orphanRow existing.blobId.items now)).queuedAt blobId = _
      have hkey : (RowOp.delete (Keys.object bucket objectKey)).key.head? ≠ some Keys.kOrphan :=
        object_ne_orphan _ _
      rw [queuedAt_put_orphan, queuedAt_apply_of_tag hkey]
      exact if_congr List.mem_singleton.symm rfl (if_neg (by simp [Commit.published])).symm
  | putPart uploadId part previous =>
      show (rows.write (publishBatch (Keys.part uploadId part.partNumber) (encodePart part)
        part.blobId.items (PutOutcome.ofPart previous).releasedBlobId now)).queuedAt blobId = _
      rw [queuedAt_publishBatch (part_ne_orphan _ _)]
      refine if_congr ?_ rfl (if_congr ?_ rfl rfl)
      · cases previous <;> simp [PutOutcome.ofPart, Commit.released, eq_comm]
      · simp [Commit.published, eq_comm]
  | abortUpload upload parts =>
      show (rows.write (releasePartsBatch upload.uploadId parts now ++
        dropUploadBatch upload)).queuedAt blobId = _
      rw [queuedAt_endingBatch]
      exact if_congr (by rw [Commit.released, blobs_releasedParts]) rfl
        (if_neg (by simp [Commit.published])).symm
  | completeUpload bucket upload object previous parts =>
      show (rows.write (putObjectBatch bucket object previous now ++
        releasePartsBatch upload.uploadId parts now ++ dropUploadBatch upload)).queuedAt blobId = _
      rw [List.append_assoc, Rows.write_append, queuedAt_endingBatch, queuedAt_putObjectBatch]
      simp only [Commit.released, List.map_append, List.mem_append, blobs_releasedParts]
      by_cases hparts : blobId ∈ partBlobIds parts
      · rw [if_pos hparts, if_pos (Or.inr hparts)]
      · rw [if_neg hparts]
        exact if_congr (or_iff_left hparts).symm rfl rfl

/-! ### Rows a commit leaves alone -/

theorem key_of_mem_publishBatch {storedKey value blobId : Bytes} {released : Option Bytes}
    {op : RowOp} (hop : op ∈ publishBatch storedKey value blobId released now) :
    op.key = storedKey ∨ op.key.head? = some Keys.kOrphan := by
  rcases List.mem_append.mp hop with hfirst | hmark
  · rcases List.mem_cons.mp hfirst with rfl | hsecond
    · exact Or.inl rfl
    · obtain rfl := List.mem_singleton.mp hsecond
      exact Or.inr rfl
  · obtain ⟨old, -, rfl⟩ := List.mem_map.mp hmark
    exact Or.inr rfl

theorem key_of_mem_endingBatch {upload : UploadRecord} {parts : List PartRecord} {op : RowOp}
    (hop : op ∈ releasePartsBatch upload.uploadId parts now ++ dropUploadBatch upload) :
    (∃ number, op.key = Keys.part upload.uploadId number) ∨ op.key = Keys.uploadById upload.uploadId ∨
      op.key.head? = some Keys.kUploadByKey ∨ op.key.head? = some Keys.kOrphan := by
  rcases List.mem_append.mp hop with hparts | hdrop
  · obtain ⟨part, -, hpart⟩ := List.mem_flatMap.mp hparts
    rcases List.mem_cons.mp hpart with rfl | hmark
    · exact Or.inl ⟨part.partNumber, rfl⟩
    · obtain rfl := List.mem_singleton.mp hmark
      exact Or.inr (Or.inr (Or.inr rfl))
  · rcases List.mem_cons.mp hdrop with rfl | hlast
    · exact Or.inr (Or.inl rfl)
    · obtain rfl := List.mem_singleton.mp hlast
      exact Or.inr (Or.inr (Or.inl rfl))

/-- The rows a commit writes: the one it locks, markers, and those of an upload it
ends. -/
theorem key_of_mem_batch {commit : Commit} {op : RowOp} (hop : op ∈ commit.batch now) :
    op.key = commit.lockKey ∨ op.key.head? = some Keys.kOrphan ∨
      op.key.head? = some Keys.kUploadByKey ∨
      ∃ upload, commit.ends = some upload ∧
        ((∃ number, op.key = Keys.part upload.uploadId number) ∨
          op.key = Keys.uploadById upload.uploadId) := by
  have hending : ∀ {upload : UploadRecord} {parts : List PartRecord}, commit.ends = some upload →
      op ∈ releasePartsBatch upload.uploadId parts now ++ dropUploadBatch upload →
      op.key.head? = some Keys.kOrphan ∨ op.key.head? = some Keys.kUploadByKey ∨
        ∃ upload, commit.ends = some upload ∧
          ((∃ number, op.key = Keys.part upload.uploadId number) ∨
            op.key = Keys.uploadById upload.uploadId) := by
    intro upload parts hends hmem
    rcases key_of_mem_endingBatch hmem with hpart | hid | hbyKey | hmark
    · exact Or.inr (Or.inr ⟨upload, hends, Or.inl hpart⟩)
    · exact Or.inr (Or.inr ⟨upload, hends, Or.inr hid⟩)
    · exact Or.inr (Or.inl hbyKey)
    · exact Or.inl hmark
  cases commit with
  | putObject bucket object previous =>
      exact (key_of_mem_publishBatch hop).imp id Or.inl
  | deleteObject bucket objectKey existing =>
      rcases List.mem_cons.mp hop with rfl | hmark
      · exact Or.inl rfl
      · obtain rfl := List.mem_singleton.mp hmark
        exact Or.inr (Or.inl rfl)
  | putPart uploadId part previous => exact (key_of_mem_publishBatch hop).imp id Or.inl
  | abortUpload upload parts => exact Or.inr (hending rfl hop)
  | completeUpload bucket upload object previous parts =>
      have hop : op ∈ putObjectBatch bucket object previous now ++
        releasePartsBatch upload.uploadId parts now ++ dropUploadBatch upload := hop
      rw [List.append_assoc] at hop
      rcases List.mem_append.mp hop with hput | hmem
      · exact (key_of_mem_publishBatch hput).imp id Or.inl
      · exact Or.inr (hending rfl hmem)

theorem find?_object_commit {commit : Commit} {bucket objectKey : Bytes}
    (h : commit.lockKey ≠ Keys.object bucket objectKey) :
    (rows.write (commit.batch now)).find? (Keys.object bucket objectKey) =
      rows.find? (Keys.object bucket objectKey) := by
  refine Rows.find?_write_of_forall_ne rows fun op hop hkey => ?_
  have hhead : op.key.head? = some Keys.kObject := by rw [hkey]; rfl
  rcases key_of_mem_batch hop with hlock | hmark | hbyKey | ⟨upload, -, ⟨number, hpart⟩ | hid⟩
  · exact h (hlock.symm.trans hkey)
  · exact absurd (hhead.symm.trans hmark) (by decide)
  · exact absurd (hhead.symm.trans hbyKey) (by decide)
  · exact part_ne_object _ _ _ _ (hpart.symm.trans hkey)
  · rw [hid] at hhead
    exact absurd hhead (by decide : ¬ some Keys.kUploadById = some Keys.kObject)

theorem find?_part_commit {commit : Commit} {uploadId : Bytes} {number : UInt32}
    (hlock : commit.lockKey ≠ Keys.part uploadId number)
    (hends : ∀ upload, commit.ends = some upload → upload.uploadId ≠ uploadId) :
    (rows.write (commit.batch now)).find? (Keys.part uploadId number) =
      rows.find? (Keys.part uploadId number) := by
  refine Rows.find?_write_of_forall_ne rows fun op hop hkey => ?_
  have hhead : op.key.head? = some Keys.kPart := by rw [hkey]; rfl
  rcases key_of_mem_batch hop with hlocked | hmark | hbyKey | ⟨upload, hupload, ⟨other, hpart⟩ | hid⟩
  · exact hlock (hlocked.symm.trans hkey)
  · exact absurd (hhead.symm.trans hmark) (by decide)
  · exact absurd (hhead.symm.trans hbyKey) (by decide)
  · exact hends upload hupload (Keys.part_inj (hpart.symm.trans hkey)).1
  · rw [hid] at hhead
    exact absurd hhead (by decide : ¬ some Keys.kUploadById = some Keys.kPart)

theorem lockKey_ne_uploadById_of_ends {commit : Commit} {uploadId : Bytes}
    (hends : ∀ upload, commit.ends = some upload → upload.uploadId ≠ uploadId) :
    commit.lockKey ≠ Keys.uploadById uploadId := by
  intro h
  cases commit with
  | putObject bucket object previous =>
      exact absurd (congrArg List.head? h) (by decide : ¬ some Keys.kObject = some Keys.kUploadById)
  | deleteObject bucket objectKey existing =>
      exact absurd (congrArg List.head? h) (by decide : ¬ some Keys.kObject = some Keys.kUploadById)
  | putPart other part previous =>
      exact absurd (congrArg List.head? h) (by decide : ¬ some Keys.kPart = some Keys.kUploadById)
  | abortUpload upload parts => exact hends upload rfl (List.cons.inj h).2
  | completeUpload bucket upload object previous parts =>
      exact absurd (congrArg List.head? h) (by decide : ¬ some Keys.kObject = some Keys.kUploadById)

/-- An upload's row goes with the commit that ends the upload, and with no other. -/
theorem find?_upload_commit {commit : Commit} {uploadId : Bytes}
    (hends : ∀ upload, commit.ends = some upload → upload.uploadId ≠ uploadId) :
    (rows.write (commit.batch now)).find? (Keys.uploadById uploadId) =
      rows.find? (Keys.uploadById uploadId) := by
  refine Rows.find?_write_of_forall_ne rows fun op hop hkey => ?_
  have hhead : op.key.head? = some Keys.kUploadById := by rw [hkey]; rfl
  rcases key_of_mem_batch hop with hlocked | hmark | hbyKey | ⟨upload, hupload, ⟨other, hpart⟩ | hid⟩
  · exact lockKey_ne_uploadById_of_ends hends (hlocked.symm.trans hkey)
  · exact absurd (hhead.symm.trans hmark) (by decide)
  · exact absurd (hhead.symm.trans hbyKey) (by decide)
  · rw [hpart] at hhead
    exact absurd hhead (by decide : ¬ some Keys.kPart = some Keys.kUploadById)
  · exact hends upload hupload (List.cons.inj (hid.symm.trans hkey)).2

theorem find?_upload_of_ends {commit : Commit} {upload : UploadRecord}
    (hends : commit.ends = some upload) :
    (rows.write (commit.batch now)).find? (Keys.uploadById upload.uploadId) = none := by
  have hlast : ∀ front : WriteBatch,
      (rows.write (front ++ dropUploadBatch upload)).find? (Keys.uploadById upload.uploadId) =
        none := by
    intro front
    refine Rows.find?_write_of_last rows front (.delete (Keys.uploadById upload.uploadId)) ?_
    intro op hop hkey
    obtain rfl := List.mem_singleton.mp hop
    exact absurd (congrArg List.head? hkey)
      (by decide : ¬ some Keys.kUploadByKey = some Keys.kUploadById)
  cases commit with
  | abortUpload other parts =>
      obtain rfl := Option.some.inj hends
      exact hlast _
  | completeUpload bucket other object previous parts =>
      obtain rfl := Option.some.inj hends
      exact hlast _
  | _ => cases hends

/-- Only the end of an upload takes its row. -/
theorem find?_upload_after {commit : Commit} {uploadId : Bytes}
    (h : (rows.write (commit.batch now)).find? (Keys.uploadById uploadId) ≠ none) :
    rows.find? (Keys.uploadById uploadId) ≠ none ∧
      ∀ upload, commit.ends = some upload → upload.uploadId ≠ uploadId := by
  have hends : ∀ upload, commit.ends = some upload → upload.uploadId ≠ uploadId := by
    rintro upload hends rfl
    exact h (find?_upload_of_ends hends)
  rw [find?_upload_commit hends] at h
  exact ⟨h, hends⟩

end Batches

/-! ### What a call has in hand -/

/-- The payload a call has brought and not committed. -/
def Phase.brings : Phase → Option Bytes
  | .putRequire _ object | .putLock _ object | .putLoad _ object
  | .completeRequire _ _ object | .completeFind _ _ object | .completeLock _ _ object
  | .completeLoad _ _ object | .completeCollect _ _ object _ => some object.blobId.items
  | .partLock _ part | .partFind _ part | .partLoad _ part => some part.blobId.items
  | .write commit => commit.published.map Prod.snd
  | _ => none

/-- The rows a call has read the payloads of. -/
def Phase.notes : Phase → List (Bytes × Bytes)
  | .completeCollect bucket _ object previous => Commit.replacedObject bucket object.key previous
  | .write commit => commit.released
  | _ => []

section Moves

variable {rows : Rows} {phase next : Phase} {effect : Effect}

/-- A call gives its payload up or keeps it. -/
theorem brings_of_move (hmove : Move rows phase effect next) :
    next.brings = phase.brings ∨ next.brings = none := by
  cases hmove <;> first | exact Or.inl rfl | exact Or.inr rfl

theorem mem_replacedObject_of_load {bucket objectKey : Bytes} {previous : Option ObjectRecord}
    (hload : loadObject rows (Keys.object bucket objectKey) objectKey = .ok previous)
    {pair : Bytes × Bytes} (hpair : pair ∈ Commit.replacedObject bucket objectKey previous) :
    rows.blobAt pair.1 = some pair.2 := by
  obtain ⟨object, hobject, rfl⟩ := List.mem_map.mp hpair
  obtain rfl := Option.mem_toList.mp hobject
  exact blobAt_of_loadObject hload

theorem mem_releasedParts_of_collect {uploadId : Bytes} {parts : List PartRecord}
    (hparts : collectParts rows uploadId = .ok parts) {pair : Bytes × Bytes}
    (hpair : pair ∈ Commit.releasedParts uploadId parts) : rows.blobAt pair.1 = some pair.2 := by
  obtain ⟨part, hpart, rfl⟩ := List.mem_map.mp hpair
  exact blobAt_of_collectParts hparts hpart

/-- What a call notes of a row is what the row names. -/
theorem notes_of_move (hmove : Move rows phase effect next) {pair : Bytes × Bytes}
    (hpair : pair ∈ next.notes) : pair ∈ phase.notes ∨ rows.blobAt pair.1 = some pair.2 := by
  cases hmove with
  | putLoad hload => exact Or.inr (mem_replacedObject_of_load hload hpair)
  | deleteLoad hload =>
      obtain rfl := List.mem_singleton.mp hpair
      exact Or.inr (blobAt_of_loadObject hload)
  | partLoad hload =>
      obtain ⟨old, hold, rfl⟩ := List.mem_map.mp hpair
      obtain rfl := Option.mem_toList.mp hold
      exact Or.inr (blobAt_of_loadPart hload)
  | abortCollect hparts => exact Or.inr (mem_releasedParts_of_collect hparts hpair)
  | completeLoad hload => exact Or.inr (mem_replacedObject_of_load hload hpair)
  | completeCollect hparts =>
      exact (List.mem_append.mp hpair).imp id (mem_releasedParts_of_collect hparts)
  | _ => cases hpair

/-- The locks before and after a step. -/
theorem locks_of_move (hmove : Move rows phase effect next) :
    match effect with
    | .nothing => next.locks = phase.locks
    | .lock key => phase.locks = none ∧ next.locks = some key
    | .unlock key => phase.locks = some key ∧ next.locks = none
    | .write commit => phase = .write commit ∧ next = .settle commit
    | .settle commit => phase.locks = some commit.lockKey ∧ next.locks = none := by
  cases hmove with
  | throw hphase hanswer => exact hphase.symm
  | give hphase hanswer => exact ⟨hphase, rfl⟩
  | putLock => exact ⟨rfl, rfl⟩
  | deleteLock => exact ⟨rfl, rfl⟩
  | partLock => exact ⟨rfl, rfl⟩
  | abortLock => exact ⟨rfl, rfl⟩
  | completeLock => exact ⟨rfl, rfl⟩
  | write => exact ⟨rfl, rfl⟩
  | settle => exact ⟨rfl, rfl⟩
  | _ => rfl

end Moves

/-! ### Locks -/

section Locks

variable {ι : Type} [DecidableEq ι] {stripeFor : Bytes → Nat} {shared : Shared ι}
  {locks : ι → Option Bytes} {who other : ι} {phase next : Phase} {effect : Effect}
  {now : TimestampMs}

/-- Whoever has a key locked holds its stripe. -/
def Locked (stripeFor : Bytes → Nat) (holders : Nat → Option ι) (locks : ι → Option Bytes) : Prop :=
  ∀ who key, locks who = some key → holders (stripeFor key) = some who

omit [DecidableEq ι] in
theorem Locked.exclusive {holders : Nat → Option ι} (h : Locked stripeFor holders locks)
    {key : Bytes} (hwho : locks who = some key) (hother : locks other = some key) : who = other :=
  Option.some.inj ((h who key hwho).symm.trans (h other key hother))

/-- A stripe is given up by its holder only. -/
theorem Locked.unlock {holders : Nat → Option ι} (h : Locked stripeFor holders locks) {key : Bytes}
    (hkey : locks who = some key) :
    Locked stripeFor (Function.update holders (stripeFor key) none)
      (Function.update locks who none) := by
  intro other otherKey hother
  by_cases hsame : other = who
  · rw [hsame, Function.update_self] at hother
    cases hother
  · rw [Function.update_of_ne hsame] at hother
    have hholds := h other otherKey hother
    rw [Function.update_of_ne, hholds]
    rintro hstripe
    rw [hstripe, h who key hkey] at hholds
    exact hsame (Option.some.inj hholds).symm

theorem Locked.lock {holders : Nat → Option ι} (h : Locked stripeFor holders locks) {key : Bytes}
    (hfree : holders (stripeFor key) = none) :
    Locked stripeFor (Function.update holders (stripeFor key) (some who))
      (Function.update locks who (some key)) := by
  intro other otherKey hother
  by_cases hsame : other = who
  · rw [hsame, Function.update_self] at hother
    obtain rfl := Option.some.inj hother
    rw [Function.update_self, hsame]
  · rw [Function.update_of_ne hsame] at hother
    have hholds := h other otherKey hother
    rw [Function.update_of_ne, hholds]
    rintro hstripe
    rw [hstripe, hfree] at hholds
    cases hholds

theorem Locked.move (h : Locked stripeFor shared.holders locks) (hwho : locks who = phase.locks)
    (hmove : Move shared.store.rows phase effect next)
    (hfree : effect.Free stripeFor shared.holders) :
    Locked stripeFor (effect.apply stripeFor who now shared).holders
      (Function.update locks who next.locks) := by
  have hlocks := locks_of_move hmove
  cases effect with
  | nothing =>
      have hsame : next.locks = phase.locks := hlocks
      rw [hsame, ← hwho, Function.update_eq_self]
      exact h
  | lock key =>
      rw [hlocks.2]
      exact h.lock hfree
  | unlock key =>
      rw [hlocks.2]
      exact h.unlock (hwho.trans hlocks.1)
  | write commit =>
      obtain ⟨rfl, rfl⟩ := hlocks
      have hsame : Phase.locks (.settle commit) = locks who := hwho.symm
      rw [hsame, Function.update_eq_self]
      exact h
  | settle commit =>
      rw [hlocks.2]
      exact h.unlock (hwho.trans hlocks.1)

end Locks

/-! ### What was read is still there -/

section Current

variable {rows : Rows} {phase next : Phase} {effect : Effect}

/-- What a call has read of the row it has locked is still there; of a part's row,
as long as the upload is. -/
def Phase.Current (rows : Rows) : Phase → Prop
  | .completeCollect bucket _ object previous
  | .write (.putObject bucket object previous)
  | .write (.completeUpload bucket _ object previous _) =>
    loadObject rows (Keys.object bucket object.key) object.key = .ok previous
  | .write (.deleteObject bucket key existing) =>
    loadObject rows (Keys.object bucket key) key = .ok (some existing)
  | .write (.putPart uploadId part previous) =>
    rows.find? (Keys.uploadById uploadId) ≠ none →
      loadPart rows uploadId part.partNumber = .ok previous
  | _ => True

theorem current_of_move (hmove : Move rows phase effect next) (h : phase.Current rows)
    (heffect : ∀ commit, effect ≠ .write commit) : next.Current rows := by
  cases hmove with
  | putLoad hload => exact hload
  | deleteLoad hload => exact hload
  | partLoad hload => exact fun _ => hload
  | completeLoad hload => exact hload
  | completeCollect hparts => exact h
  | write => exact absurd rfl (heffect _)
  | _ => trivial

/-- A commit under another lock changes nothing a call relies on. -/
theorem Phase.Current.commit (h : phase.Current rows) {commit : Commit} {now : TimestampMs}
    (hlock : ∀ key, phase.locks = some key → commit.lockKey ≠ key) :
    phase.Current (rows.write (commit.batch now)) := by
  have hobject : ∀ {bucket key : Bytes} {found : Option ObjectRecord},
      phase.locks = some (Keys.object bucket key) →
      loadObject rows (Keys.object bucket key) key = .ok found →
      loadObject (rows.write (commit.batch now)) (Keys.object bucket key) key = .ok found := by
    intro bucket key found hlocks hload
    rw [← hload]
    exact readRow_congr (find?_object_commit (hlock _ hlocks))
  cases phase with
  | completeCollect bucket upload object previous => exact hobject rfl h
  | write other =>
      cases other with
      | putObject bucket object previous => exact hobject rfl h
      | deleteObject bucket key existing => exact hobject rfl h
      | completeUpload bucket upload object previous parts => exact hobject rfl h
      | abortUpload upload parts => trivial
      | putPart uploadId part previous =>
          intro hupload
          have hends : ∀ upload, commit.ends = some upload → upload.uploadId ≠ uploadId := by
            rintro upload hends rfl
            exact hupload (find?_upload_of_ends hends)
          rw [find?_upload_commit hends] at hupload
          have hpart : loadPart rows uploadId part.partNumber = .ok previous := h hupload
          rw [← hpart]
          exact readRow_congr (find?_part_commit (hlock _ rfl) hends)
  | _ => trivial

end Current

end MonoBucket.StoreCalls

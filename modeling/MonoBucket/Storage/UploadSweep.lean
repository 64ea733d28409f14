/-
The sweep of idle uploads

A pass takes the first `limit` uploads that were begun before a cutoff, in the
order of their ids, passes over those that received a part since and aborts the
rest. An upload that is passed over stays a candidate, so it takes a place of
every later pass too.

Here passes run alone. What they leave in the end is the subject of `Sweeping`,
whose list is that of the uploads begun before the cutoff.
-/

import MonoBucket.Lib.Sweeping
import MonoBucket.Storage.EngineWrites
import MonoBucket.Storage.FailedWrites
import MonoBucket.Storage.StoreCommits
import MonoBucket.Storage.Written

namespace MonoBucket

open Codec

/-! ### A pass -/

/-- The loop of `listUploadsCreatedBefore`, with the places left. -/
def createdBefore (cutoff : TimestampMs) :
    Nat → List (Bytes × Bytes) → Except StoreError (List UploadRecord)
  | 0, _ => .ok []
  | _ + 1, [] => .ok []
  | left + 1, row :: rest => do
    let upload ← decoded (decodeUpload (row.1.drop 1) row.2)
    if cutoff ≤ upload.createdAt then createdBefore cutoff (left + 1) rest
    else do
      let others ← createdBefore cutoff left rest
      pure (upload :: others)

def listUploadsCreatedBefore (rows : Rows) (limit : Nat) (cutoff : TimestampMs) :
    Except StoreError (List UploadRecord) :=
  createdBefore cutoff limit (rows.scan [Keys.kUploadById])

/-- When an upload was begun or last received a part; `std::max` keeps the first
of equals. -/
def lastActivity (upload : UploadRecord) (parts : List PartRecord) : TimestampMs :=
  parts.foldl (fun last part => if last < part.uploadedAt then part.uploadedAt else last)
    upload.createdAt

namespace StorageEngine

/-- The candidates of a pass, one after another; `now` is when the abort of each
would run. The list of parts is read outside the handler. -/
def sweepLoop (cutoff : TimestampMs) (now : Bytes → TimestampMs) (engine : StorageEngine)
    (swept : Nat) : List UploadRecord → StorageEngine × Except StoreError Nat
  | [] => (engine, .ok swept)
  | upload :: rest =>
    match listParts engine.metadata.rows upload.uploadId with
    | .error error => (engine, .error error)
    | .ok parts =>
      if cutoff ≤ lastActivity upload parts then sweepLoop cutoff now engine swept rest
      else
        match engine.abortUpload upload.uploadId (now upload.uploadId) with
        | (engine, .ok _) => sweepLoop cutoff now engine (swept + 1) rest
        | (engine, .error (.storage _ _)) => sweepLoop cutoff now engine swept rest
        | (engine, .error (.decode error)) => (engine, .error (.decode error))

def sweepUploadsIdleBefore (engine : StorageEngine) (limit : Nat) (cutoff : TimestampMs)
    (now : Bytes → TimestampMs) : StorageEngine × Except StoreError Nat :=
  match listUploadsCreatedBefore engine.metadata.rows limit cutoff with
  | .error error => (engine, .error error)
  | .ok candidates => sweepLoop cutoff now engine 0 candidates

/-- Pass after pass with nothing in between, each on its own clock. -/
def sweeps (engine : StorageEngine) (limit : Nat) (cutoff : TimestampMs)
    (now : Nat → Bytes → TimestampMs) : Nat → StorageEngine
  | 0 => engine
  | count + 1 =>
    ((sweeps engine limit cutoff now count).sweepUploadsIdleBefore limit cutoff (now count)).1

end StorageEngine

/-! ### Uploads as the rows have them -/

/-- The part rows of an upload are of before the cutoff. -/
def Stale (cutoff : TimestampMs) (rows : Rows) (uploadId : Bytes) : Prop :=
  ∀ number part, loadPart rows uploadId number = .ok (some part) → part.uploadedAt < cutoff

/-- A live upload that was begun and received all its parts before the cutoff. -/
structure Idle (cutoff : TimestampMs) (rows : Rows) (upload : UploadRecord) : Prop where
  live : loadUpload rows upload.uploadId = .ok (some upload)
  created : upload.createdAt < cutoff
  parts : Stale cutoff rows upload.uploadId

/-- A live upload that was begun before the cutoff and received a part since. -/
structure Busy (cutoff : TimestampMs) (rows : Rows) (upload : UploadRecord) : Prop where
  live : loadUpload rows upload.uploadId = .ok (some upload)
  created : upload.createdAt < cutoff
  parts : ¬ Stale cutoff rows upload.uploadId

/-- The live uploads, in the order of their ids. -/
def uploadRecords (rows : Rows) : List UploadRecord :=
  (rows.scan [Keys.kUploadById]).filterMap fun row => (decodeUpload (row.1.drop 1) row.2).toOption

def oldUploads (cutoff : TimestampMs) (rows : Rows) : List UploadRecord :=
  (uploadRecords rows).filter fun upload => upload.createdAt < cutoff

/-- A pass would pass the upload over. -/
def active (cutoff : TimestampMs) (rows : Rows) (upload : UploadRecord) : Bool :=
  match collectParts rows upload.uploadId with
  | .ok parts => cutoff ≤ lastActivity upload parts
  | .error _ => false

section Reading

variable {rows : Rows} {cutoff : TimestampMs} {upload : UploadRecord}

theorem mem_uploadRecords :
    upload ∈ uploadRecords rows ↔ loadUpload rows upload.uploadId = .ok (some upload) := by
  rw [uploadRecords, List.mem_filterMap]
  constructor
  · rintro ⟨⟨key, stored⟩, hrow, hdecode⟩
    obtain ⟨hentry, rest, rfl⟩ := Rows.mem_scan.mp hrow
    have hread : decodeUpload rest stored = .ok upload := Except.toOption_eq_some hdecode
    have hfind : rows.find? (Keys.uploadById rest) = some stored :=
      (rows.find?_eq_some_iff).mpr hentry
    rw [uploadId_of_decodeUpload hread, loadUpload, readRow, hfind]
    simp [hread, decoded, Except.map]
  · intro h
    obtain ⟨stored, hfind, hdecode⟩ := decode_of_readRow h
    refine ⟨(Keys.uploadById upload.uploadId, stored), ?_, ?_⟩
    · exact Rows.mem_scan.mpr ⟨(rows.find?_eq_some_iff).mp hfind, ⟨upload.uploadId, rfl⟩⟩
    · show (decodeUpload upload.uploadId stored).toOption = some upload
      rw [hdecode]
      rfl

theorem uploadRecords_ordered (rows : Rows) :
    (uploadRecords rows).Pairwise fun upload other => upload.uploadId < other.uploadId := by
  rw [uploadRecords, List.pairwise_filterMap, Rows.scan_eq_filter]
  refine List.Pairwise.imp_of_mem (fun {row other} hrow hother hlt => ?_) (rows.ordered.filter _)
  obtain ⟨rest, hkey⟩ := List.isPrefixOf_iff_prefix.mp (List.mem_filter.mp hrow).2
  obtain ⟨otherRest, hotherKey⟩ := List.isPrefixOf_iff_prefix.mp (List.mem_filter.mp hother).2
  intro upload hupload next hnext
  rw [uploadId_of_decodeUpload (Except.toOption_eq_some hupload),
    uploadId_of_decodeUpload (Except.toOption_eq_some hnext), ← hkey, ← hotherKey]
  rw [← hkey, ← hotherKey] at hlt
  simpa [List.cons_lt_cons_iff] using hlt

theorem mem_oldUploads : upload ∈ oldUploads cutoff rows ↔
    loadUpload rows upload.uploadId = .ok (some upload) ∧ upload.createdAt < cutoff := by
  rw [oldUploads, List.mem_filter, mem_uploadRecords, decide_eq_true_iff]

theorem oldUploads_ordered (cutoff : TimestampMs) (rows : Rows) :
    (oldUploads cutoff rows).Pairwise fun upload other => upload.uploadId < other.uploadId :=
  (uploadRecords_ordered rows).filter _

/-- The candidates are the first of the uploads begun before the cutoff. -/
theorem createdBefore_eq (limit : Nat) {listed : List (Bytes × Bytes)}
    (h : ∀ row ∈ listed, (decodeUpload (row.1.drop 1) row.2).Returns) :
    createdBefore cutoff limit listed = .ok (((listed.filterMap fun row =>
      (decodeUpload (row.1.drop 1) row.2).toOption).filter fun upload =>
        upload.createdAt < cutoff).take limit) := by
  induction listed generalizing limit with
  | nil => cases limit <;> rfl
  | cons row rest ih =>
      cases limit with
      | zero => rfl
      | succ left =>
          obtain ⟨upload, hdecode⟩ := h row List.mem_cons_self
          have hrest := fun left =>
            ih left fun other hother => h other (List.mem_cons_of_mem _ hother)
          have hfirst : ((row :: rest).filterMap fun row =>
              (decodeUpload (row.1.drop 1) row.2).toOption) =
              upload :: rest.filterMap fun row => (decodeUpload (row.1.drop 1) row.2).toOption :=
            List.filterMap_cons_some (by rw [hdecode]; rfl)
          rw [createdBefore, hdecode, hfirst, List.filter_cons]
          show (if cutoff ≤ upload.createdAt then _ else _) = _
          by_cases hlate : cutoff ≤ upload.createdAt
          · rw [if_pos hlate, hrest, if_neg (by simpa using Int64.not_lt.mpr hlate)]
          · rw [if_neg hlate, hrest, if_pos (by simpa using Int64.not_le.mp hlate), List.take_succ_cons]
            rfl

theorem uploadById_head? (uploadId : Bytes) :
    (Keys.uploadById uploadId).head? = some Keys.kUploadById := rfl

theorem part_head? (uploadId : Bytes) (number : UInt32) :
    (Keys.part uploadId number).head? = some Keys.kPart := rfl

variable (hrows : rows.Holds (Written fun _ => True))

include hrows in
theorem listUploadsCreatedBefore_eq (limit : Nat) (cutoff : TimestampMs) :
    listUploadsCreatedBefore rows limit cutoff = .ok ((oldUploads cutoff rows).take limit) := by
  refine createdBefore_eq limit fun row hrow => ?_
  obtain ⟨hentry, hfront⟩ := Rows.mem_scan.mp hrow
  exact (hrows.of_mem hentry).decodeUpload (head?_of_tag_front hfront) _

/-! ### What a read of parts says -/

include hrows in
/-- Where the row of an upload is, it is that of a record. -/
theorem loadUpload_of_find? {uploadId : Bytes}
    (h : rows.find? (Keys.uploadById uploadId) ≠ none) :
    ∃ found, loadUpload rows uploadId = .ok (some found) := by
  obtain ⟨stored, hfind⟩ := Option.ne_none_iff_exists'.mp h
  obtain ⟨found, hdecode⟩ :=
    (hrows _ stored hfind).decodeUpload (uploadById_head? uploadId) uploadId
  refine ⟨found, ?_⟩
  rw [loadUpload, readRow, hfind]
  simp [hdecode, decoded, Except.map]

omit hrows in
/-- The parts of a list are those a point read finds. -/
theorem mem_of_collectParts {uploadId : Bytes} {parts : List PartRecord}
    (h : collectParts rows uploadId = .ok parts) {part : PartRecord} :
    part ∈ parts ↔ loadPart rows uploadId part.partNumber = .ok (some part) := by
  constructor
  · intro hpart
    obtain ⟨row, hrow, hdecode⟩ := readAll_ok h part hpart
    obtain ⟨hkey, hread⟩ := of_decodePartRow hdecode
    have hfind := (rows.find?_eq_some_iff).mpr (Rows.mem_scan.mp hrow).1
    rw [loadPart, readRow, ← hkey, hfind]
    simp [hread, decoded, Except.map]
  · intro hload
    obtain ⟨stored, hfind, hdecode⟩ := decode_of_readRow hload
    have hrow : (Keys.part uploadId part.partNumber, stored) ∈
        rows.scan (Keys.partPrefix uploadId) :=
      Rows.mem_scan.mpr ⟨(rows.find?_eq_some_iff).mp hfind, ⟨Keys.bigEndian32 part.partNumber, rfl⟩⟩
    obtain ⟨found, hfound, hmem⟩ := readAll_decodes h hrow
    rw [decodePartRow, Keys.partNumber_part] at hfound
    simp only [hdecode, Except.map, Except.ok.injEq] at hfound
    exact hmem part (hfound ▸ rfl)

/-- The last activity is before the cutoff exactly when all of it is. -/
theorem lastActivity_lt_iff {parts : List PartRecord} :
    lastActivity upload parts < cutoff ↔
      upload.createdAt < cutoff ∧ ∀ part ∈ parts, part.uploadedAt < cutoff := by
  have hfold : ∀ last : TimestampMs,
      (parts.foldl (fun last part => if last < part.uploadedAt then part.uploadedAt else last)
        last) < cutoff ↔ last < cutoff ∧ ∀ part ∈ parts, part.uploadedAt < cutoff := by
    induction parts with
    | nil => simp
    | cons part rest ih =>
        intro last
        have hfirst : (if last < part.uploadedAt then part.uploadedAt else last) < cutoff ↔
            last < cutoff ∧ part.uploadedAt < cutoff := by
          simp only [Int64.lt_iff_toInt_lt]
          split <;> omega
        rw [List.foldl_cons, ih, hfirst, List.forall_mem_cons, and_assoc]
  exact hfold upload.createdAt

include hrows in
/-- A pass passes over what is not stale. -/
theorem active_eq_false_iff (hcreated : upload.createdAt < cutoff) :
    active cutoff rows upload = false ↔ Stale cutoff rows upload.uploadId := by
  obtain ⟨parts, hparts⟩ := collectParts_returns hrows upload.uploadId
  have hactive : active cutoff rows upload = decide (cutoff ≤ lastActivity upload parts) := by
    rw [active, hparts]
  rw [hactive, decide_eq_false_iff_not, Int64.not_le, lastActivity_lt_iff]
  constructor
  · rintro ⟨-, hall⟩ number part hload
    obtain ⟨stored, -, hdecode⟩ := decode_of_readRow hload
    have hnumber := partNumber_of_decodePart hdecode
    exact hall part ((mem_of_collectParts hparts).mpr (hnumber.symm ▸ hload))
  · intro hstale
    exact ⟨hcreated, fun part hpart => hstale _ part ((mem_of_collectParts hparts).mp hpart)⟩

end Reading

/-! ### What aborts take away -/

/-- The uploads of these ids are gone and every other one is as it was. -/
structure Erases (ids : List Bytes) (rows next : Rows) : Prop where
  written : next.Holds (Written fun _ => True)
  gone : ∀ id ∈ ids, next.find? (Keys.uploadById id) = none
  uploads : ∀ id ∉ ids, next.find? (Keys.uploadById id) = rows.find? (Keys.uploadById id)
  parts : ∀ id ∉ ids, ∀ number, next.find? (Keys.part id number) = rows.find? (Keys.part id number)

namespace Erases

variable {first second ids : List Bytes} {rows middle next : Rows} {cutoff : TimestampMs}

theorem refl (hrows : rows.Holds (Written fun _ => True)) : Erases [] rows rows :=
  ⟨hrows, by simp, fun _ _ => rfl, fun _ _ _ => rfl⟩

theorem trans (h : Erases first rows middle) (hnext : Erases second middle next) :
    Erases (first ++ second) rows next where
  written := hnext.written
  gone := by
    intro id hid
    by_cases hsecond : id ∈ second
    · exact hnext.gone id hsecond
    · rw [hnext.uploads id hsecond]
      exact h.gone id ((List.mem_append.mp hid).resolve_right hsecond)
  uploads := by
    intro id hid
    rw [List.mem_append, not_or] at hid
    rw [hnext.uploads id hid.2, h.uploads id hid.1]
  parts := by
    intro id hid number
    rw [List.mem_append, not_or] at hid
    rw [hnext.parts id hid.2 number, h.parts id hid.1 number]

theorem loadUpload_eq (h : Erases ids rows next) {id : Bytes} (hid : id ∉ ids) :
    loadUpload next id = loadUpload rows id := readRow_congr (h.uploads id hid)

theorem stale_iff (h : Erases ids rows next) {id : Bytes} (hid : id ∉ ids) :
    Stale cutoff next id ↔ Stale cutoff rows id := by
  have hload : ∀ number, loadPart next id number = loadPart rows id number :=
    fun number => readRow_congr (h.parts id hid number)
  simp only [Stale, hload]

theorem active_eq (h : Erases ids rows next) (hrows : rows.Holds (Written fun _ => True))
    {upload : UploadRecord} (hcreated : upload.createdAt < cutoff) (hid : upload.uploadId ∉ ids) :
    active cutoff next upload = active cutoff rows upload := by
  rw [Bool.eq_iff_iff, ← not_iff_not, Bool.not_eq_true, Bool.not_eq_true,
    active_eq_false_iff h.written hcreated, active_eq_false_iff hrows hcreated, h.stale_iff hid]

/-- The old uploads that are left are those of other ids. -/
theorem oldUploads_eq (h : Erases ids rows next) (cutoff : TimestampMs) :
    oldUploads cutoff next =
      (oldUploads cutoff rows).filter fun upload => decide (upload.uploadId ∉ ids) := by
  refine OrderedMap.eq_of_mem_iff UploadRecord.uploadId (oldUploads_ordered cutoff next)
    ((oldUploads_ordered cutoff rows).filter _) fun upload => ?_
  rw [List.mem_filter, mem_oldUploads, mem_oldUploads, decide_eq_true_iff]
  by_cases hid : upload.uploadId ∈ ids
  · have hgone : loadUpload next upload.uploadId = .ok none := by
      rw [loadUpload, readRow, h.gone _ hid]
    simp [hgone, hid]
  · simp [h.loadUpload_eq hid, hid]

end Erases

namespace StorageEngine

/-- What an abort of what it has read leaves. -/
def erase (engine : StorageEngine) (upload : UploadRecord) (parts : List PartRecord)
    (now : TimestampMs) : StorageEngine :=
  let settled : StorageEngine :=
    { engine with
      metadata :=
        { engine.metadata with
          rows := engine.metadata.rows.write (abortUploadBatch upload parts now)
          counters := engine.metadata.counters.finished parts }
      quotas := engine.quotas.recordUploadAborted upload.bucket.items (partBytes parts) }
  settled.reclaimNow (partBlobIds parts)

variable {engine : StorageEngine} {upload : UploadRecord} {parts : List PartRecord}
  {uploadId : Bytes} {cutoff : TimestampMs} {limit : Nat}

/-- An abort reads the upload and its parts and writes one batch. -/
theorem abortUpload_eq (engine : StorageEngine) (uploadId : Bytes) (now : TimestampMs) :
    engine.abortUpload uploadId now =
      match FailedWrites.uploadAndParts engine.metadata.rows uploadId with
      | .error error => (engine, .error error)
      | .ok (upload, parts) => (engine.erase upload parts now, .ok ()) := by
  rw [abortUpload, MonoBucket.abortUpload, FailedWrites.uploadAndParts]
  cases loadUpload engine.metadata.rows uploadId with
  | error error => rfl
  | ok found =>
      cases found with
      | none => rfl
      | some upload => cases collectParts engine.metadata.rows uploadId <;> rfl

theorem abortUpload_ok (hload : loadUpload engine.metadata.rows uploadId = .ok (some upload))
    (hparts : collectParts engine.metadata.rows uploadId = .ok parts) (now : TimestampMs) :
    engine.abortUpload uploadId now = (engine.erase upload parts now, .ok ()) := by
  rw [abortUpload_eq, FailedWrites.uploadAndParts, hload, hparts]
  rfl

/-- An abort takes away the rows of its upload and of no other. -/
theorem erases_erase (hrows : engine.metadata.rows.Holds (Written fun _ => True))
    (upload : UploadRecord) (parts : List PartRecord) (now : TimestampMs) :
    Erases [upload.uploadId] engine.metadata.rows (engine.erase upload parts now).metadata.rows := by
  have hforget : ∀ {rows : Rows} {key : Bytes}, key.head? ≠ some Keys.kOrphan →
      (rows.write ((partBlobIds parts).map fun blobId => .delete (Keys.orphan blobId))).find? key =
        rows.find? key := by
    intro rows key hkey
    refine Rows.find?_write_of_forall_ne rows fun op hop heq => ?_
    obtain ⟨blobId, -, rfl⟩ := List.mem_map.mp hop
    exact hkey (heq ▸ rfl)
  have hends : ∀ {id : Bytes}, id ∉ [upload.uploadId] →
      ∀ other, (StoreCalls.Commit.abortUpload upload parts).ends = some other → other.uploadId ≠ id := by
    rintro id hid other hother rfl
    obtain rfl := Option.some.inj hother
    exact hid (List.mem_singleton_self _)
  have hnext : (engine.erase upload parts now).metadata.rows =
      (engine.metadata.rows.write ((StoreCalls.Commit.abortUpload upload parts).batch now)).write
        ((partBlobIds parts).map fun blobId => .delete (Keys.orphan blobId)) :=
    rows_forgetOrphans _ _
  refine ⟨?_, ?_, ?_, ?_⟩
  · exact holds_forgetOrphans (holds_abortUploadBatch hrows upload parts now) _
  · intro id hid
    obtain rfl := List.mem_singleton.mp hid
    rw [hnext, hforget (by rw [uploadById_head?]; decide)]
    exact StoreCalls.find?_upload_of_ends rfl
  · intro id hid
    rw [hnext, hforget (by rw [uploadById_head?]; decide)]
    exact StoreCalls.find?_upload_commit (hends hid)
  · intro id hid number
    rw [hnext, hforget (by rw [part_head?]; decide)]
    refine StoreCalls.find?_part_commit (fun hlock => ?_) (hends hid)
    exact absurd (congrArg List.head? hlock) (by decide : ¬ some Keys.kUploadById = some Keys.kPart)

/-! ### What a pass takes away -/

/-- A pass over live uploads aborts those that are not active. -/
theorem sweepLoop_eq (now : Bytes → TimestampMs) {todo : List UploadRecord}
    (hrows : engine.metadata.rows.Holds (Written fun _ => True))
    (htodo : ∀ upload ∈ todo, upload ∈ oldUploads cutoff engine.metadata.rows)
    (hnodup : (todo.map UploadRecord.uploadId).Nodup) (swept : Nat) :
    ∃ next total, sweepLoop cutoff now engine swept todo = (next, .ok total) ∧
      Erases ((todo.filter fun upload => !active cutoff engine.metadata.rows upload).map
        UploadRecord.uploadId) engine.metadata.rows next.metadata.rows := by
  induction todo generalizing engine swept with
  | nil => exact ⟨engine, swept, rfl, .refl hrows⟩
  | cons upload rest ih =>
      obtain ⟨hlive, hcreated⟩ := mem_oldUploads.mp (htodo upload List.mem_cons_self)
      obtain ⟨parts, hparts⟩ := collectParts_returns hrows upload.uploadId
      have hlist : listParts engine.metadata.rows upload.uploadId = .ok parts := by
        rw [listParts, hlive]
        exact hparts
      have hactive : active cutoff engine.metadata.rows upload =
          decide (cutoff ≤ lastActivity upload parts) := by
        rw [active, hparts]
      rw [sweepLoop, hlist]
      by_cases hlate : cutoff ≤ lastActivity upload parts
      · rw [List.filter_cons_of_neg (by simp [hactive, hlate])]
        simp only [hlate, if_true]
        exact ih hrows (fun other hother => htodo other (List.mem_cons_of_mem _ hother))
          (List.nodup_cons.mp hnodup).2 swept
      · have herases := erases_erase hrows upload parts (now upload.uploadId)
        obtain ⟨hnotin, hrest⟩ := List.nodup_cons.mp hnodup
        have hne : ∀ other ∈ rest, other.uploadId ∉ [upload.uploadId] := by
          intro other hother hid
          exact hnotin (List.mem_singleton.mp hid ▸ List.mem_map_of_mem hother)
        have hold : ∀ other ∈ rest, other ∈ oldUploads cutoff engine.metadata.rows :=
          fun other hother => htodo other (List.mem_cons_of_mem _ hother)
        obtain ⟨next, total, hloop, hnext⟩ := ih herases.written
          (fun other hother => by
            rw [mem_oldUploads, herases.loadUpload_eq (hne other hother)]
            exact mem_oldUploads.mp (hold other hother)) hrest (swept + 1)
        have hsame : (rest.filter fun other => !active cutoff
            (engine.erase upload parts (now upload.uploadId)).metadata.rows other) =
            rest.filter fun other => !active cutoff engine.metadata.rows other := by
          refine List.filter_congr fun other hother => ?_
          rw [herases.active_eq hrows (mem_oldUploads.mp (hold other hother)).2 (hne other hother)]
        rw [hsame] at hnext
        refine ⟨next, total, ?_, ?_⟩
        · simp only [hlate, if_false, abortUpload_ok hlive hparts]
          exact hloop
        · rw [List.filter_cons_of_pos (by simp [hactive, hlate])]
          exact herases.trans hnext

/-- A pass that runs alone returns, and of the uploads begun before the cutoff it
leaves what a batch leaves. -/
theorem sweepUploadsIdleBefore_eq (limit : Nat) (cutoff : TimestampMs) (now : Bytes → TimestampMs)
    (hrows : engine.metadata.rows.Holds (Written fun _ => True)) :
    ∃ next total, engine.sweepUploadsIdleBefore limit cutoff now = (next, .ok total) ∧
      next.metadata.rows.Holds (Written fun _ => True) ∧
      oldUploads cutoff next.metadata.rows =
        Sweeping.pass (active cutoff engine.metadata.rows) limit
          (oldUploads cutoff engine.metadata.rows) ∧
      ∀ upload ∈ oldUploads cutoff next.metadata.rows,
        active cutoff next.metadata.rows upload = active cutoff engine.metadata.rows upload := by
  have hordered := oldUploads_ordered cutoff engine.metadata.rows
  have hids : ((oldUploads cutoff engine.metadata.rows).map UploadRecord.uploadId).Nodup :=
    List.pairwise_map.mpr (hordered.imp fun hlt => hlt.ne)
  obtain ⟨next, total, hloop, herases⟩ := sweepLoop_eq now hrows
    (fun upload hupload => List.mem_of_mem_take hupload)
    ((List.Sublist.map _ (List.take_sublist limit _)).nodup hids) 0
  have hleft := herases.oldUploads_eq cutoff
  refine ⟨next, total, ?_, herases.written, ?_, ?_⟩
  · rw [sweepUploadsIdleBefore, listUploadsCreatedBefore_eq hrows]
    exact hloop
  · rw [hleft]
    refine (Sweeping.pass_eq_filter (List.Nodup.of_map _ hids) _ fun upload hupload => ?_).symm
    have hown : upload.uploadId ∈ (((oldUploads cutoff engine.metadata.rows).take limit).filter
        fun other => !active cutoff engine.metadata.rows other).map UploadRecord.uploadId ↔
        upload ∈ (oldUploads cutoff engine.metadata.rows).take limit ∧
          active cutoff engine.metadata.rows upload = false := by
      rw [List.mem_map]
      constructor
      · rintro ⟨other, hother, hid⟩
        obtain ⟨htaken, hidle⟩ := List.mem_filter.mp hother
        obtain rfl : other = upload := by
          have hload := (mem_oldUploads.mp (List.mem_of_mem_take htaken)).1
          rw [hid, (mem_oldUploads.mp hupload).1] at hload
          exact (Option.some.inj (Except.ok.inj hload)).symm
        exact ⟨htaken, by simpa using hidle⟩
      · rintro ⟨htaken, hidle⟩
        exact ⟨upload, List.mem_filter.mpr ⟨htaken, by simp [hidle]⟩, rfl⟩
    rw [decide_eq_true_iff, hown, not_and_or, Bool.not_eq_false]
  · intro upload hupload
    rw [hleft, List.mem_filter, decide_eq_true_iff] at hupload
    exact herases.active_eq hrows (mem_oldUploads.mp hupload.1).2 hupload.2

/-- What any number of passes leaves. -/
theorem sweeps_eq (limit : Nat) (cutoff : TimestampMs) (now : Nat → Bytes → TimestampMs)
    (hrows : engine.metadata.rows.Holds (Written fun _ => True)) (count : Nat) :
    (engine.sweeps limit cutoff now count).metadata.rows.Holds (Written fun _ => True) ∧
      oldUploads cutoff (engine.sweeps limit cutoff now count).metadata.rows =
        (Sweeping.pass (active cutoff engine.metadata.rows) limit)^[count]
          (oldUploads cutoff engine.metadata.rows) ∧
      ∀ upload ∈ oldUploads cutoff (engine.sweeps limit cutoff now count).metadata.rows,
        active cutoff (engine.sweeps limit cutoff now count).metadata.rows upload =
          active cutoff engine.metadata.rows upload := by
  induction count with
  | zero => exact ⟨hrows, rfl, fun _ _ => rfl⟩
  | succ count ih =>
      obtain ⟨hwritten, hold, hactive⟩ := ih
      obtain ⟨next, total, hpass, hnext, hleft, hsame⟩ :=
        sweepUploadsIdleBefore_eq limit cutoff (now count) hwritten
      have hstuck : Sweeping.pass
            (active cutoff (engine.sweeps limit cutoff now count).metadata.rows) limit
            (oldUploads cutoff (engine.sweeps limit cutoff now count).metadata.rows) =
          Sweeping.pass (active cutoff engine.metadata.rows) limit
            (oldUploads cutoff (engine.sweeps limit cutoff now count).metadata.rows) := by
        rw [Sweeping.pass, Sweeping.pass, List.filter_congr fun upload hupload =>
          hactive upload (List.mem_of_mem_take hupload)]
      rw [hstuck] at hleft
      rw [sweeps, hpass]
      refine ⟨hnext, ?_, fun upload hupload => ?_⟩
      · rw [hleft, hold, Function.iterate_succ_apply']
      · rw [hsame upload hupload]
        rw [hleft] at hupload
        exact hactive upload (Sweeping.mem_of_mem_pass hupload)

/-! ### What passes get to -/

variable (hrows : engine.metadata.rows.Holds (Written fun _ => True))

include hrows in
theorem idle_iff : Idle cutoff engine.metadata.rows upload ↔
    upload ∈ oldUploads cutoff engine.metadata.rows ∧
      active cutoff engine.metadata.rows upload = false := by
  rw [mem_oldUploads]
  constructor
  · intro h
    exact ⟨⟨h.live, h.created⟩, (active_eq_false_iff hrows h.created).mpr h.parts⟩
  · rintro ⟨⟨hlive, hcreated⟩, hidle⟩
    exact ⟨hlive, hcreated, (active_eq_false_iff hrows hcreated).mp hidle⟩

include hrows in
theorem busy_iff : Busy cutoff engine.metadata.rows upload ↔
    upload ∈ oldUploads cutoff engine.metadata.rows ∧
      active cutoff engine.metadata.rows upload = true := by
  rw [mem_oldUploads]
  constructor
  · intro h
    refine ⟨⟨h.live, h.created⟩, ?_⟩
    rw [← Bool.not_eq_false, active_eq_false_iff hrows h.created]
    exact h.parts
  · rintro ⟨⟨hlive, hcreated⟩, hactive⟩
    refine ⟨hlive, hcreated, ?_⟩
    rw [← active_eq_false_iff hrows hcreated, hactive]
    simp

/-- Every idle upload has fewer than `limit` busy ones before it. -/
def InReach (limit : Nat) (cutoff : TimestampMs) (rows : Rows) : Prop :=
  ∀ upload, Idle cutoff rows upload → ∀ others : List UploadRecord, others.Nodup →
    (∀ other ∈ others, Busy cutoff rows other ∧ other.uploadId < upload.uploadId) →
      others.length < limit

include hrows in
theorem inReach_iff : InReach limit cutoff engine.metadata.rows ↔
    Sweeping.Unblocked (active cutoff engine.metadata.rows) limit
      (oldUploads cutoff engine.metadata.rows) := by
  have hordered := oldUploads_ordered cutoff engine.metadata.rows
  constructor
  · intro h front upload back hsplit hidle
    rw [hsplit] at hordered
    obtain ⟨hfront, -, hbefore⟩ := List.pairwise_append.mp hordered
    have hmem : upload ∈ oldUploads cutoff engine.metadata.rows := by simp [hsplit]
    rw [List.countP_eq_length_filter]
    refine h upload ((idle_iff hrows).mpr ⟨hmem, hidle⟩) _
      ((hfront.imp fun hlt heq => (heq ▸ hlt).false).filter _) fun other hother => ?_
    obtain ⟨hfrom, hactive⟩ := List.mem_filter.mp hother
    refine ⟨(busy_iff hrows).mpr ⟨?_, hactive⟩, hbefore other hfrom upload List.mem_cons_self⟩
    rw [hsplit]
    exact List.mem_append_left _ hfrom
  · intro h upload hupload others hnodup hothers
    obtain ⟨hmem, hidle⟩ := (idle_iff hrows).mp hupload
    obtain ⟨front, back, hsplit⟩ := List.append_of_mem hmem
    have hcount := h front upload back hsplit hidle
    rw [hsplit] at hordered
    obtain ⟨-, hback, -⟩ := List.pairwise_append.mp hordered
    refine lt_of_le_of_lt ?_ hcount
    rw [List.countP_eq_length_filter]
    refine (hnodup.subperm fun other hother => ?_).length_le
    obtain ⟨hbusy, hlt⟩ := hothers other hother
    obtain ⟨hold, hactive⟩ := (busy_iff hrows).mp hbusy
    rw [hsplit, List.mem_append, List.mem_cons] at hold
    refine List.mem_filter.mpr ⟨?_, hactive⟩
    -- what stands behind the upload has a larger id
    rcases hold with hfront | rfl | hbehind
    · exact hfront
    · exact absurd hlt (lt_irrefl _)
    · exact absurd hlt (lt_asymm ((List.pairwise_cons.mp hback).1 other hbehind))

include hrows in
/-- Enough passes leave no idle upload exactly when each can be reached. -/
theorem exists_sweeps_iff (now : Nat → Bytes → TimestampMs) :
    (∃ count, ∀ upload,
        ¬ Idle cutoff (engine.sweeps limit cutoff now count).metadata.rows upload) ↔
      InReach limit cutoff engine.metadata.rows := by
  rw [inReach_iff hrows, ← Sweeping.exists_iterate_iff]
  refine exists_congr fun count => ?_
  obtain ⟨hwritten, hold, hactive⟩ := sweeps_eq limit cutoff now hrows count
  simp only [idle_iff hwritten, not_and, Bool.not_eq_false]
  rw [← hold]
  exact forall_congr' fun upload => forall_congr' fun hupload => by rw [hactive upload hupload]

end StorageEngine

end MonoBucket

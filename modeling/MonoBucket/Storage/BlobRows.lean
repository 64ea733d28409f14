/-
Which rows name which payloads

An object's row and a part's row each name one payload by its id. A payload that
no row names is owed to the reclaimer, by a marker under its own id. Here is what
every batch of the store does to the names and to the markers, which is all that
the results about payloads use of it.
-/

import MonoBucket.Storage.BucketRows

namespace MonoBucket

open Codec

/-! ### Names and markers -/

/-- The payload a stored object names; its key plays no part in that. -/
def objectBlob (stored : Bytes) : Option Bytes :=
  (decodeObject [] stored).toOption.map fun object => object.blobId.items

def partBlob (stored : Bytes) : Option Bytes :=
  (decodePart 0 stored).toOption.map fun part => part.blobId.items

def rowBlob (key stored : Bytes) : Option Bytes :=
  if key.head? = some Keys.kObject then objectBlob stored
  else if key.head? = some Keys.kPart then partBlob stored
  else none

namespace Rows

/-- The payload the row under a key names. -/
def blobAt (rows : Rows) (key : Bytes) : Option Bytes := (rows.find? key).bind (rowBlob key)

/-- Some row names the payload. -/
def Names (rows : Rows) (blobId : Bytes) : Prop := ∃ key, rows.blobAt key = some blobId

/-- When a payload's marker was written, if it has one. -/
def queuedAt (rows : Rows) (blobId : Bytes) : Option TimestampMs :=
  (rows.find? (Keys.orphan blobId)).map decodeOrphanQueuedAt

theorem names_iff {rows : Rows} {blobId : Bytes} :
    rows.Names blobId ↔ ∃ row ∈ rows.entries, rowBlob row.1 row.2 = some blobId := by
  constructor
  · rintro ⟨key, hkey⟩
    obtain ⟨stored, hfind, hblob⟩ := Option.bind_eq_some_iff.mp hkey
    exact ⟨(key, stored), rows.find?_eq_some_iff.mp hfind, hblob⟩
  · rintro ⟨⟨key, stored⟩, hmem, hblob⟩
    exact ⟨key, Option.bind_eq_some_iff.mpr ⟨stored, rows.find?_eq_some_iff.mpr hmem, hblob⟩⟩

instance (rows : Rows) (blobId : Bytes) : Decidable (rows.Names blobId) :=
  decidable_of_iff _ names_iff.symm

end Rows

section Decoding

variable {key stored : Bytes} {rows : Rows}

theorem runOn_map {α β : Type} {read : Read α} {f : α → β} :
    runOn (f <$> read) stored = (runOn read stored).map f := by
  simp only [runOn, Functor.map, StateT.map]
  cases read (Reader.ofBytes stored) <;> rfl

theorem objectBlob_of_decodeObject {object : ObjectRecord} (h : decodeObject key stored = .ok object) :
    objectBlob stored = some object.blobId.items := by
  have hfields : decodeObjectFields key =
      (fun read : ObjectRecord => { read with key := key }) <$> decodeObjectFields [] := by
    simp [decodeObjectFields]
  rw [decodeObject, hfields, runOn_map] at h
  rw [objectBlob, decodeObject]
  cases hread : runOn (decodeObjectFields []) stored with
  | error error => simp [hread, Except.map] at h
  | ok read =>
      simp only [hread, Except.map, Except.ok.injEq] at h
      rw [← h]
      rfl

theorem partBlob_of_decodePart {number : UInt32} {part : PartRecord}
    (h : decodePart number stored = .ok part) : partBlob stored = some part.blobId.items := by
  have hfields : decodePartFields number =
      (fun read : PartRecord => { read with partNumber := number }) <$> decodePartFields 0 := by
    simp [decodePartFields]
  rw [decodePart, hfields, runOn_map] at h
  rw [partBlob, decodePart]
  cases hread : runOn (decodePartFields 0) stored with
  | error error => simp [hread, Except.map] at h
  | ok read =>
      simp only [hread, Except.map, Except.ok.injEq] at h
      rw [← h]
      rfl

theorem partNumber_of_decodePart {number : UInt32} {part : PartRecord}
    (h : decodePart number stored = .ok part) : part.partNumber = number := by
  have hfields : Gives (decodePartFields number) fun read => read.partNumber = number :=
    .bind fun _ => .bind fun _ => .bind fun _ => .bind fun _ => .bind fun _ => .bind fun _ =>
      gives_pure rfl
  exact hfields.runOn h

theorem rowBlob_object (bucket objectKey : Bytes) :
    rowBlob (Keys.object bucket objectKey) stored = objectBlob stored := if_pos rfl

theorem rowBlob_part (uploadId : Bytes) (number : UInt32) :
    rowBlob (Keys.part uploadId number) stored = partBlob stored := by
  have hkind : (Keys.part uploadId number).head? = some Keys.kPart := rfl
  rw [rowBlob, hkind, if_neg (by decide), if_pos rfl]

theorem rowBlob_encodeObject (bucket objectKey : Bytes) (object : ObjectRecord) :
    rowBlob (Keys.object bucket objectKey) (encodeObject object) = some object.blobId.items := by
  rw [rowBlob_object]
  exact objectBlob_of_decodeObject (decodeObject_encodeObject object)

theorem rowBlob_encodePart (uploadId : Bytes) (number : UInt32) (part : PartRecord) :
    rowBlob (Keys.part uploadId number) (encodePart part) = some part.blobId.items := by
  rw [rowBlob_part]
  exact partBlob_of_decodePart (decodePart_encodePart part)

/-- A row of no other kind names anything. -/
theorem rowBlob_of_head? {tag : UInt8} (hkey : key.head? = some tag) (hobject : tag ≠ Keys.kObject)
    (hpart : tag ≠ Keys.kPart) : rowBlob key stored = none := by
  rw [rowBlob, hkey, if_neg fun h => hobject (Option.some.inj h),
    if_neg fun h => hpart (Option.some.inj h)]

theorem find?_of_readRow_none {α : Type} {decode : Bytes → Except DecodeError α}
    (h : readRow rows key decode = .ok none) : rows.find? key = none := by
  rw [readRow] at h
  split at h
  · assumption
  · rename_i stored _
    cases hdecode : decode stored <;> simp [hdecode, decoded, Except.map] at h

theorem blobAt_of_loadObject {bucket objectKey : Bytes} {found : Option ObjectRecord}
    (h : loadObject rows (Keys.object bucket objectKey) objectKey = .ok found) :
    rows.blobAt (Keys.object bucket objectKey) = found.map fun object => object.blobId.items := by
  cases found with
  | none =>
      rw [Rows.blobAt, find?_of_readRow_none h]
      rfl
  | some object =>
      obtain ⟨stored, hfind, hdecode⟩ := decode_of_readRow h
      rw [Rows.blobAt, hfind, Option.bind_some, rowBlob_object]
      exact objectBlob_of_decodeObject hdecode

theorem blobAt_of_loadPart {uploadId : Bytes} {number : UInt32} {found : Option PartRecord}
    (h : loadPart rows uploadId number = .ok found) :
    rows.blobAt (Keys.part uploadId number) = found.map fun part => part.blobId.items := by
  cases found with
  | none =>
      rw [Rows.blobAt, find?_of_readRow_none h]
      rfl
  | some part =>
      obtain ⟨stored, hfind, hdecode⟩ := decode_of_readRow h
      rw [Rows.blobAt, hfind, Option.bind_some, rowBlob_part]
      exact partBlob_of_decodePart hdecode

end Decoding

/-! ### The parts of an upload -/

section Parts

variable {rows : Rows} {uploadId : Bytes} {parts : List PartRecord}

/-- Every row of a listing decodes, and what it decodes to is listed. -/
theorem readAll_decodes {α : Type} {decode : Bytes → Bytes → Except DecodeError (Option α)}
    {listed : List (Bytes × Bytes)} {entries : List α} (h : readAll decode listed = .ok entries)
    {row : Bytes × Bytes} (hrow : row ∈ listed) :
    ∃ found, decode row.1 row.2 = .ok found ∧ ∀ entry ∈ found, entry ∈ entries := by
  induction listed generalizing entries with
  | nil => cases hrow
  | cons first rest ih =>
      rw [readAll] at h
      obtain ⟨found, hfound, h⟩ := Except.bind_eq_ok_iff.mp h
      obtain ⟨others, hothers, h⟩ := Except.bind_eq_ok_iff.mp h
      obtain rfl := Except.pure_eq_ok_iff.mp h
      rcases List.mem_cons.mp hrow with rfl | hrest
      · refine ⟨found, ?_, fun entry hentry => List.mem_append_left _ (Option.mem_toList.mpr hentry)⟩
        cases hdecode : decode row.1 row.2 with
        | error error => simp [hdecode, decoded] at hfound
        | ok read => simpa [hdecode, decoded] using hfound
      · obtain ⟨read, hread, hmem⟩ := ih hothers hrest
        exact ⟨read, hread, fun entry hentry => List.mem_append_right _ (hmem entry hentry)⟩

/-- A part is listed under its own key. -/
theorem of_decodePartRow {key stored : Bytes} {part : PartRecord}
    (h : decodePartRow uploadId key stored = .ok (some part)) :
    key = Keys.part uploadId part.partNumber ∧ decodePart part.partNumber stored = .ok part := by
  rw [decodePartRow] at h
  split at h
  · cases h
  · rename_i number hnumber
    cases hpart : decodePart number stored with
    | error error => simp [hpart, Except.map] at h
    | ok found =>
        simp only [hpart, Except.map, Except.ok.injEq, Option.some.injEq] at h
        subst h
        rw [partNumber_of_decodePart hpart]
        exact ⟨Keys.partNumber_eq_some_iff.mp hnumber, hpart⟩

/-- A list of the parts is the rows under their keys: each names its part's
payload, and there is no other. -/
theorem blobAt_of_collectParts (h : collectParts rows uploadId = .ok parts) {part : PartRecord}
    (hpart : part ∈ parts) :
    rows.blobAt (Keys.part uploadId part.partNumber) = some part.blobId.items := by
  obtain ⟨row, hrow, hdecode⟩ := readAll_ok h part hpart
  obtain ⟨hkey, hread⟩ := of_decodePartRow hdecode
  have hfind := (rows.find?_eq_some_iff).mpr (Rows.mem_scan.mp hrow).1
  rw [Rows.blobAt, ← hkey, hfind, Option.bind_some, hkey, rowBlob_part]
  exact partBlob_of_decodePart hread

theorem exists_of_collectParts (h : collectParts rows uploadId = .ok parts) {number : UInt32}
    {blobId : Bytes} (hblob : rows.blobAt (Keys.part uploadId number) = some blobId) :
    ∃ part ∈ parts, part.partNumber = number ∧ part.blobId.items = blobId := by
  obtain ⟨stored, hfind, hnamed⟩ := Option.bind_eq_some_iff.mp hblob
  have hrow : (Keys.part uploadId number, stored) ∈ rows.scan (Keys.partPrefix uploadId) :=
    Rows.mem_scan.mpr ⟨(rows.find?_eq_some_iff).mp hfind, ⟨Keys.bigEndian32 number, rfl⟩⟩
  obtain ⟨found, hfound⟩ := readAll_decodes h hrow
  rw [decodePartRow, Keys.partNumber_part] at hfound
  cases hdecode : decodePart number stored with
  | error error => simp [hdecode, Except.map] at hfound
  | ok part =>
      simp only [hdecode, Except.map, Except.ok.injEq] at hfound
      obtain ⟨hdecodes, hmem⟩ := hfound
      subst hdecodes
      rw [rowBlob_part, partBlob_of_decodePart hdecode] at hnamed
      exact ⟨part, hmem part rfl, partNumber_of_decodePart hdecode, Option.some.inj hnamed⟩

/-- A listing keeps the order of its rows: where each entry is named by its row's
key, the names are some of the keys. -/
theorem sublist_of_readAll {α : Type} {decode : Bytes → Bytes → Except DecodeError (Option α)}
    {name : α → Bytes} {listed : List (Bytes × Bytes)} {entries : List α}
    (h : readAll decode listed = .ok entries)
    (hname : ∀ (row : Bytes × Bytes) entry, decode row.1 row.2 = .ok (some entry) → name entry = row.1) :
    (entries.map name).Sublist (listed.map Prod.fst) := by
  induction listed generalizing entries with
  | nil =>
      obtain rfl := Except.ok.inj h
      exact List.Sublist.refl []
  | cons row rest ih =>
      rw [readAll] at h
      obtain ⟨found, hfound, h⟩ := Except.bind_eq_ok_iff.mp h
      obtain ⟨others, hothers, h⟩ := Except.bind_eq_ok_iff.mp h
      obtain rfl := Except.pure_eq_ok_iff.mp h
      cases found with
      | none => exact (ih hothers).cons row.1
      | some entry =>
          have hdecode : decode row.1 row.2 = .ok (some entry) := by
            cases hread : decode row.1 row.2 with
            | error error => simp [hread, decoded] at hfound
            | ok read => simpa [hread, decoded] using hfound
          show (name entry :: others.map name).Sublist (row.1 :: rest.map Prod.fst)
          rw [hname row entry hdecode]
          exact (ih hothers).cons_cons row.1

/-- No part number is listed twice. -/
theorem nodup_of_collectParts (h : collectParts rows uploadId = .ok parts) :
    (parts.map fun part => Keys.part uploadId part.partNumber).Nodup := by
  have hkeys : ((rows.scan (Keys.partPrefix uploadId)).map Prod.fst).Nodup := by
    rw [Rows.scan_eq_filter]
    exact List.pairwise_map.mpr ((rows.ordered.filter _).imp fun hlt => hlt.ne)
  exact (sublist_of_readAll h fun row part hdecode => (of_decodePartRow hdecode).1.symm).nodup hkeys

end Parts

/-! ### Batches -/

section Batches

variable {rows : Rows} {key blobId : Bytes} {now : TimestampMs}

theorem blobAt_of_tag {tag : UInt8} (hkey : key.head? = some tag) (hobject : tag ≠ Keys.kObject)
    (hpart : tag ≠ Keys.kPart) : rows.blobAt key = none := by
  rw [Rows.blobAt]
  cases rows.find? key with
  | none => rfl
  | some stored => exact rowBlob_of_head? hkey hobject hpart

/-- Rows of other kinds come and go without a name changing. -/
theorem blobAt_write_of_tags {batch : WriteBatch}
    (h : ∀ op ∈ batch, ∃ tag, op.key.head? = some tag ∧ tag ≠ Keys.kObject ∧ tag ≠ Keys.kPart) :
    (rows.write batch).blobAt = rows.blobAt := by
  funext key
  by_cases hkey : ∃ op ∈ batch, op.key = key
  · obtain ⟨op, hop, rfl⟩ := hkey
    obtain ⟨tag, htag, hobject, hpart⟩ := h op hop
    rw [blobAt_of_tag htag hobject hpart, blobAt_of_tag htag hobject hpart]
  · rw [Rows.blobAt, Rows.find?_write_of_forall_ne, Rows.blobAt]
    exact fun op hop hsame => hkey ⟨op, hop, hsame⟩

/-- Rows of other kinds come and go without a marker changing. -/
theorem queuedAt_write_of_tags {batch : WriteBatch}
    (h : ∀ op ∈ batch, op.key.head? ≠ some Keys.kOrphan) :
    (rows.write batch).queuedAt = rows.queuedAt := by
  funext blobId
  rw [Rows.queuedAt, Rows.find?_write_of_forall_ne, Rows.queuedAt]
  intro op hop hsame
  apply h op hop
  rw [hsame]
  rfl

theorem blobAt_orphanRow : (rows.apply (orphanRow blobId now)).blobAt = rows.blobAt := by
  have h : (rows.write [orphanRow blobId now]).blobAt = rows.blobAt :=
    blobAt_write_of_tags fun op hop => by
      rw [List.mem_singleton.mp hop]
      exact ⟨_, rfl, by decide, by decide⟩
  exact h

theorem blobAt_put (storedKey value : Bytes) :
    (rows.apply (.put storedKey value)).blobAt =
      Function.update rows.blobAt storedKey (rowBlob storedKey value) := by
  funext other
  rw [Rows.blobAt, Rows.find?_apply]
  show (if other = storedKey then some value else rows.find? other).bind (rowBlob other) = _
  by_cases hother : other = storedKey
  · rw [if_pos hother, hother, Function.update_self]
    rfl
  · rw [if_neg hother, Function.update_of_ne hother]
    rfl

theorem blobAt_delete (storedKey : Bytes) :
    (rows.apply (.delete storedKey)).blobAt = Function.update rows.blobAt storedKey none := by
  funext other
  rw [Rows.blobAt, Rows.find?_apply]
  show (if other = storedKey then none else rows.find? other).bind (rowBlob other) = _
  by_cases hother : other = storedKey
  · rw [if_pos hother, hother, Function.update_self]
    rfl
  · rw [if_neg hother, Function.update_of_ne hother]
    rfl

theorem blobAt_publishBatch {storedKey value : Bytes} {released : Option Bytes}
    (hvalue : rowBlob storedKey value = some blobId) :
    (rows.write (publishBatch storedKey value blobId released now)).blobAt =
      Function.update rows.blobAt storedKey (some blobId) := by
  have hmarkers : ∀ op ∈ RowOp.delete (Keys.orphan blobId) ::
      released.toList.map fun blobId => orphanRow blobId now,
      op.key.head? = some Keys.kOrphan := by
    intro op hop
    rcases List.mem_cons.mp hop with rfl | hrest
    · rfl
    · obtain ⟨other, -, rfl⟩ := List.mem_map.mp hrest
      rfl
  rw [publishBatch, List.cons_append, List.cons_append, List.nil_append, Rows.write_cons,
    blobAt_write_of_tags fun op hop => ⟨_, hmarkers op hop, by decide, by decide⟩, blobAt_put,
    hvalue]

theorem queuedAt_put_orphan (now : TimestampMs) (other : Bytes) :
    (rows.apply (orphanRow blobId now)).queuedAt other =
      if other = blobId then some now else rows.queuedAt other := by
  rw [Rows.queuedAt, Rows.find?_apply]
  show (if Keys.orphan other = Keys.orphan blobId then some (encodeOrphan now)
    else rows.find? (Keys.orphan other)).map decodeOrphanQueuedAt = _
  by_cases hother : other = blobId
  · rw [if_pos hother, if_pos (congrArg Keys.orphan hother), Option.map_some,
      decodeOrphanQueuedAt_encodeOrphan]
  · rw [if_neg hother, if_neg fun h : Keys.orphan other = Keys.orphan blobId => hother (List.cons.inj h).2]
    rfl

theorem queuedAt_delete_orphan (other : Bytes) :
    (rows.apply (.delete (Keys.orphan blobId))).queuedAt other =
      if other = blobId then none else rows.queuedAt other := by
  rw [Rows.queuedAt, Rows.find?_apply]
  show (if Keys.orphan other = Keys.orphan blobId then none
    else rows.find? (Keys.orphan other)).map decodeOrphanQueuedAt = _
  by_cases hother : other = blobId
  · rw [if_pos hother, if_pos (congrArg Keys.orphan hother)]
    rfl
  · rw [if_neg hother, if_neg fun h : Keys.orphan other = Keys.orphan blobId => hother (List.cons.inj h).2]
    rfl

theorem queuedAt_apply_of_tag {op : RowOp} (h : op.key.head? ≠ some Keys.kOrphan) :
    (rows.apply op).queuedAt = rows.queuedAt :=
  (queuedAt_write_of_tags fun other hother => by rwa [List.mem_singleton.mp hother] :
    (rows.write [op]).queuedAt = rows.queuedAt)

theorem queuedAt_publishBatch {storedKey value : Bytes} {released : Option Bytes}
    (hkey : storedKey.head? ≠ some Keys.kOrphan) (other : Bytes) :
    (rows.write (publishBatch storedKey value blobId released now)).queuedAt other =
      if released = some other then some now
      else if other = blobId then none
      else rows.queuedAt other := by
  have hput : (rows.apply (.put storedKey value)).queuedAt = rows.queuedAt :=
    queuedAt_apply_of_tag hkey
  rw [publishBatch]
  cases released with
  | none =>
      show ((rows.apply (.put storedKey value)).apply (.delete (Keys.orphan blobId))).queuedAt other =
        _
      rw [queuedAt_delete_orphan, hput]
      rfl
  | some old =>
      show (((rows.apply (.put storedKey value)).apply (.delete (Keys.orphan blobId))).apply
        (orphanRow old now)).queuedAt other = _
      rw [queuedAt_put_orphan, queuedAt_delete_orphan, hput]
      simp only [Option.some.injEq, eq_comm]

theorem blobAt_releasePartsBatch (uploadId : Bytes) (parts : List PartRecord) (key : Bytes) :
    (rows.write (releasePartsBatch uploadId parts now)).blobAt key =
      if key ∈ parts.map fun part => Keys.part uploadId part.partNumber then none
      else rows.blobAt key := by
  induction parts generalizing rows with
  | nil => simp [releasePartsBatch]
  | cons part rest ih =>
      have hfirst : ((rows.apply (.delete (Keys.part uploadId part.partNumber))).apply
          (orphanRow part.blobId.items now)).blobAt =
          Function.update rows.blobAt (Keys.part uploadId part.partNumber) none := by
        rw [← blobAt_delete]
        exact blobAt_orphanRow
      show (((rows.apply (.delete (Keys.part uploadId part.partNumber))).apply
        (orphanRow part.blobId.items now)).write (releasePartsBatch uploadId rest now)).blobAt key = _
      rw [ih, hfirst, List.map_cons]
      by_cases hrest : key ∈ rest.map fun part => Keys.part uploadId part.partNumber
      · rw [if_pos hrest, if_pos (List.mem_cons_of_mem _ hrest)]
      · rw [if_neg hrest]
        by_cases hkey : key = Keys.part uploadId part.partNumber
        · rw [if_pos (by rw [hkey]; exact List.mem_cons_self ..), hkey, Function.update_self]
        · rw [if_neg (by simp [hkey, hrest]), Function.update_of_ne hkey]

theorem queuedAt_releasePartsBatch (uploadId : Bytes) (parts : List PartRecord) (other : Bytes) :
    (rows.write (releasePartsBatch uploadId parts now)).queuedAt other =
      if other ∈ partBlobIds parts then some now else rows.queuedAt other := by
  induction parts generalizing rows with
  | nil => simp [releasePartsBatch, partBlobIds]
  | cons part rest ih =>
      have hdelete : (rows.apply (.delete (Keys.part uploadId part.partNumber))).queuedAt =
          rows.queuedAt := queuedAt_apply_of_tag (by decide : some Keys.kPart ≠ some Keys.kOrphan)
      show (((rows.apply (.delete (Keys.part uploadId part.partNumber))).apply
        (orphanRow part.blobId.items now)).write (releasePartsBatch uploadId rest now)).queuedAt
          other = _
      have hblobs : partBlobIds (part :: rest) = part.blobId.items :: partBlobIds rest := rfl
      rw [ih, queuedAt_put_orphan, hdelete, hblobs]
      by_cases hrest : other ∈ partBlobIds rest
      · rw [if_pos hrest, if_pos (List.mem_cons_of_mem _ hrest)]
      · rw [if_neg hrest]
        by_cases hother : other = part.blobId.items
        · rw [if_pos hother, if_pos (by rw [hother]; exact List.mem_cons_self ..)]
        · rw [if_neg hother, if_neg]
          exact fun hmem => (List.mem_cons.mp hmem).elim hother hrest

/-- What forgetting markers writes. -/
theorem queuedAt_forget (blobIds : List Bytes) (other : Bytes) :
    (rows.write (blobIds.map fun blobId => .delete (Keys.orphan blobId))).queuedAt other =
      if other ∈ blobIds then none else rows.queuedAt other := by
  induction blobIds generalizing rows with
  | nil => simp
  | cons blobId rest ih =>
      rw [List.map_cons, Rows.write_cons, ih, queuedAt_delete_orphan]
      by_cases hrest : other ∈ rest
      · rw [if_pos hrest, if_pos (List.mem_cons_of_mem _ hrest)]
      · rw [if_neg hrest]
        exact if_congr (by simp [hrest]) rfl rfl

theorem blobAt_forget (blobIds : List Bytes) :
    (rows.write (blobIds.map fun blobId => .delete (Keys.orphan blobId))).blobAt = rows.blobAt := by
  refine blobAt_write_of_tags fun op hop => ?_
  obtain ⟨blobId, -, rfl⟩ := List.mem_map.mp hop
  exact ⟨_, rfl, by decide, by decide⟩

/-- What is listed is marked, no later than the cutoff. -/
theorem queuedAt_of_mem_listOrphans {limit : Nat} {cutoff : TimestampMs}
    (h : blobId ∈ listOrphans rows limit cutoff) :
    ∃ queuedAt, rows.queuedAt blobId = some queuedAt ∧ ¬ cutoff < queuedAt := by
  obtain ⟨row, hrow, hblobId⟩ := List.mem_map.mp h
  obtain ⟨hscan, hdue⟩ := List.mem_filter.mp (List.mem_of_mem_take hrow)
  obtain ⟨hentry, rest, hkey⟩ := Rows.mem_scan.mp hscan
  have hrest : row.1 = Keys.orphan blobId := by
    rw [← hkey] at hblobId ⊢
    rw [← hblobId]
    rfl
  refine ⟨decodeOrphanQueuedAt row.2, ?_, of_decide_eq_true hdue⟩
  rw [Rows.queuedAt, ← hrest, rows.find?_eq_some_iff.mpr hentry]
  rfl

theorem marked_of_mem_listOrphans {limit : Nat} {cutoff : TimestampMs}
    (h : blobId ∈ listOrphans rows limit cutoff) : rows.queuedAt blobId ≠ none := by
  obtain ⟨queuedAt, hqueued, -⟩ := queuedAt_of_mem_listOrphans h
  rw [hqueued]
  exact Option.some_ne_none queuedAt

/-- A limit above the number of rows leaves no marker out. -/
theorem listOrphans_of_length_le {limit : Nat} (hlimit : rows.entries.length ≤ limit)
    (cutoff : TimestampMs) :
    listOrphans rows limit cutoff = ((rows.scan Keys.orphanPrefix).filter fun row =>
      ¬ cutoff < decodeOrphanQueuedAt row.2).map fun row => row.1.drop Keys.orphanPrefix.length := by
  have hshort : ((rows.scan Keys.orphanPrefix).filter fun row =>
      ¬ cutoff < decodeOrphanQueuedAt row.2).length ≤ limit := by
    refine (List.length_filter_le _ _).trans (le_trans ?_ hlimit)
    rw [rows.scan_eq_filter]
    exact List.length_filter_le _ _
  rw [listOrphans, List.take_of_length_le hshort]

theorem mem_listOrphans_of_queuedAt {limit : Nat} {cutoff queuedAt : TimestampMs}
    (hlimit : rows.entries.length ≤ limit) (hqueued : rows.queuedAt blobId = some queuedAt)
    (hdue : ¬ cutoff < queuedAt) : blobId ∈ listOrphans rows limit cutoff := by
  obtain ⟨stored, hfind, rfl⟩ := Option.map_eq_some_iff.mp hqueued
  rw [listOrphans_of_length_le hlimit]
  refine List.mem_map.mpr ⟨(Keys.orphan blobId, stored), ?_, rfl⟩
  refine List.mem_filter.mpr ⟨?_, decide_eq_true hdue⟩
  exact Rows.mem_scan.mpr ⟨rows.find?_eq_some_iff.mp hfind, blobId, rfl⟩

end Batches

end MonoBucket

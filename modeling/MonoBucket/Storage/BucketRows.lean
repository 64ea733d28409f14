/-
What the bucket rows say

A property of bucket records holds of the rows when every bucket row is the
encoding of a record of that name with the property. The engine's operations on
buckets write nothing but the record they changed, so a relation every row is in
is kept when that record's row is in it.
-/

import MonoBucket.Lib.Checked
import MonoBucket.Storage.StorageEngine

namespace MonoBucket

open Codec

theorem Keys.bucket_injective {first second : Bytes} (h : Keys.bucket first = Keys.bucket second) :
    first = second := (List.cons.inj h).2

/-- A bucket row is the encoding of a record the property holds of. -/
def BucketRow (P : BucketRecord → Prop) (key stored : Bytes) : Prop :=
  ∀ name, key = Keys.bucket name →
    ∃ bucket : BucketRecord, bucket.name = name ∧ stored = encodeBucket bucket ∧ P bucket

/-- Every bucket row is the encoding of a record the property holds of. -/
abbrev BucketRows (P : BucketRecord → Prop) (rows : Rows) : Prop := rows.Holds (BucketRow P)

theorem BucketRow.encodeBucket {P : BucketRecord → Prop} (bucket : BucketRecord) (h : P bucket) :
    BucketRow P (Keys.bucket bucket.name) (encodeBucket bucket) :=
  fun _ hname => ⟨bucket, Keys.bucket_injective hname, rfl, h⟩

/-- A read that finds a record decoded the row that is there. -/
theorem decodeBucket_of_load {rows : Rows} {name stored : Bytes} {read : BucketRecord}
    (hfind : rows.find? (Keys.bucket name) = some stored)
    (h : loadBucket rows name = .ok (some read)) : decodeBucket name stored = .ok read := by
  obtain ⟨found, hfound, hread⟩ := decode_of_readRow h
  rw [hfind] at hfound
  rwa [← Option.some.inj hfound] at hread

namespace BucketRows

variable {P : BucketRecord → Prop} {rows next : Rows}

/-- Bucket rows that are gone or unchanged. -/
theorem of_find? (hrows : BucketRows P rows)
    (hnext : ∀ name stored, next.find? (Keys.bucket name) = some stored →
      rows.find? (Keys.bucket name) = some stored) : BucketRows P next := by
  rintro key stored hfind name rfl
  exact hrows _ stored (hnext name stored hfind) name rfl

/-- The record a read gives back is the one that was written, with its CORS
rules normalised. -/
theorem load (hrows : BucketRows P rows) {name : Bytes} {read : BucketRecord}
    (h : loadBucket rows name = .ok (some read)) :
    ∃ bucket : BucketRecord, P bucket ∧ bucket.name = name ∧
      read = { bucket with cors := bucket.cors.map CorsRule.reread } := by
  obtain ⟨stored, hfind, hread⟩ := decode_of_readRow h
  obtain ⟨bucket, rfl, rfl, hbucket⟩ := hrows _ stored hfind name rfl
  exact ⟨bucket, hbucket, rfl, eq_of_decodeBucket_encodeBucket hread⟩

end BucketRows

theorem readAll_ok {α : Type} {decode : Bytes → Bytes → Except DecodeError (Option α)}
    {listed : List (Bytes × Bytes)} {entries : List α} (h : readAll decode listed = .ok entries) :
    ∀ entry ∈ entries, ∃ row ∈ listed, decode row.1 row.2 = .ok (some entry) := by
  induction listed generalizing entries with
  | nil =>
      cases h
      simp
  | cons row rest ih =>
      rw [readAll] at h
      obtain ⟨first, hfirst, h⟩ := Except.bind_eq_ok_iff.mp h
      obtain ⟨others, hothers, h⟩ := Except.bind_eq_ok_iff.mp h
      obtain rfl := Except.pure_eq_ok_iff.mp h
      intro entry hentry
      rcases List.mem_append.mp hentry with hhead | hrest
      · obtain rfl := Option.mem_toList.mp hhead
        refine ⟨row, List.mem_cons_self .., ?_⟩
        cases hdecode : decode row.1 row.2 with
        | error error => simp [hdecode, decoded] at hfirst
        | ok found => simpa [hdecode, decoded] using hfirst
      · obtain ⟨other, hother, hdecode⟩ := ih hothers entry hrest
        exact ⟨other, List.mem_cons_of_mem _ hother, hdecode⟩

/-- Every listed bucket is one a point read finds under its name. -/
theorem mem_listBuckets {P : BucketRecord → Prop} {rows : Rows} (hrows : BucketRows P rows)
    {buckets : List BucketRecord} (h : listBuckets rows = .ok buckets) {read : BucketRecord}
    (hread : read ∈ buckets) : loadBucket rows read.name = .ok (some read) := by
  obtain ⟨row, hrow, hdecode⟩ := readAll_ok h read hread
  obtain ⟨hentry, hfront⟩ := Rows.mem_scan.mp hrow
  obtain ⟨name, hname⟩ := hfront
  have hfind := (rows.find?_eq_some_iff).mpr hentry
  have hkey : row.1 = Keys.bucket name := hname.symm
  rw [hkey] at hfind
  obtain ⟨bucket, hbucket, hstored, -⟩ := hrows _ row.2 hfind name rfl
  have hdrop : row.1.drop Keys.bucketPrefix.length = name := by rw [hkey]; rfl
  rw [behind, hdrop] at hdecode
  cases hresult : decodeBucket name row.2 with
  | error error => simp [hresult, Except.map] at hdecode
  | ok found =>
      simp only [hresult, Except.map, Except.ok.injEq, Option.some.injEq] at hdecode
      obtain rfl := hdecode
      have hfound : found.name = name := by
        rw [hstored, ← hbucket] at hresult
        rw [eq_of_decodeBucket_encodeBucket hresult, ← hbucket]
      rw [hfound, loadBucket, readRow, hfind]
      simp [hresult, decoded, Except.map]

/-! ### The engine's operations -/

namespace StorageEngine

variable {Q : Bytes → Bytes → Prop} {engine : StorageEngine} {name : Bytes}

theorem createBucket_ok {store next : MetadataStore} {bucket : BucketRecord}
    (h : MonoBucket.createBucket store bucket = .ok next) :
    next.rows = store.rows.write [.put (Keys.bucket bucket.name) (encodeBucket bucket)] := by
  rw [MonoBucket.createBucket] at h
  split at h
  · cases h
  · obtain rfl := Except.ok.inj h
    rfl

theorem updateBucket_ok {store next : MetadataStore} {bucket : BucketRecord}
    (h : updateBucket store bucket = .ok next) :
    next.rows = store.rows.write [.put (Keys.bucket bucket.name) (encodeBucket bucket)] := by
  rw [updateBucket] at h
  obtain ⟨found, -, h⟩ := Except.bind_eq_ok_iff.mp h
  cases found with
  | none => cases h
  | some _ =>
      obtain rfl := Except.pure_eq_ok_iff.mp h
      rfl

theorem deleteBucket_ok {store next : MetadataStore}
    (h : MonoBucket.deleteBucket store name = .ok next) :
    next.rows = store.rows.write [.delete (Keys.bucket name)] := by
  rw [MonoBucket.deleteBucket] at h
  obtain ⟨found, -, h⟩ := Except.bind_eq_ok_iff.mp h
  cases found with
  | none => cases h
  | some _ =>
      simp only [fail] at h
      split_ifs at h
      obtain rfl := Except.pure_eq_ok_iff.mp h
      rfl

/-- Writing one record keeps a relation its row is in. -/
theorem holds_put {rows : Rows} (hrows : rows.Holds Q) {bucket : BucketRecord}
    (hbucket : Q (Keys.bucket bucket.name) (encodeBucket bucket)) :
    (rows.write [.put (Keys.bucket bucket.name) (encodeBucket bucket)]).Holds Q := by
  apply hrows.write
  intro key value hput
  obtain ⟨rfl, rfl⟩ := RowOp.put.inj (List.mem_singleton.mp hput)
  exact hbucket

/-- Rewriting a record that is there writes the changed record. -/
theorem rewriteBucket_of_load {bucket : BucketRecord}
    (hload : loadBucket engine.metadata.rows name = .ok (some bucket))
    (change : BucketRecord → BucketRecord) (hname : (change bucket).name = name) :
    ∃ next, engine.rewriteBucket name change = (next, .ok ()) ∧
      next.metadata.rows = engine.metadata.rows.write
        [.put (Keys.bucket (change bucket).name) (encodeBucket (change bucket))] := by
  cases hupdate : updateBucket engine.metadata (change bucket) with
  | error error => simp [updateBucket, hname, hload, bind, Except.bind, pure, Except.pure] at hupdate
  | ok metadata =>
      exact ⟨{ engine with metadata := metadata }, by simp [rewriteBucket, hload, hupdate, commit],
        updateBucket_ok hupdate⟩

/-- Rewriting a record keeps every relation the changed record's row is in. -/
theorem holds_rewriteBucket (hrows : engine.metadata.rows.Holds Q)
    {change : BucketRecord → BucketRecord}
    (hchange : ∀ bucket, loadBucket engine.metadata.rows name = .ok (some bucket) →
      Q (Keys.bucket (change bucket).name) (encodeBucket (change bucket))) :
    (engine.rewriteBucket name change).1.metadata.rows.Holds Q := by
  rw [rewriteBucket]
  split
  · exact hrows
  · exact hrows
  · rename_i bucket hload
    cases hupdate : updateBucket engine.metadata (change bucket) with
    | error error => exact hrows
    | ok metadata =>
        rw [commit, updateBucket_ok hupdate]
        exact holds_put hrows (hchange bucket hload)

theorem holds_setBucketQuota (hrows : engine.metadata.rows.Holds Q) {quotaBytes : UInt64}
    (hchange : ∀ bucket, loadBucket engine.metadata.rows name = .ok (some bucket) →
      Q (Keys.bucket bucket.name) (encodeBucket { bucket with quotaBytes := quotaBytes })) :
    (engine.setBucketQuota name quotaBytes).1.metadata.rows.Holds Q := by
  rw [setBucketQuota]
  split
  · exact hrows
  · exact hrows
  · rename_i bucket hload
    split
    · exact hrows
    · split
      · rename_i metadata hupdate
        rw [updateBucket_ok hupdate]
        exact holds_put hrows (hchange bucket hload)
      · split <;> exact hrows

theorem holds_createBucket (hrows : engine.metadata.rows.Holds Q) {quotaBytes : UInt64}
    {now : TimestampMs}
    (hnew : Q (Keys.bucket name)
      (encodeBucket { name := name, createdAt := now, quotaBytes := quotaBytes })) :
    (engine.createBucket name quotaBytes now).1.metadata.rows.Holds Q := by
  rw [createBucket]
  split
  · exact hrows
  · dsimp only
    split
    · exact hrows
    · rename_i metadata hcreate
      rw [createBucket_ok hcreate]
      exact holds_put hrows hnew

theorem holds_deleteBucket (hrows : engine.metadata.rows.Holds Q) :
    (engine.deleteBucket name).1.metadata.rows.Holds Q := by
  rw [deleteBucket]
  split
  · exact hrows
  · rename_i metadata hdelete
    rw [deleteBucket_ok hdelete]
    exact hrows.write (by simp)

/-! ### The row a bucket operation writes -/

theorem name_of_loadBucket {rows : Rows} {bucket : BucketRecord}
    (h : loadBucket rows name = .ok (some bucket)) : bucket.name = name := by
  obtain ⟨stored, -, hdecode⟩ := decode_of_readRow h
  exact name_of_decodeBucket hdecode

/-- Rows that differ in one bucket's row at most. -/
abbrev OnlyBucket (name : Bytes) (before after : Rows) : Prop :=
  Rows.ChangedBy (fun op => op.key = Keys.bucket name) before after

/-- Rows that differ at most in the row of a bucket that was there. -/
abbrev Rewrites (name : Bytes) (before after : Rows) : Prop :=
  Rows.ChangedBy (fun op => op.key = Keys.bucket name ∧ (before.find? (Keys.bucket name)).isSome)
    before after

theorem Rewrites.isSome {before after : Rows} (h : Rewrites name before after)
    (hafter : (after.find? (Keys.bucket name)).isSome) :
    (before.find? (Keys.bucket name)).isSome := by
  obtain ⟨batch, rfl, hbatch⟩ := h
  cases batch with
  | nil => exact hafter
  | cons op rest => exact (hbatch op (List.mem_cons_self ..)).2

theorem Rewrites.trans {before middle after : Rows} (h : Rewrites name before middle)
    (hnext : Rewrites name middle after) : Rewrites name before after :=
  Rows.ChangedBy.trans h (hnext.mono fun _ hop => ⟨hop.1, h.isSome hop.2⟩)

theorem isSome_of_load {rows : Rows} {bucket : BucketRecord}
    (h : loadBucket rows name = .ok (some bucket)) : (rows.find? (Keys.bucket name)).isSome := by
  obtain ⟨stored, hfind, -⟩ := decode_of_readRow h
  rw [hfind]
  rfl

theorem rewrites_put {rows : Rows} {bucket changed : BucketRecord}
    (hload : loadBucket rows name = .ok (some bucket)) (hname : changed.name = bucket.name) :
    Rewrites name rows (rows.write [.put (Keys.bucket changed.name) (encodeBucket changed)]) := by
  refine .of_batch fun op hop => ?_
  obtain rfl := List.mem_singleton.mp hop
  refine ⟨?_, isSome_of_load hload⟩
  rw [← name_of_loadBucket hload, ← hname]
  rfl

theorem rewrites_rewriteBucket {change : BucketRecord → BucketRecord}
    (hname : ∀ bucket, (change bucket).name = bucket.name) :
    Rewrites name engine.metadata.rows (engine.rewriteBucket name change).1.metadata.rows := by
  rw [rewriteBucket]
  split
  · exact .refl _
  · exact .refl _
  · rename_i bucket hload
    cases hupdate : updateBucket engine.metadata (change bucket) with
    | error error => exact .refl _
    | ok metadata =>
        rw [commit, updateBucket_ok hupdate]
        exact rewrites_put hload (hname bucket)

theorem rewrites_setBucketQuota (quotaBytes : UInt64) :
    Rewrites name engine.metadata.rows
      (engine.setBucketQuota name quotaBytes).1.metadata.rows := by
  rw [setBucketQuota]
  split
  · exact .refl _
  · exact .refl _
  · rename_i bucket hload
    split
    · exact .refl _
    · split
      · rename_i metadata hupdate
        rw [updateBucket_ok hupdate]
        exact rewrites_put hload rfl
      · split <;> exact .refl _

theorem rewrites_deleteBucket :
    Rewrites name engine.metadata.rows (engine.deleteBucket name).1.metadata.rows := by
  rw [deleteBucket]
  split
  · exact .refl _
  · rename_i metadata hdelete
    rw [deleteBucket_ok hdelete]
    refine .of_batch fun op hop => ?_
    obtain rfl := List.mem_singleton.mp hop
    refine ⟨rfl, ?_⟩
    obtain ⟨found, hload, hdelete⟩ := Except.bind_eq_ok_iff.mp hdelete
    cases found with
    | none => cases hdelete
    | some bucket => exact isSome_of_load hload

theorem onlyBucket_createBucket (quotaBytes : UInt64) (now : TimestampMs) :
    OnlyBucket name engine.metadata.rows
      (engine.createBucket name quotaBytes now).1.metadata.rows := by
  rw [createBucket]
  split
  · exact .refl _
  · dsimp only
    split
    · exact .refl _
    · rename_i metadata hcreate
      rw [createBucket_ok hcreate]
      refine .of_batch fun op hop => ?_
      obtain rfl := List.mem_singleton.mp hop
      rfl

/-- Neither the version stamp, nor the upload limit, nor a marker is a bucket
row, so a start changes none. -/
theorem find?_bucket_start {options : EngineOptions} {now : TimestampMs} {rows : Rows}
    (h : start options now rows = .ok engine) (name : Bytes) :
    engine.metadata.rows.find? (Keys.bucket name) = rows.find? (Keys.bucket name) := by
  obtain ⟨⟨opened, charges⟩, hopen, h⟩ := Except.bind_eq_ok_iff.mp h
  obtain ⟨quotas, -, h⟩ := Except.bind_eq_ok_iff.mp h
  obtain ⟨⟨metadata, limit⟩, hlimit, h⟩ := Except.bind_eq_ok_iff.mp h
  obtain rfl := Except.pure_eq_ok_iff.mp h
  have hopened : opened.rows.find? (Keys.bucket name) = rows.find? (Keys.bucket name) := by
    obtain ⟨verified, hverify, hopen⟩ := Except.bind_eq_ok_iff.mp hopen
    obtain ⟨scan, -, hopen⟩ := Except.bind_eq_ok_iff.mp hopen
    obtain ⟨rfl, -⟩ := Prod.mk.inj (Except.pure_eq_ok_iff.mp hopen)
    rw [verifyFormatVersion] at hverify
    split at hverify
    · obtain rfl := Except.ok.inj hverify
      exact Rows.find?_write_of_forall_ne rows (by simp [RowOp.key, Keys.metaRow, Keys.bucket,
        Keys.tagged, Keys.kMeta, Keys.kBucket])
    · simp only [fail] at hverify
      split_ifs at hverify
      obtain rfl := Except.ok.inj hverify
      rfl
  have hlimited : metadata.rows.find? (Keys.bucket name) =
      opened.rows.find? (Keys.bucket name) := by
    obtain ⟨stored, -, hlimit⟩ := Except.bind_eq_ok_iff.mp hlimit
    dsimp only at hlimit
    split_ifs at hlimit
    · obtain ⟨rfl, -⟩ := Prod.mk.inj (Except.pure_eq_ok_iff.mp hlimit)
      rfl
    · obtain ⟨rfl, -⟩ := Prod.mk.inj (Except.pure_eq_ok_iff.mp hlimit)
      exact Rows.find?_write_of_forall_ne opened.rows (by simp [RowOp.key, Keys.metaRow,
        Keys.bucket, Keys.tagged, Keys.kMeta, Keys.kBucket])
  rw [← hopened, ← hlimited, recover, rows_forgetOrphans]
  apply Rows.find?_write_of_forall_ne
  intro op hop
  obtain ⟨blobId, -, rfl⟩ := List.mem_map.mp hop
  simp [RowOp.key, Keys.orphan, Keys.bucket, Keys.tagged, Keys.kOrphan, Keys.kBucket]

end StorageEngine

end MonoBucket

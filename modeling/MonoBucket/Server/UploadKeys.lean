/-
The index of uploads, over both front doors

Uploads are created under a key the validator accepts, in a bucket whose name is valid,
and under an id that is new. So the rows by key of a bucket are those of its uploads in
every state that is reached, and a listing of the uploads reads them all.
-/

import MonoBucket.Server.BucketIsolation
import MonoBucket.Storage.UploadMarkers

namespace MonoBucket.FrontDoors

open S3 Codec UploadPages

/-! ### Rows by key -/

/-- A row by key is that of an upload with a valid key and an id. -/
def KeyedRow (key _ : Bytes) : Prop :=
  key.head? = some Keys.kUploadByKey → ∃ upload, Plain upload ∧
    isValidObjectKey upload.key.items = true ∧ upload.uploadId ≠ [] ∧
    key = Keys.uploadByKey upload.bucket.items upload.key.items upload.uploadId

/-- The two rows of an upload name the same key, besides the same bucket. -/
structure Keyed (rows : Rows) : Prop where
  filed : Filed rows
  keyed : rows.Holds KeyedRow
  uploads : ∀ upload, Plain upload →
    (rows.find? (Keys.uploadByKey upload.bucket.items upload.key.items upload.uploadId)).isSome →
    ∀ found, loadUpload rows upload.uploadId = .ok (some found) →
      found.key.items = upload.key.items

/-- The console is asked for valid names, and a new upload has an id. -/
def NamesValid (server : Server) (label : Label) : Prop :=
  CreatesValid server label ∧ ∀ upload ∈ createdUpload label.2, upload.uploadId ≠ []

instance (server : Server) (label : Label) : Decidable (NamesValid server label) :=
  inferInstanceAs (Decidable (_ ∧ ∀ upload ∈ createdUpload label.2, _))

section Steps

variable {config : ServerConfig} {server : Server} {request : Request} {ticks : Int64}

theorem separator_notMem_of_isValidObjectKey {key : Bytes} (h : isValidObjectKey key = true) :
    Keys.separator ∉ key := by
  simp only [isValidObjectKey, Bool.and_eq_true, List.all_eq_true] at h
  intro hmem
  have hcontrol := h.2 _ hmem
  exact absurd hcontrol (by decide)

theorem ne_nil_of_isValidObjectKey {key : Bytes} (h : isValidObjectKey key = true) : key ≠ [] := by
  rintro rfl
  exact absurd h (by decide)

/-- The rows agree in the key, as a row by key says it. -/
theorem key_of_uploadByKey {first second : UploadRecord} (hfirst : Plain first)
    (hsecond : Plain second)
    (h : Keys.uploadByKey first.bucket.items first.key.items first.uploadId =
      Keys.uploadByKey second.bucket.items second.key.items second.uploadId) :
    first.key.items = second.key.items := by
  obtain ⟨hbucket, -⟩ := uploadByKey_inj hfirst hsecond h
  have hparts : Keys.uploadKeyParts
      (Keys.uploadByKey second.bucket.items second.key.items second.uploadId)
      second.bucket.items = some ⟨second.key.items, second.uploadId⟩ :=
    Keys.uploadKeyParts_uploadByKey hsecond.2
  rw [← h, ← hbucket, Keys.uploadKeyParts_uploadByKey hfirst.2] at hparts
  exact (Keys.UploadKeyParts.mk.inj (Option.some.inj hparts)).1

/-- The upload a request creates has a valid key. -/
theorem valid_of_stores {rows : Rows} {upload : UploadRecord}
    (h : Stores rows request (.upload upload)) : isValidObjectKey upload.key.items = true := by
  cases request with
  | createMultipartUpload created =>
      obtain ⟨hupload, hvalid⟩ := h
      rw [Stored.upload.inj hupload]
      exact hvalid
  | putObject bucket object declared now => cases h.1
  | completeMultipartUpload bucket key uploadId requested assembled now =>
      obtain ⟨found, -, hobject⟩ := h
      cases hobject
  | consoleUpload bucket object now => cases h.1
  | _ => cases h

/-- A row a request puts by key is that of the upload it creates. -/
theorem keyedRow_of_writes (hfiled : Filed server.engine.metadata.rows) (hfresh : Fresh server request)
    (hids : ∀ upload ∈ createdUpload request, upload.uploadId ≠ []) {key value : Bytes}
    (h : Writes server.engine.metadata.rows request (.put key value)) : KeyedRow key value := by
  intro hkey
  obtain ⟨upload, hupload, hplain, hstores, hrow⟩ := created_of_put_uploadKey hfiled hfresh hkey h
  exact ⟨upload, hplain, valid_of_stores hstores, hids upload hupload, hrow⟩

/-- One request keeps the rows by key those of uploads. -/
theorem Keyed.perform (hkeyed : Keyed server.engine.metadata.rows) (hfresh : Fresh server request)
    (hguard : NamesValid server (ticks, request)) :
    Keyed (FrontDoors.perform config ticks server request).1.engine.metadata.rows := by
  have hchanged := writes_perform config ticks server request
  refine ⟨hkeyed.filed.perform hfresh hguard.1, hchanged.holds hkeyed.keyed fun _ _ hput =>
    keyedRow_of_writes hkeyed.filed hfresh hguard.2 hput, fun upload hplain hkey found hload => ?_⟩
  exact agree_of_changedBy (fun upload => upload.key.items)
    (fun _ _ hfirst hsecond => key_of_uploadByKey hfirst hsecond) hkeyed.filed hfresh hchanged hplain
    (hkeyed.uploads upload hplain · found ·) hkey hload

end Steps

/-! ### The index -/

/-- A row by id that is there is loaded. -/
theorem Filed.loadUpload_eq {rows : Rows} (hfiled : Filed rows) (uploadId : Bytes) :
    loadUpload rows uploadId = .ok none ∨
      ∃ found, loadUpload rows uploadId = .ok (some found) ∧ found.uploadId = uploadId := by
  cases hfind : rows.find? (Keys.uploadById uploadId) with
  | none =>
      left
      rw [loadUpload, readRow, hfind]
  | some stored =>
      obtain ⟨upload, -, hkey, rfl⟩ := (hfiled.filed _ stored hfind).upload rfl
      obtain rfl : uploadId = upload.uploadId := (List.cons.inj hkey).2
      exact .inr ⟨upload, readRow_of_find? hfind (decodeUpload_encodeUpload upload), rfl⟩

theorem Keyed.uploadIndex {rows : Rows} (h : Keyed rows) {name : Bytes}
    (hname : (rows.find? (Keys.bucket name)).isSome) : UploadIndex rows name := by
  have hplainName := h.filed.separator_notMem hname
  intro row hrow
  obtain ⟨hmem, hfront⟩ := Rows.mem_scan.mp hrow
  obtain ⟨upload, hplain, hvalid, hid, hkey⟩ :=
    h.keyed.of_mem hmem (head?_of_uploadByKeyPrefix hfront)
  obtain rfl : name = upload.bucket.items := by
    refine eq_of_uploadByKeyPrefix hplainName hplain.1 hfront ?_
    rw [hkey]
    exact uploadByKeyPrefix_isPrefix ..
  have hpresent : (rows.find?
      (Keys.uploadByKey upload.bucket.items upload.key.items upload.uploadId)).isSome := by
    rw [← hkey, rows.find?_eq_some_iff.mpr hmem]
    rfl
  refine ⟨⟨upload.key.items, upload.uploadId⟩, ?_⟩
  rcases h.filed.loadUpload_eq upload.uploadId with hgone | ⟨found, hload, hfound⟩
  · exact ⟨none, ⟨hkey, ne_nil_of_isValidObjectKey hvalid,
      separator_notMem_of_isValidObjectKey hvalid, hplain.2, hgone, fun _ h => nomatch h⟩, hid⟩
  · refine ⟨some found, ⟨hkey, ne_nil_of_isValidObjectKey hvalid,
      separator_notMem_of_isValidObjectKey hvalid, hplain.2, hload, fun other hother => ?_⟩, hid⟩
    cases hother
    exact ⟨h.uploads upload hplain hpresent found hload, hfound⟩

/-- In every state reached from an empty store the rows by key of a bucket are those of
its uploads. -/
theorem uploadIndex_of_run {config : ServerConfig} {start final : Server} {labels : List Label}
    (hempty : start.engine.metadata.rows = .empty)
    (hvalid : Trace.Every (step config) NamesValid start labels)
    (hrun : Trace.run (step config) start labels = some final) {name : Bytes}
    (hname : (final.engine.metadata.rows.find? (Keys.bucket name)).isSome) :
    UploadIndex final.engine.metadata.rows name := by
  have hstart : Keyed start.engine.metadata.rows := by
    rw [hempty]
    refine ⟨⟨fun _ hpresent => ?_, Rows.Holds.empty, fun _ _ hpresent => ?_⟩, Rows.Holds.empty,
      fun _ _ hpresent => ?_⟩
    all_goals cases hpresent
  have hfinal : Keyed final.engine.metadata.rows := by
    apply hvalid.run_invariant ?_ hstart hrun
    intro server label next hkeyed hguard hstep
    simp only [step] at hstep
    split_ifs at hstep with hfresh
    obtain rfl := Option.some.inj hstep
    exact hkeyed.perform hfresh hguard
  exact hfinal.uploadIndex hname

end MonoBucket.FrontDoors

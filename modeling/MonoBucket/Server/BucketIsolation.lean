/-
Buckets kept apart

Rows of a bucket's objects and uploads start with its name and a separator, so
two buckets are kept apart as long as no name holds a separator. The S3 door
makes buckets under valid names only, and those do not; the console makes a
bucket under any name it is given. While every name the console is given is
valid, what is reported about one bucket is the same before and after a request
on another, and comes from rows of no other bucket.
-/

import MonoBucket.Server.FrontDoors
import MonoBucket.Storage.BucketView

namespace MonoBucket.FrontDoors

open S3 Codec

/-! ### Rows in order -/

/-- The bucket and the id of an upload can be read off its row keys. -/
def Plain (upload : UploadRecord) : Prop :=
  Keys.separator ∉ upload.bucket.items ∧ Keys.separator ∉ upload.uploadId

/-- Rows of objects, parts and uploads are encodings, and those of an upload are
under its own bucket and id. -/
structure FiledRow (key stored : Bytes) : Prop where
  object : key.head? = some Keys.kObject → ∃ object : ObjectRecord, stored = encodeObject object
  part : key.head? = some Keys.kPart → ∃ part : PartRecord, stored = encodePart part
  upload : key.head? = some Keys.kUploadById → ∃ upload, Plain upload ∧
    key = Keys.uploadById upload.uploadId ∧ stored = encodeUpload upload
  uploadKey : key.head? = some Keys.kUploadByKey → ∃ upload, Plain upload ∧
    key = Keys.uploadByKey upload.bucket.items upload.key.items upload.uploadId

/-- Buckets under valid names, and rows that say where they belong: the two rows
of an upload name the same bucket. -/
structure Filed (rows : Rows) : Prop where
  names : ∀ name, (rows.find? (Keys.bucket name)).isSome → isValidBucketName name = true
  filed : rows.Holds FiledRow
  uploads : ∀ upload, Plain upload →
    (rows.find? (Keys.uploadByKey upload.bucket.items upload.key.items upload.uploadId)).isSome →
    ∀ found, loadUpload rows upload.uploadId = .ok (some found) →
      found.bucket.items = upload.bucket.items

/-- What the console is asked to create. -/
def consoleCreated : Request → Option Bytes
  | .consoleCreateBucket name quotaBytes _ => if name = [] ∨ quotaBytes = 0 then none else some name
  | _ => none

/-- The console is asked for valid names only. -/
def CreatesValid (_ : Server) (label : Label) : Prop :=
  ∀ name ∈ consoleCreated label.2, isValidBucketName name = true

instance (server : Server) (label : Label) : Decidable (CreatesValid server label) :=
  inferInstanceAs (Decidable (∀ name ∈ consoleCreated label.2, _))

/-- Nothing reported about a bucket has changed. -/
structure SameReports (before after : Rows) (name : Bytes) : Prop where
  listings : SameListings before after name
  usage : bucketUsage after name = bucketUsage before name

/-- Every stored name is valid, no key is in the range of two stored buckets, a
request on one bucket changes nothing reported about another, and what is listed
about one does not depend on the rows of the others. -/
structure Isolated (config : ServerConfig) (server : Server) : Prop where
  names : ∀ name, (server.engine.metadata.rows.find? (Keys.bucket name)).isSome →
    isValidBucketName name = true
  ranges : ∀ first second,
    (server.engine.metadata.rows.find? (Keys.bucket first)).isSome →
    (server.engine.metadata.rows.find? (Keys.bucket second)).isSome → first ≠ second →
    ∀ key, InRange first key → ¬ InRange second key
  frame : ∀ name label next,
    (server.engine.metadata.rows.find? (Keys.bucket name)).isSome →
    subject server.engine.metadata.rows label.2 ≠ some name →
    step config server label = some next →
    SameReports server.engine.metadata.rows next.engine.metadata.rows name
  reads : ∀ name (altered : Rows),
    (server.engine.metadata.rows.find? (Keys.bucket name)).isSome →
    (∀ key, (∀ other, (server.engine.metadata.rows.find? (Keys.bucket other)).isSome →
        other ≠ name → ¬ RowOf server.engine.metadata.rows other key) →
      altered.find? key = server.engine.metadata.rows.find? key) →
    SameListings server.engine.metadata.rows altered name

/-! ### Where a row belongs -/

section Filing

variable {rows : Rows} {name other key uploadId : Bytes}

theorem Filed.separator_notMem (h : Filed rows)
    (hname : (rows.find? (Keys.bucket name)).isSome) : Keys.separator ∉ name :=
  separator_notMem_of_isValidBucketName (h.names name hname)

/-- An upload that is loaded says which bucket and id its rows are under. -/
theorem plain_of_loadUpload (hrows : rows.Holds FiledRow) {upload : UploadRecord}
    (h : loadUpload rows uploadId = .ok (some upload)) : Plain upload := by
  obtain ⟨stored, hfind, hdecode⟩ := decode_of_readRow h
  obtain ⟨written, hplain, hkey, rfl⟩ := (hrows _ stored hfind).upload rfl
  obtain rfl : uploadId = written.uploadId := (List.cons.inj hkey).2
  rw [decodeUpload_encodeUpload] at hdecode
  rwa [← Except.ok.inj hdecode]

/-- A row that parses under a bucket is that of an upload of the bucket. -/
theorem exists_of_uploadKeyParts (hrows : rows.Holds FiledRow) (hname : Keys.separator ∉ name)
    {row : Bytes × Bytes} {parts : Keys.UploadKeyParts} (hrow : row ∈ rows.entries)
    (hparts : Keys.uploadKeyParts row.1 name = some parts) :
    ∃ upload, Plain upload ∧ upload.bucket.items = name ∧ parts.uploadId = upload.uploadId ∧
      row.1 = Keys.uploadByKey upload.bucket.items upload.key.items upload.uploadId := by
  have hfront : Keys.uploadByKeyPrefix name <+: row.1 := by
    rw [Keys.uploadKeyParts] at hparts
    split at hparts
    · cases hparts
    · rename_i rest hrest
      exact ⟨rest, (Keys.afterPrefix_eq_some_iff.mp hrest).symm⟩
  obtain ⟨upload, hplain, hkey⟩ :=
    (hrows.of_mem hrow).uploadKey (head?_of_uploadByKeyPrefix hfront)
  have hown : Keys.uploadByKeyPrefix upload.bucket.items <+: row.1 := by
    rw [hkey, Keys.uploadByKey, List.append_assoc, List.append_assoc]
    exact List.prefix_append _ _
  obtain rfl := eq_of_uploadByKeyPrefix hname hplain.1 hfront hown
  rw [hkey, Keys.uploadKeyParts_uploadByKey hplain.2] at hparts
  obtain rfl := Option.some.inj hparts
  exact ⟨upload, hplain, rfl, rfl, hkey⟩

/-- The upload a row of a bucket's range names is of that bucket. -/
theorem Filed.eq_of_uploadIn (h : Filed rows) (hname : Keys.separator ∉ name)
    {row : Bytes × Bytes} {parts : Keys.UploadKeyParts} (hrow : row ∈ rows.entries)
    (hparts : Keys.uploadKeyParts row.1 name = some parts)
    (hupload : UploadIn rows other parts.uploadId) : other = name := by
  obtain ⟨upload, hplain, rfl, hid, hkey⟩ := exists_of_uploadKeyParts h.filed hname hrow hparts
  obtain ⟨found, hload, rfl⟩ := hupload
  rw [hid] at hload
  refine h.uploads upload hplain ?_ found hload
  rw [← hkey, (OrderedMap.find?_eq_some_iff rows).mpr hrow]
  rfl

/-- What is read about a bucket is no row of another. -/
theorem Filed.not_rowOf_of_reads (h : Filed rows) (hname : Keys.separator ∉ name)
    (hother : Keys.separator ∉ other) (hne : other ≠ name) (hreads : Reads rows name key) :
    ¬ RowOf rows other key := by
  intro hrow
  cases hrow with
  | bucket => exact hne (Reads.eq_of_bucket hreads)
  | range _ hrange => exact hne (hreads.eq_of_inRange hname hother hrange)
  | upload uploadId hupload =>
      obtain ⟨row, hrow, parts, hparts, rfl⟩ := Reads.exists_of_upload hreads
      exact hne (h.eq_of_uploadIn hname hrow hparts hupload)
  | part uploadId number hupload => exact Reads.not_of_tag rfl (by decide) hreads

end Filing

/-! ### Rows stay in order -/

section Steps

variable {config : ServerConfig} {server : Server} {request : Request} {ticks : Int64}
  {name key : Bytes} {op : RowOp}

theorem createdUpload_of_stores {rows : Rows} {upload : UploadRecord}
    (h : Stores rows request (.upload upload)) : upload ∈ createdUpload request := by
  cases request with
  | createMultipartUpload created =>
      obtain ⟨hupload, -⟩ := h
      rw [Stored.upload.inj hupload]
      rfl
  | putObject bucket object declared now => cases h.1
  | completeMultipartUpload bucket key uploadId requested assembled now =>
      obtain ⟨found, -, hobject⟩ := h
      cases hobject
  | consoleUpload bucket object now => cases h.1
  | _ => cases h

/-- An upload a request creates in a bucket that is there is plain. -/
theorem plain_of_created (hfiled : Filed server.engine.metadata.rows) (hfresh : Fresh server request)
    {upload : UploadRecord} (hname : upload.bucket.items = name)
    (hbucket : (server.engine.metadata.rows.find? (Keys.bucket name)).isSome)
    (hstores : Stores server.engine.metadata.rows request (.upload upload)) : Plain upload := by
  subst hname
  exact ⟨hfiled.separator_notMem hbucket, (hfresh upload (createdUpload_of_stores hstores)).1⟩

theorem filedRow_of_tag {stored : Bytes} {tag : UInt8} (hkey : key.head? = some tag)
    (htag : tag ∉ [Keys.kObject, Keys.kPart, Keys.kUploadById, Keys.kUploadByKey]) :
    FiledRow key stored := by
  simp only [List.mem_cons, List.not_mem_nil, or_false, not_or] at htag
  obtain ⟨hobject, hpart, hupload, huploadKey⟩ := htag
  have hne : ∀ {other : UInt8}, tag ≠ other → key.head? ≠ some other := fun hother h =>
    hother (Option.some.inj (hkey.symm.trans h))
  exact ⟨fun h => absurd h (hne hobject), fun h => absurd h (hne hpart),
    fun h => absurd h (hne hupload), fun h => absurd h (hne huploadKey)⟩

/-- A row a request puts says where it belongs. -/
theorem filedRow_of_writes (hfiled : Filed server.engine.metadata.rows)
    (hfresh : Fresh server request) {value : Bytes}
    (h : Writes server.engine.metadata.rows request (.put key value)) : FiledRow key value := by
  cases h with
  | bucketRow name hsubject hkey hknown =>
      obtain rfl : key = Keys.bucket name := hkey
      exact filedRow_of_tag rfl (by decide)
  | system tag hmem hkey =>
      have hdisjoint : ∀ tag ∈ systemTags,
          tag ∉ [Keys.kObject, Keys.kPart, Keys.kUploadById, Keys.kUploadByKey] := by decide
      exact filedRow_of_tag hkey (hdisjoint tag hmem)
  | touch name hsubject htouch =>
      have hne : ∀ {tag other : UInt8} {rest : Bytes}, tag ≠ other →
          (tag :: rest).head? = some other → False :=
        fun htag h => htag (Option.some.inj h)
      cases htouch with
      | marker _ blobId hkey =>
          obtain rfl : key = Keys.orphan blobId := hkey
          exact filedRow_of_tag rfl (by decide)
      | putObject object hbucket hstores =>
          refine ⟨fun _ => ⟨object, rfl⟩, fun h => ?_, fun h => ?_, fun h => ?_⟩
          · exact (hne (by decide) h).elim
          · exact (hne (by decide) h).elim
          · exact (hne (by decide) h).elim
      | putUpload upload hbucket hname hstores =>
          have hplain := plain_of_created hfiled hfresh hname hbucket hstores
          refine ⟨fun h => ?_, fun h => ?_, fun _ => ⟨upload, hplain, rfl, rfl⟩, fun h => ?_⟩
          · exact (hne (by decide) h).elim
          · exact (hne (by decide) h).elim
          · exact (hne (by decide) h).elim
      | putUploadKey upload hbucket hname hstores =>
          have hplain := plain_of_created hfiled hfresh hname hbucket hstores
          refine ⟨fun h => ?_, fun h => ?_, fun h => ?_, fun _ => ⟨upload, hplain, ?_⟩⟩
          · exact (hne (by decide) h).elim
          · exact (hne (by decide) h).elim
          · exact (hne (by decide) h).elim
          · rw [hname]
      | putPart part upload hload hname =>
          refine ⟨fun h => ?_, fun _ => ⟨part, rfl⟩, fun h => ?_, fun h => ?_⟩
          · exact (hne (by decide) h).elim
          · exact (hne (by decide) h).elim
          · exact (hne (by decide) h).elim

/-- A name a bucket row is put under is valid. -/
theorem valid_of_writes (hfiled : Filed server.engine.metadata.rows)
    (hvalid : CreatesValid server (ticks, request)) {value : Bytes}
    (h : Writes server.engine.metadata.rows request (.put (Keys.bucket name) value)) :
    isValidBucketName name = true := by
  generalize hop : RowOp.put (Keys.bucket name) value = op at h
  have hhead : op.key.head? = some Keys.kBucket := by rw [← hop]; rfl
  cases h with
  | bucketRow other hsubject hkey hknown =>
      obtain rfl : name = other := by
        rw [← hop] at hkey
        exact Keys.bucket_injective hkey
      rcases hknown with hpresent | hcreates
      · exact hfiled.names name hpresent
      · cases request with
        | createBucket other now => exact hcreates.1 ▸ hcreates.2
        | consoleCreateBucket other quotaBytes now =>
            obtain ⟨rfl, hname, hquota⟩ := hcreates
            exact hvalid name (by simp [consoleCreated, hname, hquota])
        | _ => cases hcreates
  | touch other hsubject htouch => exact absurd hhead htouch.head?_ne
  | system tag hmem hkey =>
      obtain rfl := Option.some.inj (hhead.symm.trans hkey)
      exact absurd hmem (by decide)

/-- A row of an upload by id is put by the request that creates the upload. -/
theorem created_of_put_upload {uploadId value : Bytes}
    (h : Writes server.engine.metadata.rows request (.put (Keys.uploadById uploadId) value)) :
    ∃ upload ∈ createdUpload request, uploadId = upload.uploadId ∧ value = encodeUpload upload := by
  generalize hop : RowOp.put (Keys.uploadById uploadId) value = op at h
  have hhead : op.key.head? = some Keys.kUploadById := by rw [← hop]; rfl
  have hne : ∀ {tag : UInt8}, op.key.head? = some tag → tag ≠ Keys.kUploadById → False :=
    fun htag hother => hother (Option.some.inj (htag.symm.trans hhead))
  cases h with
  | bucketRow name hsubject hkey hknown => exact (hne (by rw [hkey]; rfl) (by decide)).elim
  | system tag hmem hkey =>
      obtain rfl := Option.some.inj (hhead.symm.trans hkey)
      exact absurd hmem (by decide)
  | touch name hsubject htouch =>
      cases htouch with
      | marker _ blobId hkey => exact (hne (by rw [hkey]; rfl) (by decide)).elim
      | putObject object hbucket hstores => exact (hne rfl (by decide)).elim
      | putUploadKey upload hbucket hname hstores => exact (hne rfl (by decide)).elim
      | putPart part upload hload hname => exact (hne rfl (by decide)).elim
      | putUpload upload hbucket hname hstores =>
          obtain ⟨hkey, rfl⟩ := RowOp.put.inj hop
          exact ⟨upload, createdUpload_of_stores hstores, (List.cons.inj hkey).2, rfl⟩
      | _ => cases hop

/-- And so is its row by key. -/
theorem created_of_put_uploadKey (hfiled : Filed server.engine.metadata.rows)
    (hfresh : Fresh server request) {value : Bytes}
    (hkey : key.head? = some Keys.kUploadByKey)
    (h : Writes server.engine.metadata.rows request (.put key value)) :
    ∃ upload ∈ createdUpload request, Plain upload ∧
      Stores server.engine.metadata.rows request (.upload upload) ∧
      key = Keys.uploadByKey upload.bucket.items upload.key.items upload.uploadId := by
  generalize hop : RowOp.put key value = op at h
  have hhead : op.key.head? = some Keys.kUploadByKey := by rw [← hop]; exact hkey
  have hne : ∀ {tag : UInt8}, op.key.head? = some tag → tag ≠ Keys.kUploadByKey → False :=
    fun htag hother => hother (Option.some.inj (htag.symm.trans hhead))
  cases h with
  | bucketRow name hsubject hkey hknown => exact (hne (by rw [hkey]; rfl) (by decide)).elim
  | system tag hmem hkey =>
      obtain rfl := Option.some.inj (hhead.symm.trans hkey)
      exact absurd hmem (by decide)
  | touch name hsubject htouch =>
      cases htouch with
      | marker _ blobId hkey => exact (hne (by rw [hkey]; rfl) (by decide)).elim
      | putObject object hbucket hstores => exact (hne rfl (by decide)).elim
      | putUpload upload hbucket hname hstores => exact (hne rfl (by decide)).elim
      | putPart part upload hload hname => exact (hne rfl (by decide)).elim
      | putUploadKey upload hbucket hname hstores =>
          obtain ⟨rfl, -⟩ := RowOp.put.inj hop
          exact ⟨upload, createdUpload_of_stores hstores,
            plain_of_created hfiled hfresh hname hbucket hstores, hstores, by rw [hname]⟩
      | _ => cases hop

theorem uploadByKey_inj {first second : UploadRecord} (hfirst : Plain first) (hsecond : Plain second)
    (h : Keys.uploadByKey first.bucket.items first.key.items first.uploadId =
      Keys.uploadByKey second.bucket.items second.key.items second.uploadId) :
    first.bucket.items = second.bucket.items ∧ first.uploadId = second.uploadId := by
  have hfront : ∀ upload : UploadRecord, Keys.uploadByKeyPrefix upload.bucket.items <+:
      Keys.uploadByKey upload.bucket.items upload.key.items upload.uploadId := by
    intro upload
    rw [Keys.uploadByKey, List.append_assoc, List.append_assoc]
    exact List.prefix_append _ _
  have hbucket := eq_of_uploadByKeyPrefix hfirst.1 hsecond.1 (hfront first) (h ▸ hfront second)
  have hparts : Keys.uploadKeyParts
      (Keys.uploadByKey second.bucket.items second.key.items second.uploadId)
      second.bucket.items = some ⟨second.key.items, second.uploadId⟩ :=
    Keys.uploadKeyParts_uploadByKey hsecond.2
  rw [← h, ← hbucket, Keys.uploadKeyParts_uploadByKey hfirst.2] at hparts
  exact ⟨hbucket, (Keys.UploadKeyParts.mk.inj (Option.some.inj hparts)).2⟩

/-- The two rows of an upload are put by the request that creates it, under an id
no other upload has: where they agreed in something their key says, they still do. -/
theorem agree_of_changedBy {α : Type} (read : UploadRecord → α)
    (hread : ∀ first second, Plain first → Plain second →
      Keys.uploadByKey first.bucket.items first.key.items first.uploadId =
        Keys.uploadByKey second.bucket.items second.key.items second.uploadId →
      read first = read second)
    {after : Rows} (hfiled : Filed server.engine.metadata.rows)
    (hfresh : Fresh server request)
    (hchanged : Rows.ChangedBy (Writes server.engine.metadata.rows request)
      server.engine.metadata.rows after)
    {upload found : UploadRecord} (hplain : Plain upload)
    (hbefore : (server.engine.metadata.rows.find?
        (Keys.uploadByKey upload.bucket.items upload.key.items upload.uploadId)).isSome →
      loadUpload server.engine.metadata.rows upload.uploadId = .ok (some found) →
      read found = read upload)
    (hkey : (after.find?
      (Keys.uploadByKey upload.bucket.items upload.key.items upload.uploadId)).isSome)
    (hload : loadUpload after upload.uploadId = .ok (some found)) :
    read found = read upload := by
  obtain ⟨indexed, hindexed⟩ := Option.isSome_iff_exists.mp hkey
  obtain ⟨stored, hstored, hdecode⟩ := decode_of_readRow hload
  rcases hchanged.find?_or_put hindexed with hindexed | hput
  · rcases hchanged.find?_or_put hstored with hstored | hputId
    · refine hbefore (by rw [hindexed]; rfl) ?_
      exact readRow_of_find? hstored hdecode
    · -- The id was taken, so it is not the one of a new upload.
      obtain ⟨created, hcreated, hid, -⟩ := created_of_put_upload hputId
      have hunused := (hfresh created hcreated).2.2 _
        ((OrderedMap.find?_eq_some_iff _).mp hindexed) rfl
      refine absurd ?_ hunused
      rw [← hid]
      exact ⟨Keys.uploadByKeyPrefix upload.bucket.items ++ upload.key.items, by
        simp [Keys.uploadByKey]⟩
  · obtain ⟨created, hcreated, hplainCreated, -, hsame⟩ :=
      created_of_put_uploadKey hfiled hfresh rfl hput
    obtain ⟨-, hid⟩ := uploadByKey_inj hplain hplainCreated hsame
    rcases hchanged.find?_or_put hstored with hstored | hputId
    · have hunused := (hfresh created hcreated).2.1
      rw [← hid, hstored] at hunused
      cases hunused
    · obtain ⟨other, hother, -, rfl⟩ := created_of_put_upload hputId
      obtain rfl := Option.mem_unique hcreated hother
      rw [hid, decodeUpload_encodeUpload] at hdecode
      rw [← Except.ok.inj hdecode]
      exact hread created upload hplainCreated hplain hsame.symm

theorem Filed.uploads_of_changedBy {after : Rows} (hfiled : Filed server.engine.metadata.rows)
    (hfresh : Fresh server request)
    (hchanged : Rows.ChangedBy (Writes server.engine.metadata.rows request)
      server.engine.metadata.rows after)
    {upload found : UploadRecord} (hplain : Plain upload)
    (hkey : (after.find?
      (Keys.uploadByKey upload.bucket.items upload.key.items upload.uploadId)).isSome)
    (hload : loadUpload after upload.uploadId = .ok (some found)) :
    found.bucket.items = upload.bucket.items :=
  agree_of_changedBy (fun upload => upload.bucket.items)
    (fun _ _ hfirst hsecond hsame => (uploadByKey_inj hfirst hsecond hsame).1) hfiled hfresh hchanged
    hplain (hfiled.uploads upload hplain · found ·) hkey hload

/-- One request keeps the rows in order. -/
theorem Filed.perform (hfiled : Filed server.engine.metadata.rows) (hfresh : Fresh server request)
    (hvalid : CreatesValid server (ticks, request)) :
    Filed (FrontDoors.perform config ticks server request).1.engine.metadata.rows := by
  have hchanged := writes_perform config ticks server request
  refine ⟨fun name hpresent => ?_, hchanged.holds hfiled.filed fun _ _ hput =>
    filedRow_of_writes hfiled hfresh hput, fun upload hplain hkey found hload =>
    hfiled.uploads_of_changedBy hfresh hchanged hplain hkey hload⟩
  obtain ⟨stored, hfind⟩ := Option.isSome_iff_exists.mp hpresent
  rcases hchanged.find?_or_put hfind with hbefore | hput
  · exact hfiled.names name (by rw [hbefore]; rfl)
  · exact valid_of_writes hfiled hvalid hput

/-! ### Another bucket's requests -/

theorem subject_of_createdUpload {rows : Rows} {upload : UploadRecord}
    (h : upload ∈ createdUpload request) : subject rows request = some upload.bucket.items := by
  cases request with
  | createMultipartUpload created =>
      obtain rfl := Option.some.inj h
      rfl
  | _ => cases h

/-- No request on another bucket writes a row read about a bucket. -/
theorem not_reads_of_writes (hfiled : Filed server.engine.metadata.rows)
    (hfresh : Fresh server request)
    (hname : (server.engine.metadata.rows.find? (Keys.bucket name)).isSome)
    (hsubject : subject server.engine.metadata.rows request ≠ some name)
    (h : Writes server.engine.metadata.rows request op) :
    ¬ Reads server.engine.metadata.rows name op.key := by
  have hplain := hfiled.separator_notMem hname
  cases h with
  | bucketRow other hother hkey hknown =>
      intro hreads
      rw [hkey] at hreads
      exact hsubject (hreads.eq_of_bucket ▸ hother)
  | system tag hmem hkey =>
      have hdisjoint : ∀ tag ∈ systemTags,
          tag ∉ [Keys.kBucket, Keys.kObject, Keys.kUploadByKey, Keys.kUploadById] := by decide
      exact Reads.not_of_tag hkey (hdisjoint tag hmem)
  | touch other hother htouch =>
      have hne : other ≠ name := fun hequal => hsubject (hequal ▸ hother)
      have hrange : Keys.separator ∉ other → InRange other op.key →
          ¬ Reads server.engine.metadata.rows name op.key :=
        fun hplainOther hin hreads => hne (hreads.eq_of_inRange hplain hplainOther hin)
      cases htouch with
      | marker _ blobId hkey => exact Reads.not_of_tag (by rw [hkey]; rfl) (by decide)
      | putObject object hbucket hstores =>
          exact hrange (hfiled.separator_notMem hbucket) (Or.inl (List.prefix_append _ _))
      | dropObject key hbucket =>
          exact hrange (hfiled.separator_notMem hbucket) (Or.inl (List.prefix_append _ _))
      | putUploadKey upload hbucket hname hstores =>
          refine hrange (hfiled.separator_notMem hbucket) (Or.inr ?_)
          rw [RowOp.key, Keys.uploadByKey, List.append_assoc, List.append_assoc]
          exact List.prefix_append _ _
      | dropUploadKey upload hload hbucket =>
          refine hrange (hbucket ▸ (plain_of_loadUpload hfiled.filed hload).1) (Or.inr ?_)
          rw [RowOp.key, Keys.uploadByKey, List.append_assoc, List.append_assoc]
          exact List.prefix_append _ _
      | putUpload upload hbucket hname hstores =>
          intro hreads
          obtain ⟨row, hrow, parts, hparts, hid⟩ := Reads.exists_of_upload hreads
          obtain ⟨indexed, -, -, hindexed, hkey⟩ :=
            exists_of_uploadKeyParts hfiled.filed hplain hrow hparts
          refine (hfresh upload (createdUpload_of_stores hstores)).2.2 row hrow
            (by rw [hkey]; rfl) ?_
          rw [hkey, ← hid, hindexed]
          exact ⟨Keys.uploadByKeyPrefix indexed.bucket.items ++ indexed.key.items, by
            simp [Keys.uploadByKey]⟩
      | dropUpload upload hload hbucket =>
          intro hreads
          obtain ⟨row, hrow, parts, hparts, hid⟩ := Reads.exists_of_upload hreads
          exact hne (hfiled.eq_of_uploadIn hplain hrow hparts (hid ▸ ⟨upload, hload, hbucket⟩))
      | putPart part upload hload hbucket => exact Reads.not_of_tag rfl (by decide)
      | dropPart number upload hload hbucket => exact Reads.not_of_tag rfl (by decide)

theorem FiledRow.scannable {stored : Bytes} (h : FiledRow key stored) : Scannable key stored := by
  refine ⟨h.object, fun hkey => ?_, h.part⟩
  obtain ⟨upload, -, -, hstored⟩ := h.upload hkey
  exact ⟨upload, hstored⟩

/-- No request on another bucket writes a row the scan charges to a bucket. -/
theorem not_charged_of_writes (hfiled : Filed server.engine.metadata.rows)
    (hfresh : Fresh server request)
    (hsubject : subject server.engine.metadata.rows request ≠ some name)
    (h : Writes server.engine.metadata.rows request op) :
    charged name (fun uploadId => UploadIn server.engine.metadata.rows name uploadId) op.key =
      false := by
  cases h with
  | bucketRow other hother hkey hknown =>
      rw [hkey]
      exact decide_eq_false fun hequal => hsubject (hequal ▸ hother)
  | system tag hmem hkey =>
      have hdisjoint : ∀ tag ∈ systemTags,
          tag ∉ [Keys.kBucket, Keys.kUploadById, Keys.kPart, Keys.kObject] := by decide
      exact charged_of_tag hkey (hdisjoint tag hmem)
  | touch other hother htouch =>
      have hne : other ≠ name := fun hequal => hsubject (hequal ▸ hother)
      have hobject : Keys.separator ∉ other → ∀ key, charged name
          (fun uploadId => UploadIn server.engine.metadata.rows name uploadId)
          (Keys.object other key) = false := by
        intro hplain key
        rw [charged_object hplain]
        exact decide_eq_false hne
      have hupload : ∀ upload : UploadRecord,
          loadUpload server.engine.metadata.rows upload.uploadId = .ok (some upload) →
          upload.bucket.items = other →
          ¬ UploadIn server.engine.metadata.rows name upload.uploadId := by
        rintro upload hload rfl ⟨found, hfound, hname⟩
        rw [hload] at hfound
        rw [Option.some.inj (Except.ok.inj hfound)] at hne
        exact hne hname
      cases htouch with
      | marker _ blobId hkey => exact charged_of_tag (by rw [hkey]; rfl) (by decide)
      | putObject object hbucket hstores => exact hobject (hfiled.separator_notMem hbucket) _
      | dropObject key hbucket => exact hobject (hfiled.separator_notMem hbucket) _
      | putUploadKey upload hbucket hname hstores => exact charged_of_tag rfl (by decide)
      | dropUploadKey upload hload hbucket => exact charged_of_tag rfl (by decide)
      | putUpload upload hbucket hname hstores =>
          refine decide_eq_false fun ⟨found, hload, _⟩ => ?_
          obtain ⟨stored, hfind, -⟩ := decode_of_readRow hload
          rw [(hfresh upload (createdUpload_of_stores hstores)).2.1] at hfind
          cases hfind
      | dropUpload upload hload hbucket => exact decide_eq_false (hupload upload hload hbucket)
      | putPart part upload hload hbucket =>
          rw [RowOp.key, charged_part (plain_of_loadUpload hfiled.filed hload).2]
          exact decide_eq_false (hupload upload hload hbucket)
      | dropPart number upload hload hbucket =>
          rw [RowOp.key, charged_part (plain_of_loadUpload hfiled.filed hload).2]
          exact decide_eq_false (hupload upload hload hbucket)

/-- A request on another bucket changes nothing reported about a bucket. -/
theorem Filed.sameReports (hfiled : Filed server.engine.metadata.rows)
    (hfresh : Fresh server request)
    (hname : (server.engine.metadata.rows.find? (Keys.bucket name)).isSome)
    (hsubject : subject server.engine.metadata.rows request ≠ some name) :
    SameReports server.engine.metadata.rows
      (FrontDoors.perform config ticks server request).1.engine.metadata.rows name := by
  have hchanged := writes_perform config ticks server request
  have hafter : Rows.Holds FiledRow
      (FrontDoors.perform config ticks server request).1.engine.metadata.rows :=
    hchanged.holds hfiled.filed fun _ _ hput => filedRow_of_writes hfiled hfresh hput
  refine ⟨sameListings_of_reads fun key hreads => hchanged.find?_eq fun op hop hkey => ?_,
    bucketUsage_congr (fun key stored hfind => (hfiled.filed key stored hfind).scannable)
      (fun key stored hfind => (hafter key stored hfind).scannable) (fun key hcharged => ?_)
      fun uploadId ⟨upload, hload, hbucket⟩ => ?_⟩
  · exact not_reads_of_writes hfiled hfresh hname hsubject hop (hkey ▸ hreads)
  · refine hchanged.find?_eq fun op hop hkey => ?_
    have hnot := not_charged_of_writes hfiled hfresh hsubject hop
    rw [hkey, hcharged] at hnot
    cases hnot
  · obtain ⟨stored, hstored, hdecode⟩ := decode_of_readRow hload
    rcases hchanged.find?_or_put hstored with hbefore | hput
    · refine ⟨upload, ?_, hbucket⟩
      rw [loadUpload, readRow, hbefore]
      simp [hdecode, decoded, Except.map]
    · obtain ⟨created, hcreated, rfl, rfl⟩ := created_of_put_upload hput
      rw [decodeUpload_encodeUpload] at hdecode
      obtain rfl := Except.ok.inj hdecode
      exact absurd (hbucket ▸ subject_of_createdUpload hcreated) hsubject

theorem Filed.isolated (hfiled : Filed server.engine.metadata.rows) : Isolated config server where
  names := hfiled.names
  ranges first second hfirst hsecond hne key hin hother :=
    hne (hin.eq (hfiled.separator_notMem hfirst) (hfiled.separator_notMem hsecond) hother)
  frame name label next hname hsubject hstep := by
    simp only [step] at hstep
    split_ifs at hstep with hfresh
    obtain rfl := Option.some.inj hstep
    exact hfiled.sameReports hfresh hname hsubject
  reads name altered hname hagree := sameListings_of_reads fun key hreads =>
    hagree key fun other hother hne => hfiled.not_rowOf_of_reads (hfiled.separator_notMem hname)
      (hfiled.separator_notMem hother) hne hreads

end Steps

/-- Every row of a state reached from an empty store says where it belongs. -/
theorem filed_of_createsValid {config : ServerConfig} {start final : Server}
    {labels : List Label} (hempty : start.engine.metadata.rows = .empty)
    (hvalid : Trace.Every (step config) CreatesValid start labels)
    (hrun : Trace.run (step config) start labels = some final) :
    Filed final.engine.metadata.rows := by
  have hstart : Filed start.engine.metadata.rows := by
    rw [hempty]
    refine ⟨fun _ hpresent => ?_, Rows.Holds.empty, fun _ _ hpresent => ?_⟩
    · cases hpresent
    · cases hpresent
  apply hvalid.run_invariant ?_ hstart hrun
  intro server label next hfiled hguard hstep
  simp only [step] at hstep
  split_ifs at hstep with hfresh
  obtain rfl := Option.some.inj hstep
  exact hfiled.perform hfresh hguard

/-- Buckets are kept apart in every state reached from an empty store, as long as
the console is asked for valid names. -/
theorem isolated_of_createsValid {config : ServerConfig} {start final : Server}
    {labels : List Label} (hempty : start.engine.metadata.rows = .empty)
    (hvalid : Trace.Every (step config) CreatesValid start labels)
    (hrun : Trace.run (step config) start labels = some final) : Isolated config final :=
  (filed_of_createsValid hempty hvalid hrun).isolated

/-! ### Fixed runs -/

section Fixed

def albums : Bytes := ascii "albums"

/-- Two buckets with an object and an upload each, made through both doors. -/
def twoBuckets : List Label :=
  [(0, .createBucket photos 0), (0, .consoleCreateBucket albums 1000 0),
    (1, .consoleUpload albums { key := ascii "a", blobId := ⟨ascii "blob", fits_blob⟩ } 1),
    (2, .createMultipartUpload
      { uploadId := ascii "id", bucket := ⟨photos, by decide⟩, key := ⟨ascii "a", fits_a⟩ })]

theorem isolated_of_createsValid_twoBuckets :
    Isolated smallConfig (after smallConfig coldServer twoBuckets) := by
  have hruns : (Trace.run (step smallConfig) coldServer twoBuckets).isSome := by decide +kernel
  obtain ⟨final, hfinal⟩ := Option.isSome_iff_exists.mp hruns
  have hafter : after smallConfig coldServer twoBuckets = final := by rw [after, hfinal]; rfl
  rw [hafter]
  exact isolated_of_createsValid rfl (by decide +kernel) hfinal

/-- A name that starts with another and a separator. -/
def nested : Bytes := photos ++ [0] ++ ascii "raw"

/-- The console makes both buckets. -/
def nestedBuckets : List Label :=
  [(0, .consoleCreateBucket photos 1000 0), (0, .consoleCreateBucket nested 1000 0)]

/-- An upload into the nested one. -/
def nestedUpload : Label :=
  (1, .consoleUpload nested { key := ascii "a", blobId := ⟨ascii "blob", fits_blob⟩ } 1)

/-- The keys a listing of a bucket gives. -/
def listedKeys (server : Server) (name : Bytes) : Except StoreError (List Bytes) :=
  (listObjects server.engine.metadata.rows name {}).map fun page =>
    page.objects.map ObjectRecord.key

/-- The console makes a bucket under a name that is not valid, and what is put into
it shows up in the listing of another bucket. -/
theorem nested_bucket_not_isolated :
    isValidBucketName nested = false ∧
      ((after smallConfig coldServer nestedBuckets).engine.metadata.rows.find?
        (Keys.bucket nested)).isSome ∧
      listedKeys (after smallConfig coldServer nestedBuckets) photos = .ok [] ∧
      listedKeys (after smallConfig coldServer (nestedBuckets ++ [nestedUpload])) photos =
        .ok [ascii "raw" ++ [0] ++ ascii "a"] ∧
      ¬ Isolated smallConfig (after smallConfig coldServer nestedBuckets) := by
  have hinvalid : isValidBucketName nested = false := by decide +kernel
  have hstored : ((after smallConfig coldServer nestedBuckets).engine.metadata.rows.find?
      (Keys.bucket nested)).isSome := by decide +kernel
  refine ⟨hinvalid, hstored, by decide +kernel, by decide +kernel, fun hisolated => ?_⟩
  have hvalid := hisolated.names nested hstored
  rw [hinvalid] at hvalid
  cases hvalid

end Fixed

end MonoBucket.FrontDoors

/-
The consistency check

`fsck` reads every bucket's objects, uploads and parts page by page, keeps the first
row it meets of each payload, and walks the payload tree by file name. What it
gathers is put down here from the rows alone, in the order it meets them, and the
report is empty exactly when every file and every payload is as the check wants it.

The check of digests is not part of the model.
-/

import MonoBucket.Storage.Pagination
import MonoBucket.Storage.QuotaChange
import MonoBucket.Storage.UploadPages
import MonoBucket.Storage.UploadSweep

namespace MonoBucket

open Codec

/-! ### The payload tree -/

def hexDigit (byte : UInt8) : Bool :=
  letter '0' ≤ byte && byte ≤ letter '9' || letter 'a' ≤ byte && byte ≤ letter 'f'

def isValidBlobId (blobId : Bytes) : Bool := blobId.length = 32 && blobId.all hexDigit

/-- A regular file under `objects/`. -/
structure TreeFile where
  directories : List Bytes
  name : Bytes
  size : UInt64
  modifiedMs : Int
  deriving DecidableEq

def TreeFile.path (file : TreeFile) : List Bytes := file.directories ++ [file.name]

/-- The files in the order the walk yields them. No two have one path. -/
structure FileTree where
  files : List TreeFile
  distinct : (files.map TreeFile.path).Nodup

/-- The path under `objects/`, in two levels of directories. -/
def pathFor (blobId : Bytes) : Except StoreError (List Bytes) :=
  if isValidBlobId blobId then .ok [blobId.take 2, (blobId.drop 2).take 2, blobId]
  else fail .corruption (ascii "malformed blob id \x27" ++ blobId ++ ascii "\x27")

namespace Fsck

/-! ### The report -/

inductive Kind
  | missingPayload
  | sizeMismatch
  | unreferencedPayload
  | malformedName
  deriving DecidableEq

structure Finding where
  kind : Kind
  blobId : Bytes
  reference : Bytes
  detail : Bytes
  deriving DecidableEq

structure Report where
  findings : List Finding := []
  bucketsScanned : UInt64 := 0
  objectsScanned : UInt64 := 0
  partsScanned : UInt64 := 0
  filesScanned : UInt64 := 0
  leakedBytes : UInt64 := 0
  deriving DecidableEq

/-- `FsckOptions`, with digests not verified. -/
structure Options where
  unreferencedGraceMs : Int := 60 * 60 * 1000
  maxFindings : Nat := 1000
  deriving DecidableEq

def Report.note (report : Report) (options : Options) (finding : Finding) : Report :=
  if options.maxFindings ≤ report.findings.length then report
  else { report with findings := report.findings ++ [finding] }

/-! ### Every payload the rows claim -/

structure Reference where
  referrer : Bytes
  size : UInt64
  deriving DecidableEq

def objectReference (bucket : Bytes) (object : ObjectRecord) : Bytes × Reference :=
  (object.blobId.items, ⟨bucket ++ ascii "/" ++ object.key, object.size⟩)

def partReference (uploadId : Bytes) (part : PartRecord) : Bytes × Reference :=
  (part.blobId.items,
    ⟨ascii "upload " ++ uploadId ++ ascii " part " ++ decimal part.partNumber.toNat, part.size⟩)

/-- What has been read so far. A payload keeps its first reference. -/
structure Gathered where
  referenced : OrderedMap Bytes Reference := .empty
  bucketsScanned : UInt64 := 0
  objectsScanned : UInt64 := 0
  partsScanned : UInt64 := 0

def Gathered.object (bucket : Bytes) (gathered : Gathered) (object : ObjectRecord) : Gathered :=
  let reference := objectReference bucket object
  { gathered with
    referenced := gathered.referenced.emplace reference.1 reference.2
    objectsScanned := gathered.objectsScanned + 1 }

def Gathered.part (uploadId : Bytes) (gathered : Gathered) (part : PartRecord) : Gathered :=
  let reference := partReference uploadId part
  { gathered with
    referenced := gathered.referenced.emplace reference.1 reference.2
    partsScanned := gathered.partsScanned + 1 }

def gatherUploads (rows : Rows) : Gathered → List UploadRecord → Except StoreError Gathered
  | gathered, [] => pure gathered
  | gathered, upload :: rest => do
    let parts ← listParts rows upload.uploadId
    gatherUploads rows (parts.foldl (Gathered.part upload.uploadId) gathered) rest

/-- Nothing when `fuel` pages of a listing were not enough. -/
def gatherBuckets (rows : Rows) (fuel : Nat) :
    Gathered → List BucketRecord → Except StoreError (Option Gathered)
  | gathered, [] => pure (some gathered)
  | gathered, bucket :: rest => do
    match ← listPages rows bucket.name fuel { maxKeys := 1000 } with
    | none => pure none
    | some objectPages =>
      let gathered := (objectPages.flatMap ListObjectsResult.objects).foldl
        (Gathered.object bucket.name)
        { gathered with bucketsScanned := gathered.bucketsScanned + 1 }
      match ← uploadPages rows bucket.name fuel { maxUploads := 1000 } with
      | none => pure none
      | some uploadPages =>
        let gathered ← gatherUploads rows gathered
          (uploadPages.flatMap ListUploadsResult.uploads)
        gatherBuckets rows fuel gathered rest

/-! ### The walk -/

structure Walk where
  report : Report
  present : List Bytes := []

/-- One file of the tree. -/
def visit (options : Options) (referenced : OrderedMap Bytes Reference) (tracked : List Bytes)
    (youngerThan : Int) (walk : Walk) (file : TreeFile) : Walk :=
  if ¬ isValidBlobId file.name then
    { walk with
      report := walk.report.note options
        ⟨.malformedName, file.name, [], ascii "not a payload this store could have written"⟩ }
  else
    let walk := { walk with present := file.name :: walk.present }
    match referenced.find? file.name with
    | none =>
      if file.name ∈ tracked then walk
      else if youngerThan < file.modifiedMs then walk
      else
        { walk with
          report :=
            { walk.report with leakedBytes := walk.report.leakedBytes + file.size }.note options
              ⟨.unreferencedPayload, file.name, [],
                ascii "untracked and unreferenced, " ++ decimal file.size.toNat ++ ascii " bytes"⟩ }
    | some reference =>
      if file.size ≠ reference.size then
        { walk with
          report := walk.report.note options
            ⟨.sizeMismatch, file.name, reference.referrer,
              ascii "metadata records " ++ decimal reference.size.toNat ++ ascii " bytes, file is " ++
                decimal file.size.toNat⟩ }
      else walk

/-- One payload that is claimed. -/
def require (options : Options) (present : List Bytes) (report : Report)
    (entry : Bytes × Reference) : Report :=
  if entry.1 ∈ present then report
  else
    report.note options
      ⟨.missingPayload, entry.1, entry.2.referrer, ascii "referenced but absent from the payload tree"⟩

/-- `std::numeric_limits<std::size_t>::max()`. -/
def sizeMax : Nat := 2 ^ 64 - 1

/-- The claimed payloads stand in an unordered map; here they are taken by their ids. -/
def fsck (fuel : Nat) (rows : Rows) (tree : FileTree) (options : Options)
    (listedAt : TimestampMs) (walkedAt : Int) : Except StoreError (Option Report) := do
  let buckets ← listBuckets rows
  match ← gatherBuckets rows fuel {} buckets with
  | none => pure none
  | some gathered =>
    let tracked := listOrphans rows sizeMax listedAt
    let walk := tree.files.foldl
      (visit options gathered.referenced tracked (walkedAt - options.unreferencedGraceMs))
      { report :=
          { bucketsScanned := gathered.bucketsScanned
            objectsScanned := gathered.objectsScanned
            partsScanned := gathered.partsScanned
            filesScanned := tree.files.length.toUInt64 } }
    pure (some (gathered.referenced.entries.foldl (require options walk.present) walk.report))

/-! ### What the pages hold, from the rows -/

/-- The objects of a bucket, in the order of their keys. -/
def objectsOf (rows : Rows) (bucket : Bytes) : List ObjectRecord :=
  (rows.scan (Keys.objectPrefix bucket)).filterMap fun row =>
    (decodeObject (Listing.keyOf bucket row) row.2).toOption

/-- The uploads of a bucket, in the order of their rows by key. -/
def uploadsOf (rows : Rows) (bucket : Bytes) : List UploadRecord :=
  (rows.scan (Keys.uploadByKeyPrefix bucket)).filterMap fun row => do
    let parts ← Keys.uploadKeyParts row.1 bucket
    (loadUpload rows parts.uploadId).toOption.join

section Pages

variable {rows : Rows} {bucket : Bytes}

/-- An object as a point read finds it. -/
def Loads (rows : Rows) (bucket : Bytes) (object : ObjectRecord) : Prop :=
  loadObject rows (Keys.object bucket object.key) object.key = .ok (some object)

theorem loads_of_row {row : Bytes × Bytes} {object : ObjectRecord} (hentry : row ∈ rows.entries)
    (hfront : Keys.objectPrefix bucket <+: row.1)
    (hdecode : decodeObject (Listing.keyOf bucket row) row.2 = .ok object) :
    Loads rows bucket object := by
  obtain ⟨key, hkey⟩ := hfront
  have hkeyOf : Listing.keyOf bucket row = key := Listing.keyOf_of_eq hkey.symm
  rw [hkeyOf] at hdecode
  have hfind : rows.find? (Keys.object bucket key) = some row.2 := by
    rw [Keys.object, hkey]
    exact (rows.find?_eq_some_iff).mpr hentry
  rw [Loads, key_of_decodeObject hdecode, loadObject, readRow, hfind]
  simp [hdecode, decoded, Except.map]

/-- Lists of objects with the same keys are the same, when all are as they are read. -/
theorem eq_of_keys_eq {first second : List ObjectRecord}
    (hfirst : ∀ object ∈ first, Loads rows bucket object)
    (hsecond : ∀ object ∈ second, Loads rows bucket object)
    (h : first.map ObjectRecord.key = second.map ObjectRecord.key) : first = second := by
  let found : ObjectRecord → Except StoreError (Option ObjectRecord) := fun object => .ok (some object)
  have hread : ∀ {objects : List ObjectRecord}, (∀ object ∈ objects, Loads rows bucket object) →
      objects.map found = (objects.map ObjectRecord.key).map
        fun key => loadObject rows (Keys.object bucket key) key := by
    intro objects hobjects
    rw [List.map_map]
    exact List.map_congr_left fun object hobject => (hobjects object hobject).symm
  have hinjective : Function.Injective found := fun one other hsame =>
    Option.some.inj (Except.ok.inj hsame)
  refine hinjective.list_map ?_
  rw [hread hfirst, hread hsecond, h]

theorem mem_entries_of_mem_seekTo {tablePrefix target : Bytes} {request : ListObjectsRequest}
    {row : Bytes × Bytes} (h : row ∈ seekTo rows tablePrefix request target) : row ∈ rows.entries := by
  rw [seekTo, Rows.seek_eq_filter] at h
  exact (List.mem_filter.mp h).1

/-- A page holds objects as they are read. -/
theorem loads_of_listLoop {request : ListObjectsRequest} (room : Nat) {state final : ListState}
    (hposition : ∀ row ∈ state.position, row ∈ rows.entries)
    (hstate : ∀ object ∈ state.objects, Loads rows bucket object)
    (h : listLoop rows (Keys.objectPrefix bucket) request room state = .ok final) :
    ∀ object ∈ final.objects, Loads rows bucket object := by
  induction room generalizing state with
  | zero =>
      obtain rfl := Except.ok.inj h
      exact hstate
  | succ room ih =>
      rw [listLoop] at h
      split at h
      · obtain rfl := Except.ok.inj h
        exact hstate
      · rename_i row rest hrows
        have hentry : row ∈ rows.entries := hposition row (hrows ▸ List.mem_cons_self ..)
        split_ifs at h with hstarts
        · dsimp only at h
          split at h
          · split at h
            · obtain rfl := Except.ok.inj h
              exact hstate
            · refine ih (fun other hother => ?_) ?_ h
              · exact mem_entries_of_mem_seekTo hother
              · exact hstate
          · obtain ⟨object, hobject, h⟩ := Except.bind_eq_ok_iff.mp h
            have hdecode : decodeObject (Listing.keyOf bucket row) row.2 = .ok object := by
              cases hresult : decodeObject (Listing.keyOf bucket row) row.2 with
              | error error =>
                  rw [show decodeObject (row.1.drop (Keys.objectPrefix bucket).length) row.2 =
                    .error error from hresult] at hobject
                  cases hobject
              | ok found =>
                  rw [show decodeObject (row.1.drop (Keys.objectPrefix bucket).length) row.2 =
                    .ok found from hresult] at hobject
                  obtain rfl : found = object :=
                    Except.ok.inj (show (.ok found : Except StoreError ObjectRecord) = .ok object from hobject)
                  rfl
            refine ih ?_ ?_ h
            · exact fun other hother => hposition other (hrows ▸ List.mem_cons_of_mem _ hother)
            · intro other hother
              rcases List.mem_append.mp hother with hold | hnew
              · exact hstate other hold
              · obtain rfl := List.mem_singleton.mp hnew
                exact loads_of_row hentry ((List.prefix_append _ _).trans hstarts) hdecode
        · obtain rfl := Except.ok.inj h
          exact hstate

theorem loads_of_listObjects {request : ListObjectsRequest} {page : ListObjectsResult}
    (h : listObjects rows bucket request = .ok page) :
    ∀ object ∈ page.objects, Loads rows bucket object := by
  obtain ⟨_, -, h⟩ := Except.bind_eq_ok_iff.mp h
  dsimp only at h
  split_ifs at h
  · rw [← Except.pure_eq_ok_iff.mp h]
    simp
  · obtain ⟨final, hfinal, h⟩ := Except.bind_eq_ok_iff.mp h
    rw [← Except.pure_eq_ok_iff.mp h]
    exact loads_of_listLoop _ (fun row hrow => mem_entries_of_mem_seekTo hrow) (by simp) hfinal

theorem loads_of_listPages {fuel : Nat} {request : ListObjectsRequest}
    {pages : List ListObjectsResult} (h : listPages rows bucket fuel request = .ok (some pages)) :
    ∀ object ∈ pages.flatMap ListObjectsResult.objects, Loads rows bucket object := by
  induction fuel generalizing request pages with
  | zero => cases Except.ok.inj h
  | succ fuel ih =>
      rw [listPages] at h
      obtain ⟨page, hpage, h⟩ := Except.bind_eq_ok_iff.mp h
      have hfirst := loads_of_listObjects hpage
      split_ifs at h
      · obtain ⟨rest, hrest, h⟩ := Except.bind_eq_ok_iff.mp h
        obtain ⟨later, rfl, rfl⟩ := Option.map_eq_some_iff.mp (Except.pure_eq_ok_iff.mp h)
        intro object hobject
        rw [List.flatMap_cons, List.mem_append] at hobject
        exact hobject.elim (hfirst object) (ih hrest object)
      · obtain rfl := Option.some.inj (Except.pure_eq_ok_iff.mp h)
        simpa using hfirst

theorem loads_of_mem_objectsOf {object : ObjectRecord} (h : object ∈ objectsOf rows bucket) :
    Loads rows bucket object := by
  obtain ⟨row, hrow, hdecode⟩ := List.mem_filterMap.mp h
  obtain ⟨hentry, hfront⟩ := Rows.mem_scan.mp hrow
  exact loads_of_row hentry hfront (Except.toOption_eq_some hdecode)

/-- The whole listing of a bucket is its keys. -/
theorem grouping_eq_keys (rows : Rows) (bucket : Bytes) (size : UInt32) :
    Listing.grouping rows bucket { maxKeys := size } =
      (rows.scan (Keys.objectPrefix bucket)).map (Listing.keyOf bucket) := by
  have hscanned : Listing.scanned rows (Keys.objectPrefix bucket) { maxKeys := size } =
      rows.scan (Keys.objectPrefix bucket) := by
    rw [Rows.scan_eq_filter, Listing.scanned, scanPrefix]
    refine List.filter_congr fun row _ => ?_
    rw [List.append_nil, Bool.eq_iff_iff, decide_eq_true_eq, List.isPrefixOf_iff_prefix]
  have hkeys : Listing.keysUnder rows bucket { maxKeys := size } =
      (rows.scan (Keys.objectPrefix bucket)).map (Listing.keyOf bucket) := by
    rw [Listing.keysUnder, hscanned]
  rw [Listing.grouping, ← hkeys]
  have hascending := @Listing.keys_ascending rows bucket { maxKeys := size } _ (List.Sublist.refl _)
  refine RollUp.listing_eq_of_mem_iff hascending hascending fun name => ?_
  simp [RollUp.shown, RollUp.common?]

theorem keys_objectsOf (hstored : Listing.StoredBucket rows bucket) :
    (objectsOf rows bucket).map ObjectRecord.key =
      (rows.scan (Keys.objectPrefix bucket)).map (Listing.keyOf bucket) := by
  have hreadable : ∀ row ∈ rows.scan (Keys.objectPrefix bucket),
      ∃ record, decodeObject (Listing.keyOf bucket row) row.2 = .ok record ∧
        record.key = Listing.keyOf bucket row := by
    intro row hrow
    obtain ⟨hentry, key, hkey⟩ := Rows.mem_scan.mp hrow
    have hfind : rows.find? (Keys.object bucket key) = some row.2 := by
      rw [Keys.object, hkey]
      exact (rows.find?_eq_some_iff).mpr hentry
    obtain ⟨-, record, hrecord⟩ := hstored.objects key row.2 hfind
    refine ⟨{ record with key := Listing.keyOf bucket row }, ?_, rfl⟩
    rw [hrecord]
    exact decodeObject_encodeObject { record with key := Listing.keyOf bucket row }
  rw [objectsOf]
  generalize rows.scan (Keys.objectPrefix bucket) = listed at hreadable
  induction listed with
  | nil => rfl
  | cons row rest ih =>
      obtain ⟨record, hrecord, hkey⟩ := hreadable row (List.mem_cons_self ..)
      have hhead : (decodeObject (Listing.keyOf bucket row) row.2).toOption = some record := by
        rw [hrecord]
        rfl
      rw [List.filterMap_cons_some (by exact hhead), List.map_cons, List.map_cons, hkey,
        ih fun other hother => hreadable other (List.mem_cons_of_mem _ hother)]

/-- Reading a bucket's objects to their end gives them all, in order. -/
theorem listPages_eq_objectsOf (hstored : Listing.StoredBucket rows bucket) :
    ∃ pages,
      (∃ enough, ∀ fuel, enough ≤ fuel →
        listPages rows bucket fuel { maxKeys := 1000 } = .ok (some pages)) ∧
      pages.flatMap ListObjectsResult.objects = objectsOf rows bucket := by
  have hnames : Listing.namesLeft rows bucket { maxKeys := 1000 } =
      Listing.grouping rows bucket { maxKeys := 1000 } := Listing.namesLeft_of_startAfter_eq_nil rfl
  have hfrom : Listing.FromSome (Listing.namesLeft rows bucket { maxKeys := 1000 })
      (Listing.grouping rows bucket { maxKeys := 1000 }) := by
    rw [hnames]
    exact ⟨fun _ hmem => hmem, fun _ _ _ hlater _ => hlater⟩
  obtain ⟨pages, hpages, hshows⟩ := @Listing.listPages_spec rows bucket
    { maxKeys := 1000 } hstored.row hstored.readable (by decide)
    (fun name => hstored.ne_nil_of_mem_grouping) [] hfrom
  refine ⟨pages, ⟨_, hpages⟩, ?_⟩
  have hcut : (RollUp.cut (UInt32.toNat 1000) (Listing.skipped { maxKeys := 1000 })
      (Listing.namesLeft rows bucket { maxKeys := 1000 })).flatten =
      Listing.namesLeft rows bucket { maxKeys := 1000 } :=
    (RollUp.flatten_cut_eq_iff (by decide) fun _ _ _ _ hskips =>
      absurd (of_decide_eq_true hskips).1 (fun h => h rfl)).mpr fun _ _ _ =>
        decide_eq_false fun hskips => hskips.1 rfl
  have hflat : ∀ {pages : List ListObjectsResult} {chunks : List (List Bytes)},
      List.Forall₂ (Listing.Shows [] []) pages chunks →
        (pages.flatMap ListObjectsResult.objects).map ObjectRecord.key = chunks.flatten := by
    intro pages chunks h
    induction h with
    | nil => rfl
    | cons hpage _ ih =>
        rw [List.flatMap_cons, List.map_append, List.flatten_cons, ih, hpage.objects]
        simp [RollUp.common?]
  refine eq_of_keys_eq (loads_of_listPages (hpages _ (Nat.lt_succ_self _)))
    (fun object => loads_of_mem_objectsOf) ?_
  rw [keys_objectsOf hstored, ← grouping_eq_keys rows bucket 1000, ← hnames, ← hcut]
  exact hflat hshows

/-- Every row by key of a bucket is that of an upload that is there. -/
def UploadsStored (rows : Rows) (bucket : Bytes) : Prop :=
  ∀ row ∈ rows.scan (Keys.uploadByKeyPrefix bucket),
    ∃ upload, UploadPages.UploadRow rows bucket row upload ∧ upload.bucket.items = bucket

theorem rows_of_uploadsOf (hstored : UploadsStored rows bucket) :
    List.Forall₂ (UploadPages.UploadRow rows bucket) (rows.scan (Keys.uploadByKeyPrefix bucket))
      (uploadsOf rows bucket) := by
  rw [uploadsOf]
  rw [UploadsStored] at hstored
  generalize rows.scan (Keys.uploadByKeyPrefix bucket) = listed at hstored
  induction listed with
  | nil => exact List.Forall₂.nil
  | cons row rest ih =>
      obtain ⟨upload, hrow, -⟩ := hstored row (List.mem_cons_self ..)
      have hhead : (do
          let parts ← Keys.uploadKeyParts row.1 bucket
          (loadUpload rows parts.uploadId).toOption.join) = some upload := by
        rw [hrow.parts]
        show (loadUpload rows upload.uploadId).toOption.join = some upload
        rw [hrow.load]
        rfl
      rw [List.filterMap_cons_some (by exact hhead)]
      exact List.Forall₂.cons hrow (ih fun other hother => hstored other (List.mem_cons_of_mem _ hother))

/-- Reading a bucket's uploads to their end gives them all, in order. -/
theorem uploadPages_eq_uploadsOf (hbucket : requireBucket rows bucket = .ok ())
    (hstored : UploadsStored rows bucket) :
    ∃ pages,
      (∃ enough, ∀ fuel, enough ≤ fuel →
        uploadPages rows bucket fuel { maxUploads := 1000 } = .ok (some pages)) ∧
      pages.flatMap ListUploadsResult.uploads = uploadsOf rows bucket := by
  obtain ⟨pages, hpages, hall⟩ := @UploadPages.uploadPages_spec rows bucket
    { maxUploads := 1000 } _ hbucket (rows_of_uploadsOf hstored) (by decide) rfl (by simp)
  have hevery : (uploadsOf rows bucket).filter
      (UploadPages.behind bucket { maxUploads := 1000 }) = uploadsOf rows bucket :=
    List.filter_eq_self.mpr fun upload _ => by simp [UploadPages.behind]
  rw [hevery] at hpages hall
  exact ⟨pages, ⟨_, hpages⟩, hall⟩

end Pages

/-! ### What is gathered -/

def partsOf (rows : Rows) (uploadId : Bytes) : List PartRecord :=
  (collectParts rows uploadId).toOption.getD []

def uploadReferences (rows : Rows) (upload : UploadRecord) : List (Bytes × Reference) :=
  (partsOf rows upload.uploadId).map (partReference upload.uploadId)

def bucketReferences (rows : Rows) (bucket : Bytes) : List (Bytes × Reference) :=
  (objectsOf rows bucket).map (objectReference bucket) ++
    (uploadsOf rows bucket).flatMap (uploadReferences rows)

/-- All references, in the order the check meets them. -/
def references (rows : Rows) : List (Bytes × Reference) :=
  ((listBuckets rows).toOption.getD []).flatMap fun bucket => bucketReferences rows bucket.name

/-- The reference a payload keeps. -/
def recorded (rows : Rows) (blobId : Bytes) : Option Reference :=
  ((references rows).find? fun entry => decide (entry.1 = blobId)).map Prod.snd

/-- Rows as the store's mutations leave them, with every marker queued by now. Objects have
keys; the rows of uploads by key are exactly those of the uploads there are, in buckets there
are, under keys and ids without the separator. -/
structure Quiescent (rows : Rows) (now : TimestampMs) : Prop where
  written : rows.Holds (Written BucketRecord.Storable)
  keys : ∀ bucket key, (rows.find? (Keys.object bucket key)).isSome → key ≠ []
  uploadRows : ∀ bucket, (rows.find? (Keys.bucket bucket)).isSome → UploadsStored rows bucket
  uploads : ∀ uploadId upload, loadUpload rows uploadId = .ok (some upload) →
    (rows.find? (Keys.bucket upload.bucket.items)).isSome ∧
      ∃ row ∈ rows.scan (Keys.uploadByKeyPrefix upload.bucket.items),
        UploadPages.UploadRow rows upload.bucket.items row upload
  markers : ∀ blobId queuedAt, rows.queuedAt blobId = some queuedAt → ¬ now < queuedAt
  countable : rows.entries.length ≤ sizeMax

section Gathering

variable {rows : Rows} {now : TimestampMs} {bucket : Bytes}

theorem referenced_objects (objects : List ObjectRecord) (gathered : Gathered) :
    (objects.foldl (Gathered.object bucket) gathered).referenced =
      gathered.referenced.emplaceAll (objects.map (objectReference bucket)) := by
  induction objects generalizing gathered with
  | nil => rfl
  | cons object rest ih =>
      rw [List.foldl_cons, ih]
      rfl

theorem referenced_parts (uploadId : Bytes) (parts : List PartRecord) (gathered : Gathered) :
    (parts.foldl (Gathered.part uploadId) gathered).referenced =
      gathered.referenced.emplaceAll (parts.map (partReference uploadId)) := by
  induction parts generalizing gathered with
  | nil => rfl
  | cons part rest ih =>
      rw [List.foldl_cons, ih]
      rfl

theorem Quiescent.storedBucket (h : Quiescent rows now)
    (hbucket : (rows.find? (Keys.bucket bucket)).isSome) : Listing.StoredBucket rows bucket where
  row := by
    obtain ⟨stored, hfind⟩ := Option.isSome_iff_exists.mp hbucket
    rw [requireBucket, hfind]
  objects := fun key stored hfind =>
    ⟨h.keys bucket key (hfind ▸ rfl), (h.written _ stored hfind).object_inv rfl⟩

theorem Quiescent.partsOf_eq (h : Quiescent rows now) (uploadId : Bytes) :
    collectParts rows uploadId = .ok (partsOf rows uploadId) := by
  obtain ⟨parts, hparts⟩ := collectParts_returns h.written uploadId
  rw [partsOf, hparts]
  rfl

theorem gatherUploads_spec (h : Quiescent rows now) {uploads : List UploadRecord}
    (huploads : ∀ upload ∈ uploads, loadUpload rows upload.uploadId = .ok (some upload))
    (gathered : Gathered) :
    ∃ final, gatherUploads rows gathered uploads = .ok final ∧
      final.referenced = gathered.referenced.emplaceAll (uploads.flatMap (uploadReferences rows)) := by
  induction uploads generalizing gathered with
  | nil => exact ⟨gathered, rfl, rfl⟩
  | cons upload rest ih =>
      have hparts : listParts rows upload.uploadId = .ok (partsOf rows upload.uploadId) := by
        rw [listParts, huploads upload (List.mem_cons_self ..)]
        exact h.partsOf_eq upload.uploadId
      obtain ⟨final, hfinal, hreferenced⟩ :=
        ih (fun other hother => huploads other (List.mem_cons_of_mem _ hother))
          ((partsOf rows upload.uploadId).foldl (Gathered.part upload.uploadId) gathered)
      refine ⟨final, ?_, ?_⟩
      · rw [gatherUploads, hparts]
        exact hfinal
      · rw [hreferenced, referenced_parts, List.flatMap_cons, OrderedMap.emplaceAll_append]
        rfl

/-- Enough pages, and the check has gathered the references of the buckets in order. -/
theorem gatherBuckets_spec (h : Quiescent rows now) {buckets : List BucketRecord}
    (hbuckets : ∀ bucket ∈ buckets, (rows.find? (Keys.bucket bucket.name)).isSome)
    (gathered : Gathered) :
    ∃ final,
      (∃ enough, ∀ fuel, enough ≤ fuel → gatherBuckets rows fuel gathered buckets = .ok (some final)) ∧
      final.referenced = gathered.referenced.emplaceAll
        (buckets.flatMap fun bucket => bucketReferences rows bucket.name) := by
  induction buckets generalizing gathered with
  | nil => exact ⟨gathered, ⟨0, fun _ _ => rfl⟩, rfl⟩
  | cons bucket rest ih =>
      have hbucket := hbuckets bucket (List.mem_cons_self ..)
      have hstored := h.storedBucket hbucket
      obtain ⟨objectPages, ⟨objectsEnough, hobjectPages⟩, hobjects⟩ := listPages_eq_objectsOf hstored
      obtain ⟨pages, ⟨uploadsEnough, hpages⟩, huploads⟩ :=
        uploadPages_eq_uploadsOf hstored.row (h.uploadRows _ hbucket)
      have hloads : ∀ upload ∈ uploadsOf rows bucket.name,
          loadUpload rows upload.uploadId = .ok (some upload) := by
        intro upload hupload
        obtain ⟨row, -, hrow⟩ :=
          UploadPages.exists_row (rows_of_uploadsOf (h.uploadRows _ hbucket)) hupload
        exact hrow.load
      obtain ⟨withUploads, hgathered, hreferenced⟩ := gatherUploads_spec h hloads
        ((objectsOf rows bucket.name).foldl (Gathered.object bucket.name)
          { gathered with bucketsScanned := gathered.bucketsScanned + 1 })
      obtain ⟨final, ⟨restEnough, hfinal⟩, hlater⟩ :=
        ih (fun other hother => hbuckets other (List.mem_cons_of_mem _ hother)) withUploads
      refine ⟨final, ⟨max objectsEnough (max uploadsEnough restEnough), fun fuel hfuel => ?_⟩, ?_⟩
      · rw [gatherBuckets, hobjectPages fuel (by omega)]
        show (uploadPages rows bucket.name fuel { maxUploads := 1000 } >>= _) = _
        rw [hpages fuel (by omega)]
        show (gatherUploads rows _ _ >>= _) = _
        rw [hobjects, huploads, hgathered]
        exact hfinal fuel (by omega)
      · rw [hlater, hreferenced, referenced_objects, List.flatMap_cons, OrderedMap.emplaceAll_append,
          bucketReferences, OrderedMap.emplaceAll_append]

end Gathering

end Fsck

end MonoBucket

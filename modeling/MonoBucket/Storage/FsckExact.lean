/-
What an empty report of the consistency check says

The check goes by file names. A payload's file counts as present wherever in the tree
it stands, and of rows that name one payload only the first is compared. So an empty
report may hide a payload that is not at its path, or a row with another size than the
first; and a stray copy of a payload, or a file that is exactly as old as the grace
period, raises a finding although every payload is in its place.

Apart from these the report is empty exactly when the store is healthy.
-/

import MonoBucket.Storage.Fsck

namespace MonoBucket.Fsck

open Codec

/-! ### When a report stays empty -/

section Silence

variable {options : Options}

theorem note_ne_nil (hmax : 1 ≤ options.maxFindings) (report : Report) (finding : Finding) :
    (report.note options finding).findings ≠ [] := by
  rw [Report.note]
  split_ifs with hfull
  · exact List.ne_nil_of_length_pos (by omega)
  · simp

/-- A fold leaves a report empty exactly when no element raises a finding. -/
theorem foldl_findings_eq_nil {σ β : Type} (findings : σ → List Finding) {step : σ → β → σ}
    {Quiet : β → Prop} (hquiet : ∀ state entry, Quiet entry → findings (step state entry) = findings state)
    (hloud : ∀ state entry, ¬ Quiet entry → findings (step state entry) ≠ []) (entries : List β)
    (state : σ) :
    findings (entries.foldl step state) = [] ↔ findings state = [] ∧ ∀ entry ∈ entries, Quiet entry := by
  induction entries generalizing state with
  | nil => simp
  | cons entry rest ih =>
      rw [List.foldl_cons, ih, List.forall_mem_cons]
      by_cases hentry : Quiet entry
      · rw [hquiet state entry hentry]
        simp [hentry]
      · simp [hloud state entry hentry, hentry]

/-- A file that raises no finding. -/
def QuietFile (referenced : OrderedMap Bytes Reference) (tracked : List Bytes) (youngerThan : Int)
    (file : TreeFile) : Prop :=
  isValidBlobId file.name ∧
    match referenced.find? file.name with
    | none => file.name ∈ tracked ∨ youngerThan < file.modifiedMs
    | some reference => file.size = reference.size

variable {referenced : OrderedMap Bytes Reference} {tracked : List Bytes} {youngerThan : Int}

theorem findings_visit_of_quiet (walk : Walk) (file : TreeFile)
    (h : QuietFile referenced tracked youngerThan file) :
    (visit options referenced tracked youngerThan walk file).report.findings =
      walk.report.findings := by
  obtain ⟨hvalid, hquiet⟩ := h
  rw [visit, if_neg (not_not.mpr hvalid)]
  dsimp only
  split
  · rename_i hfind
    rw [hfind] at hquiet
    split_ifs with htracked hyoung
    · rfl
    · rfl
    · exact absurd hquiet (not_or.mpr ⟨htracked, hyoung⟩)
  · rename_i reference hfind
    rw [hfind] at hquiet
    rw [if_neg (not_not.mpr hquiet)]

theorem findings_visit_ne_nil (hmax : 1 ≤ options.maxFindings) (walk : Walk) (file : TreeFile)
    (h : ¬ QuietFile referenced tracked youngerThan file) :
    (visit options referenced tracked youngerThan walk file).report.findings ≠ [] := by
  rw [visit]
  by_cases hvalid : isValidBlobId file.name
  · rw [QuietFile, and_iff_right hvalid] at h
    rw [if_neg (not_not.mpr hvalid)]
    dsimp only
    cases hfind : referenced.find? file.name with
    | none =>
        rw [hfind] at h
        dsimp only at h ⊢
        rw [if_neg (not_or.mp h).1, if_neg (not_or.mp h).2]
        exact note_ne_nil hmax _ _
    | some reference =>
        rw [hfind] at h
        dsimp only at h ⊢
        rw [if_pos h]
        exact note_ne_nil hmax _ _
  · rw [if_pos hvalid]
    exact note_ne_nil hmax _ _

theorem present_visit (walk : Walk) (file : TreeFile) :
    (visit options referenced tracked youngerThan walk file).present =
      if isValidBlobId file.name then file.name :: walk.present else walk.present := by
  rw [visit]
  by_cases hvalid : isValidBlobId file.name
  · rw [if_neg (not_not.mpr hvalid), if_pos hvalid]
    dsimp only
    cases referenced.find? file.name with
    | none =>
        dsimp only
        split_ifs <;> rfl
    | some reference =>
        dsimp only
        split_ifs <;> rfl
  · rw [if_pos hvalid, if_neg hvalid]

/-- What the walk has seen are the names of the files that are well formed. -/
theorem mem_present_iff (files : List TreeFile) (walk : Walk) (blobId : Bytes) :
    blobId ∈ (files.foldl (visit options referenced tracked youngerThan) walk).present ↔
      blobId ∈ walk.present ∨ ∃ file ∈ files, isValidBlobId file.name ∧ file.name = blobId := by
  induction files generalizing walk with
  | nil => simp
  | cons file rest ih =>
      rw [List.foldl_cons, ih, present_visit]
      by_cases hvalid : isValidBlobId file.name
      · rw [if_pos hvalid]
        simp [hvalid, or_assoc, or_left_comm, eq_comm (a := blobId)]
      · rw [if_neg hvalid]
        simp [hvalid]

end Silence

/-! ### What the rows name -/

/-- A payload an object row names, or a part row of a live upload, with the size it records. -/
inductive Names (rows : Rows) : Bytes → UInt64 → Prop
  | object (bucket : Bytes) (object : ObjectRecord)
    (hbucket : (rows.find? (Keys.bucket bucket)).isSome) (hload : Loads rows bucket object) :
    Names rows object.blobId.items object.size
  | part (upload : UploadRecord) (part : PartRecord)
    (hupload : loadUpload rows upload.uploadId = .ok (some upload))
    (hload : loadPart rows upload.uploadId part.partNumber = .ok (some part)) :
    Names rows part.blobId.items part.size

section Named

variable {rows : Rows} {now : TimestampMs} {blobId : Bytes} {size : UInt64}

theorem Quiescent.listBuckets_returns (h : Quiescent rows now) :
    listBuckets rows = .ok ((listBuckets rows).toOption.getD []) := by
  obtain ⟨buckets, hbuckets⟩ := MonoBucket.listBuckets_returns (fun _ hstorable => hstorable) h.written
  rw [hbuckets]
  rfl

theorem Quiescent.mem_buckets_iff (h : Quiescent rows now) (name : Bytes) :
    (∃ bucket ∈ (listBuckets rows).toOption.getD [], bucket.name = name) ↔
      (rows.find? (Keys.bucket name)).isSome := by
  constructor
  · rintro ⟨bucket, hbucket, rfl⟩
    have hload := (QuotaChange.mem_listBuckets_iff h.listBuckets_returns).mp hbucket
    obtain ⟨stored, hfind, -⟩ := decode_of_readRow hload
    rw [hfind]
    rfl
  · intro hname
    obtain ⟨stored, hfind⟩ := Option.isSome_iff_exists.mp hname
    obtain ⟨record, hrecord⟩ :=
      (h.written _ stored hfind).decodeBucket (fun _ hstorable => hstorable) rfl name
    have hload : loadBucket rows name = .ok (some record) := by
      rw [loadBucket, readRow, hfind]
      simp [hrecord, decoded, Except.map]
    have hkey : record.name = name := StorageEngine.name_of_loadBucket hload
    refine ⟨record, (QuotaChange.mem_listBuckets_iff h.listBuckets_returns).mpr ?_, hkey⟩
    rw [hkey]
    exact hload

theorem mem_objectsOf_iff {bucket : Bytes} {object : ObjectRecord} :
    object ∈ objectsOf rows bucket ↔ Loads rows bucket object := by
  constructor
  · exact loads_of_mem_objectsOf
  · intro hload
    obtain ⟨stored, hfind, hdecode⟩ := decode_of_readRow hload
    refine List.mem_filterMap.mpr ⟨(Keys.object bucket object.key, stored), ?_, ?_⟩
    · exact Rows.mem_scan.mpr ⟨(rows.find?_eq_some_iff).mp hfind, object.key, rfl⟩
    · rw [Listing.keyOf_of_eq rfl, hdecode]
      rfl

theorem Quiescent.mem_uploadsOf_iff (h : Quiescent rows now) {bucket : Bytes} {upload : UploadRecord}
    (hbucket : (rows.find? (Keys.bucket bucket)).isSome) :
    upload ∈ uploadsOf rows bucket ↔
      loadUpload rows upload.uploadId = .ok (some upload) ∧ upload.bucket.items = bucket := by
  have hstored := h.uploadRows bucket hbucket
  constructor
  · intro hupload
    obtain ⟨row, hrow, huploadRow⟩ := UploadPages.exists_row (rows_of_uploadsOf hstored) hupload
    obtain ⟨found, hfound, hname⟩ := hstored row hrow
    have hsame := huploadRow.parts.symm.trans hfound.parts
    obtain ⟨-, hid⟩ := Keys.UploadKeyParts.mk.inj (Option.some.inj hsame)
    have hload := huploadRow.load
    rw [hid, hfound.load] at hload
    rw [← Option.some.inj (Except.ok.inj hload)]
    exact ⟨hfound.load, hname⟩
  · rintro ⟨hload, rfl⟩
    obtain ⟨-, row, hrow, huploadRow⟩ := h.uploads upload.uploadId upload hload
    refine List.mem_filterMap.mpr ⟨row, hrow, ?_⟩
    rw [huploadRow.parts]
    show (loadUpload rows upload.uploadId).toOption.join = some upload
    rw [hload]
    rfl

theorem Quiescent.mem_partsOf_iff (h : Quiescent rows now) {uploadId : Bytes} {part : PartRecord} :
    part ∈ partsOf rows uploadId ↔ loadPart rows uploadId part.partNumber = .ok (some part) :=
  mem_of_collectParts (h.partsOf_eq uploadId)

/-- The references are what the rows name. -/
theorem Quiescent.names_iff (h : Quiescent rows now) :
    Names rows blobId size ↔ ∃ entry ∈ references rows, entry.1 = blobId ∧ entry.2.size = size := by
  constructor
  · rintro (⟨name, object, hbucket, hload⟩ | ⟨upload, part, hupload, hload⟩)
    · obtain ⟨bucket, hmem, rfl⟩ := (h.mem_buckets_iff name).mpr hbucket
      refine ⟨objectReference bucket.name object, ?_, rfl, rfl⟩
      refine List.mem_flatMap.mpr ⟨bucket, hmem, List.mem_append_left _ ?_⟩
      exact List.mem_map.mpr ⟨object, mem_objectsOf_iff.mpr hload, rfl⟩
    · obtain ⟨hbucket, -⟩ := h.uploads upload.uploadId upload hupload
      obtain ⟨bucket, hmem, hname⟩ := (h.mem_buckets_iff _).mpr hbucket
      refine ⟨partReference upload.uploadId part, ?_, rfl, rfl⟩
      refine List.mem_flatMap.mpr ⟨bucket, hmem, List.mem_append_right _ ?_⟩
      rw [hname]
      refine List.mem_flatMap.mpr ⟨upload, (h.mem_uploadsOf_iff hbucket).mpr ⟨hupload, rfl⟩, ?_⟩
      exact List.mem_map.mpr ⟨part, h.mem_partsOf_iff.mpr hload, rfl⟩
  · rintro ⟨entry, hentry, rfl, rfl⟩
    obtain ⟨bucket, hmem, hentry⟩ := List.mem_flatMap.mp hentry
    have hbucket := (h.mem_buckets_iff bucket.name).mp ⟨bucket, hmem, rfl⟩
    rcases List.mem_append.mp hentry with hobject | hpart
    · obtain ⟨object, hlisted, rfl⟩ := List.mem_map.mp hobject
      exact .object bucket.name object hbucket (mem_objectsOf_iff.mp hlisted)
    · obtain ⟨upload, hupload, hentry⟩ := List.mem_flatMap.mp hpart
      obtain ⟨part, hlisted, rfl⟩ := List.mem_map.mp hentry
      exact .part upload part ((h.mem_uploadsOf_iff hbucket).mp hupload).1
        (h.mem_partsOf_iff.mp hlisted)

/-- A payload that is recorded is named with the size it is recorded with. -/
theorem Quiescent.names_of_recorded (h : Quiescent rows now) {reference : Reference}
    (hrecorded : recorded rows blobId = some reference) : Names rows blobId reference.size := by
  obtain ⟨entry, hentry, rfl⟩ := Option.map_eq_some_iff.mp hrecorded
  have hname := List.find?_some hentry
  exact h.names_iff.mpr ⟨entry, List.mem_of_find?_eq_some hentry, of_decide_eq_true hname, rfl⟩

theorem Quiescent.recorded_of_names (h : Quiescent rows now) (hnames : Names rows blobId size) :
    ∃ reference, recorded rows blobId = some reference := by
  obtain ⟨entry, hentry, hname, -⟩ := h.names_iff.mp hnames
  have hsome : ((references rows).find? fun entry => decide (entry.1 = blobId)).isSome :=
    List.find?_isSome.mpr ⟨entry, hentry, decide_eq_true hname⟩
  obtain ⟨found, hfound⟩ := Option.isSome_iff_exists.mp hsome
  exact ⟨found.2, by rw [recorded, hfound]; rfl⟩

theorem Quiescent.recorded_eq_none_iff (h : Quiescent rows now) :
    recorded rows blobId = none ↔ ∀ size, ¬ Names rows blobId size := by
  constructor
  · intro hnone size hnames
    obtain ⟨reference, hrecorded⟩ := h.recorded_of_names hnames
    rw [hnone] at hrecorded
    cases hrecorded
  · intro hunnamed
    by_contra hsome
    obtain ⟨reference, hrecorded⟩ := Option.ne_none_iff_exists'.mp hsome
    exact hunnamed _ (h.names_of_recorded hrecorded)

end Named

/-! ### What the check looks at -/

/-- A marker of the payload waits for the reclaimer. -/
def Tracked (rows : Rows) (blobId : Bytes) : Prop := rows.queuedAt blobId ≠ none

/-- No file and no payload raises a finding. -/
structure Clean (rows : Rows) (tree : FileTree) (options : Options) (walkedAt : Int) : Prop where
  wellFormed : ∀ file ∈ tree.files, isValidBlobId file.name
  accounted : ∀ file ∈ tree.files, recorded rows file.name = none →
    Tracked rows file.name ∨ walkedAt - options.unreferencedGraceMs < file.modifiedMs
  sizes : ∀ file ∈ tree.files, ∀ reference ∈ recorded rows file.name, file.size = reference.size
  present : ∀ blobId reference, recorded rows blobId = some reference →
    ∃ file ∈ tree.files, file.name = blobId

section Reports

variable {rows : Rows} {tree : FileTree} {options : Options} {listedAt : TimestampMs} {walkedAt : Int}

theorem Quiescent.mem_tracked_iff (h : Quiescent rows listedAt) (blobId : Bytes) :
    blobId ∈ listOrphans rows sizeMax listedAt ↔ Tracked rows blobId := by
  constructor
  · exact marked_of_mem_listOrphans
  · intro htracked
    obtain ⟨queuedAt, hqueued⟩ := Option.ne_none_iff_exists'.mp htracked
    exact mem_listOrphans_of_queuedAt h.countable hqueued (h.markers blobId queuedAt hqueued)

/-- The walk over the tree, from what has been gathered. -/
def walkOf (gathered : Gathered) (rows : Rows) (tree : FileTree) (options : Options)
    (listedAt : TimestampMs) (walkedAt : Int) : Walk :=
  tree.files.foldl
    (visit options gathered.referenced (listOrphans rows sizeMax listedAt)
      (walkedAt - options.unreferencedGraceMs))
    { report :=
        { bucketsScanned := gathered.bucketsScanned
          objectsScanned := gathered.objectsScanned
          partsScanned := gathered.partsScanned
          filesScanned := tree.files.length.toUInt64 } }

def reportOf (gathered : Gathered) (rows : Rows) (tree : FileTree) (options : Options)
    (listedAt : TimestampMs) (walkedAt : Int) : Report :=
  let walk := walkOf gathered rows tree options listedAt walkedAt
  gathered.referenced.entries.foldl (require options walk.present) walk.report

variable {gathered : Gathered}

theorem findings_walkOf (hmax : 1 ≤ options.maxFindings) :
    (walkOf gathered rows tree options listedAt walkedAt).report.findings = [] ↔
      ∀ file ∈ tree.files, QuietFile gathered.referenced (listOrphans rows sizeMax listedAt)
        (walkedAt - options.unreferencedGraceMs) file := by
  rw [walkOf, foldl_findings_eq_nil (fun walk : Walk => walk.report.findings)
    (fun walk file hquiet => findings_visit_of_quiet walk file hquiet)
    (fun walk file hloud => findings_visit_ne_nil hmax walk file hloud)]
  simp

theorem findings_reportOf (hmax : 1 ≤ options.maxFindings) :
    (reportOf gathered rows tree options listedAt walkedAt).findings = [] ↔
      (∀ file ∈ tree.files, QuietFile gathered.referenced (listOrphans rows sizeMax listedAt)
        (walkedAt - options.unreferencedGraceMs) file) ∧
      ∀ entry ∈ gathered.referenced.entries,
        ∃ file ∈ tree.files, isValidBlobId file.name ∧ file.name = entry.1 := by
  have hpresent : ∀ entry : Bytes × Reference,
      entry.1 ∈ (walkOf gathered rows tree options listedAt walkedAt).present ↔
        ∃ file ∈ tree.files, isValidBlobId file.name ∧ file.name = entry.1 := by
    intro entry
    rw [walkOf, mem_present_iff]
    simp
  rw [reportOf, foldl_findings_eq_nil Report.findings
    (fun report (entry : Bytes × Reference) hentry => by
      rw [require, if_pos ((hpresent entry).mpr hentry)])
    (fun report entry habsent => by
      rw [require, if_neg fun hentry => habsent ((hpresent entry).mp hentry)]
      exact note_ne_nil hmax _ _),
    findings_walkOf hmax]

/-- The check ends, with an empty report exactly when nothing it looks at is amiss. -/
theorem fsck_spec (h : Quiescent rows listedAt) (hmax : 1 ≤ options.maxFindings) :
    ∃ report,
      (∃ enough, ∀ fuel, enough ≤ fuel →
        fsck fuel rows tree options listedAt walkedAt = .ok (some report)) ∧
      (report.findings = [] ↔ Clean rows tree options walkedAt) := by
  obtain ⟨gathered, ⟨enough, hgathered⟩, hreferenced⟩ := gatherBuckets_spec h
    (fun bucket hbucket => (h.mem_buckets_iff bucket.name).mp ⟨bucket, hbucket, rfl⟩) {}
  have hfind : ∀ blobId, gathered.referenced.find? blobId = recorded rows blobId := by
    intro blobId
    rw [hreferenced, OrderedMap.find?_emplaceAll]
    rfl
  refine ⟨reportOf gathered rows tree options listedAt walkedAt, ⟨enough, fun fuel hfuel => ?_⟩, ?_⟩
  · rw [fsck, h.listBuckets_returns]
    show (gatherBuckets rows fuel {} _ >>= _) = _
    rw [hgathered fuel hfuel]
    rfl
  · rw [findings_reportOf hmax]
    constructor
    · rintro ⟨hquiet, hpresent⟩
      refine ⟨fun file hfile => (hquiet file hfile).1, fun file hfile hnone => ?_,
        fun file hfile reference hreference => ?_, fun blobId reference hreference => ?_⟩
      · have haccounted := (hquiet file hfile).2
        rw [hfind, hnone] at haccounted
        exact haccounted.imp_left (h.mem_tracked_iff _).mp
      · have hsize := (hquiet file hfile).2
        rw [hfind, hreference] at hsize
        exact hsize
      · obtain ⟨file, hfile, -, hname⟩ := hpresent (blobId, reference)
          ((gathered.referenced.find?_eq_some_iff).mp ((hfind blobId).trans hreference))
        exact ⟨file, hfile, hname⟩
    · intro hclean
      refine ⟨fun file hfile => ⟨hclean.wellFormed file hfile, ?_⟩, fun entry hentry => ?_⟩
      · rw [hfind]
        cases hrecorded : recorded rows file.name with
        | none =>
            exact (hclean.accounted file hfile hrecorded).imp_left (h.mem_tracked_iff _).mpr
        | some reference => exact hclean.sizes file hfile reference hrecorded
      · have hrecorded : recorded rows entry.1 = some entry.2 := by
          rw [← hfind]
          exact (gathered.referenced.find?_eq_some_iff).mpr hentry
        obtain ⟨file, hfile, hname⟩ := hclean.present entry.1 entry.2 hrecorded
        exact ⟨file, hfile, hclean.wellFormed file hfile, hname⟩

end Reports

/-! ### What an empty report should say -/

/-- Every payload the rows name is at its path, with the size of every row that names it; and
every other file is well formed, and is tracked or within the grace period. -/
structure Healthy (rows : Rows) (tree : FileTree) (options : Options) (walkedAt : Int) : Prop where
  payloads : ∀ blobId size, Names rows blobId size →
    ∃ file ∈ tree.files, pathFor blobId = .ok file.path ∧ file.size = size
  wellFormed : ∀ file ∈ tree.files, isValidBlobId file.name
  accounted : ∀ file ∈ tree.files, (∀ size, ¬ Names rows file.name size) →
    Tracked rows file.name ∨ walkedAt - file.modifiedMs ≤ options.unreferencedGraceMs

/-- Nothing is amiss by file names and first rows, but a payload is not at its path, or a row
records another size than the first one that names the payload. -/
structure Hides (rows : Rows) (tree : FileTree) (options : Options) (walkedAt : Int) : Prop where
  clean : Clean rows tree options walkedAt
  damaged : ∃ blobId size, Names rows blobId size ∧
    ((∀ file ∈ tree.files, pathFor blobId ≠ .ok file.path) ∨
      ∃ reference, recorded rows blobId = some reference ∧ reference.size ≠ size)

/-- A file no row names is exactly as old as the grace period, with no marker. -/
def AtTheEdge (rows : Rows) (tree : FileTree) (options : Options) (walkedAt : Int) : Prop :=
  ∃ file ∈ tree.files, recorded rows file.name = none ∧ ¬ Tracked rows file.name ∧
    file.modifiedMs = walkedAt - options.unreferencedGraceMs

/-- A second file with the name of a payload, away from its path and with another size. -/
def StrayCopy (rows : Rows) (tree : FileTree) : Prop :=
  ∃ file ∈ tree.files, ∃ reference, recorded rows file.name = some reference ∧
    pathFor file.name ≠ .ok file.path ∧ file.size ≠ reference.size

/-- Everything is in its place, and still a file raises a finding. -/
structure Alarms (rows : Rows) (tree : FileTree) (options : Options) (walkedAt : Int) : Prop where
  healthy : Healthy rows tree options walkedAt
  caught : AtTheEdge rows tree options walkedAt ∨ StrayCopy rows tree

section Exact

variable {rows : Rows} {tree : FileTree} {options : Options} {listedAt : TimestampMs} {walkedAt : Int}

theorem name_of_pathFor {blobId : Bytes} {file : TreeFile} (h : pathFor blobId = .ok file.path) :
    file.name = blobId := by
  rw [pathFor] at h
  split_ifs at h
  · have hlast := congrArg List.getLast? (Except.ok.inj h)
    rw [TreeFile.path, List.getLast?_concat] at hlast
    exact (Option.some.inj hlast).symm
  · cases h

/-- One path, one file. -/
theorem FileTree.eq_of_path_eq {file other : TreeFile} (hfile : file ∈ tree.files)
    (hother : other ∈ tree.files) (h : file.path = other.path) : file = other :=
  List.inj_on_of_nodup_map tree.distinct hfile hother h

theorem healthy_of_clean (h : Quiescent rows listedAt) (hclean : Clean rows tree options walkedAt)
    (hwhole : ∀ blobId size, Names rows blobId size →
      (∃ file ∈ tree.files, pathFor blobId = .ok file.path) ∧
        ∀ reference, recorded rows blobId = some reference → reference.size = size) :
    Healthy rows tree options walkedAt where
  payloads := by
    intro blobId size hnames
    obtain ⟨⟨file, hfile, hpath⟩, hsame⟩ := hwhole blobId size hnames
    obtain ⟨reference, hrecorded⟩ := h.recorded_of_names hnames
    have hname := name_of_pathFor hpath
    have hsize := hclean.sizes file hfile reference (by rw [hname]; exact hrecorded)
    exact ⟨file, hfile, hpath, hsize.trans (hsame reference hrecorded)⟩
  wellFormed := hclean.wellFormed
  accounted := by
    intro file hfile hunnamed
    rcases hclean.accounted file hfile (h.recorded_eq_none_iff.mpr hunnamed) with htracked | hyoung
    · exact .inl htracked
    · exact .inr (by omega)

theorem clean_of_healthy (h : Quiescent rows listedAt) (hhealthy : Healthy rows tree options walkedAt)
    (hedge : ¬ AtTheEdge rows tree options walkedAt) (hstray : ¬ StrayCopy rows tree) :
    Clean rows tree options walkedAt where
  wellFormed := hhealthy.wellFormed
  accounted := by
    intro file hfile hnone
    rcases hhealthy.accounted file hfile (h.recorded_eq_none_iff.mp hnone) with htracked | hyoung
    · exact .inl htracked
    · by_contra hloud
      obtain ⟨huntracked, hold⟩ := not_or.mp hloud
      exact hedge ⟨file, hfile, hnone, huntracked, by omega⟩
  sizes := by
    intro file hfile reference hrecorded
    obtain ⟨placed, hplaced, hpath, hsize⟩ :=
      hhealthy.payloads file.name reference.size (h.names_of_recorded hrecorded)
    by_contra hother
    refine hstray ⟨file, hfile, reference, hrecorded, fun hhere => ?_, hother⟩
    have hsame := FileTree.eq_of_path_eq hfile hplaced (Except.ok.inj (hhere.symm.trans hpath))
    rw [hsame] at hother
    exact hother hsize
  present := by
    intro blobId reference hrecorded
    obtain ⟨file, hfile, hpath, -⟩ :=
      hhealthy.payloads blobId reference.size (h.names_of_recorded hrecorded)
    exact ⟨file, hfile, name_of_pathFor hpath⟩

theorem hides_iff (h : Quiescent rows listedAt) :
    Hides rows tree options walkedAt ↔
      Clean rows tree options walkedAt ∧ ¬ Healthy rows tree options walkedAt := by
  constructor
  · rintro ⟨hclean, blobId, size, hnames, hdamaged⟩
    refine ⟨hclean, fun hhealthy => ?_⟩
    obtain ⟨file, hfile, hpath, hsize⟩ := hhealthy.payloads blobId size hnames
    rcases hdamaged with habsent | ⟨reference, hrecorded, hother⟩
    · exact habsent file hfile hpath
    · have hname := name_of_pathFor hpath
      have hfirst := hclean.sizes file hfile reference (by rw [hname]; exact hrecorded)
      exact hother (hfirst.symm.trans hsize)
  · rintro ⟨hclean, hill⟩
    refine ⟨hclean, ?_⟩
    by_contra hundamaged
    refine hill (healthy_of_clean h hclean fun blobId size hnames => ?_)
    have hboth := not_or.mp fun hdamaged => hundamaged ⟨blobId, size, hnames, hdamaged⟩
    constructor
    · by_contra habsent
      exact hboth.1 fun file hfile hpath => habsent ⟨file, hfile, hpath⟩
    · intro reference hrecorded
      by_contra hother
      exact hboth.2 ⟨reference, hrecorded, hother⟩

theorem alarms_iff (h : Quiescent rows listedAt) :
    Alarms rows tree options walkedAt ↔
      Healthy rows tree options walkedAt ∧ ¬ Clean rows tree options walkedAt := by
  constructor
  · rintro ⟨hhealthy, hcaught⟩
    refine ⟨hhealthy, fun hclean => ?_⟩
    rcases hcaught with ⟨file, hfile, hnone, huntracked, hage⟩ |
      ⟨file, hfile, reference, hrecorded, -, hother⟩
    · rcases hclean.accounted file hfile hnone with htracked | hyoung
      · exact huntracked htracked
      · omega
    · exact hother (hclean.sizes file hfile reference hrecorded)
  · rintro ⟨hhealthy, hloud⟩
    refine ⟨hhealthy, ?_⟩
    by_contra hneither
    obtain ⟨hedge, hstray⟩ := not_or.mp hneither
    exact hloud (clean_of_healthy h hhealthy hedge hstray)

/-- The report is empty exactly for a healthy store, unless the store hides a payload that is
not where it should be, or alarms for one that is. -/
theorem empty_report_exact_iff (h : Quiescent rows listedAt) (hmax : 1 ≤ options.maxFindings) :
    ∃ report,
      (∃ enough, ∀ fuel, enough ≤ fuel →
        fsck fuel rows tree options listedAt walkedAt = .ok (some report)) ∧
      ((report.findings = [] ↔ Healthy rows tree options walkedAt) ↔
        ¬ Hides rows tree options walkedAt ∧ ¬ Alarms rows tree options walkedAt) := by
  obtain ⟨report, hreport, hclean⟩ := @fsck_spec rows tree options listedAt walkedAt h hmax
  refine ⟨report, hreport, ?_⟩
  rw [hclean, hides_iff h, alarms_iff h]
  tauto

end Exact

/-! ### One bucket of objects -/

/-- A bucket, and objects in it. -/
def holding (bucket : BucketRecord) (objects : List ObjectRecord) : Rows :=
  Rows.write .empty
    (.put (Keys.bucket bucket.name) (encodeBucket bucket) ::
      objects.map fun object => .put (Keys.object bucket.name object.key) (encodeObject object))

section Holding

variable {bucket : BucketRecord} {objects : List ObjectRecord} {key stored : Bytes}

theorem find?_holding (h : (holding bucket objects).find? key = some stored) :
    key = Keys.bucket bucket.name ∧ stored = encodeBucket bucket ∨
      ∃ object ∈ objects, key = Keys.object bucket.name object.key ∧ stored = encodeObject object := by
  rcases Rows.mem_entries_write ((OrderedMap.find?_eq_some_iff _).mp h) with hold | hput
  · cases hold
  · rcases List.mem_cons.mp hput with hbucket | hobject
    · obtain ⟨rfl, rfl⟩ := RowOp.put.inj hbucket
      exact .inl ⟨rfl, rfl⟩
    · obtain ⟨object, hmem, heq⟩ := List.mem_map.mp hobject
      obtain ⟨rfl, rfl⟩ := RowOp.put.inj heq
      exact .inr ⟨object, hmem, rfl, rfl⟩

/-- Its rows are a bucket's or an object's. -/
theorem head?_holding (h : (holding bucket objects).find? key = some stored) :
    key.head? = some Keys.kBucket ∨ key.head? = some Keys.kObject := by
  rcases find?_holding h with ⟨rfl, -⟩ | ⟨object, -, rfl, -⟩
  · exact .inl rfl
  · exact .inr rfl

theorem find?_holding_of_tag (tag : UInt8) (hhead : key.head? = some tag) (hbucket : tag ≠ Keys.kBucket)
    (hobject : tag ≠ Keys.kObject) : (holding bucket objects).find? key = none := by
  cases hfind : (holding bucket objects).find? key with
  | none => rfl
  | some stored =>
      rcases head?_holding hfind with htag | htag
      · exact absurd (Option.some.inj (hhead.symm.trans htag)) hbucket
      · exact absurd (Option.some.inj (hhead.symm.trans htag)) hobject

theorem quiescent_holding (hstorable : bucket.Storable) 
    (hkeys : ∀ object ∈ objects, object.key ≠ [] ∧ Keys.separator ∉ object.key)
    (hcount : (holding bucket objects).entries.length ≤ sizeMax) (now : TimestampMs) :
    Quiescent (holding bucket objects) now where
  written := by
    intro key stored hfind
    rcases find?_holding hfind with ⟨rfl, rfl⟩ | ⟨object, -, rfl, rfl⟩
    · exact .bucket bucket hstorable
    · exact .object bucket.name object
  keys := by
    intro name key hfind
    obtain ⟨stored, hstored⟩ := Option.isSome_iff_exists.mp hfind
    rcases find?_holding hstored with ⟨hbucket, -⟩ | ⟨object, hmem, hobject, -⟩
    · exact absurd (Option.some.inj (congrArg List.head? hbucket)) (by decide)
    · rintro rfl
      obtain ⟨hnonempty, hplain⟩ := hkeys object hmem
      have hlast := congrArg List.getLast? hobject
      rw [Keys.object, Keys.object, List.append_nil, List.getLast?_append_of_ne_nil _ hnonempty] at hlast
      refine hplain (List.mem_of_getLast? (hlast.symm.trans ?_))
      rw [Keys.objectPrefix, ← List.cons_append]
      exact List.getLast?_concat
  uploadRows := by
    intro name _ row hrow
    obtain ⟨hentry, hfront⟩ := Rows.mem_scan.mp hrow
    have hfind := (OrderedMap.find?_eq_some_iff _).mpr hentry
    have hhead : row.1.head? = some Keys.kUploadByKey :=
      head?_of_tag_front ((List.prefix_append ..).trans hfront)
    rw [find?_holding_of_tag _ hhead (by decide) (by decide)] at hfind
    cases hfind
  uploads := by
    intro uploadId upload hload
    obtain ⟨stored, hfind, -⟩ := decode_of_readRow hload
    rw [find?_holding_of_tag Keys.kUploadById rfl (by decide) (by decide)] at hfind
    cases hfind
  markers := by
    intro blobId queuedAt hqueued
    obtain ⟨stored, hfind, -⟩ := Option.map_eq_some_iff.mp hqueued
    rw [find?_holding_of_tag Keys.kOrphan rfl (by decide) (by decide)] at hfind
    cases hfind
  countable := hcount

end Holding

/-! ### A copy in the wrong place -/

def photos : BucketRecord := { name := ascii "photos" }

/-- The payload id of 32 times the digit. -/
def repeated (digit : Char) : Text := ⟨List.replicate 32 (letter digit), by rw [List.length_replicate]; decide⟩

def cat : ObjectRecord := { key := ascii "cat", blobId := repeated 'a', size := 5 }

def oneObject : Rows := holding photos [cat]

theorem quiescent_oneObject : Quiescent oneObject 0 :=
  quiescent_holding (BucketRecord.storable_of_empty rfl) (by decide +kernel) (by decide +kernel) 0

theorem references_oneObject : references oneObject = [objectReference photos.name cat] := by
  decide +kernel

theorem recorded_oneObject {blobId : Bytes} {reference : Reference}
    (h : recorded oneObject blobId = some reference) :
    blobId = cat.blobId.items ∧ reference.size = 5 := by
  obtain ⟨entry, hentry, rfl⟩ := Option.map_eq_some_iff.mp h
  rw [references_oneObject] at hentry
  have hname := List.find?_some hentry
  obtain rfl := List.mem_singleton.mp (List.mem_of_find?_eq_some hentry)
  exact ⟨(of_decide_eq_true hname).symm, rfl⟩

theorem names_oneObject : Names oneObject cat.blobId.items 5 :=
  .object photos.name cat (by decide +kernel) (by unfold Loads; decide +kernel)

/-- The payload of the object, in the directory given. -/
def catFile (directory : String) : TreeFile where
  directories := [ascii directory, ascii directory]
  name := cat.blobId.items
  size := 5
  modifiedMs := 0

def treeOf (directory : String) : FileTree where
  files := [catFile directory]
  distinct := List.nodup_singleton _

theorem empty_report_exact_iff_oneObject :
    ∃ report,
      (∃ enough, ∀ fuel, enough ≤ fuel →
        fsck fuel oneObject (treeOf "aa") {} 0 0 = .ok (some report)) ∧
      ((report.findings = [] ↔ Healthy oneObject (treeOf "aa") {} 0) ↔
        ¬ Hides oneObject (treeOf "aa") {} 0 ∧ ¬ Alarms oneObject (treeOf "aa") {} 0) :=
  empty_report_exact_iff quiescent_oneObject (by decide)

/-- By its name the file is the payload of the object, wherever it stands. -/
theorem clean_oneObject (directory : String) : Clean oneObject (treeOf directory) {} 0 where
  wellFormed := by
    intro file hfile
    rw [List.mem_singleton.mp hfile]
    exact (by decide +kernel : isValidBlobId cat.blobId.items)
  accounted := by
    intro file hfile hnone
    rw [List.mem_singleton.mp hfile] at hnone
    obtain ⟨reference, hrecorded⟩ := quiescent_oneObject.recorded_of_names names_oneObject
    rw [show recorded oneObject cat.blobId.items = none from hnone] at hrecorded
    cases hrecorded
  sizes := by
    intro file hfile reference hrecorded
    rw [List.mem_singleton.mp hfile]
    exact (recorded_oneObject hrecorded).2.symm
  present := fun blobId reference hrecorded =>
    ⟨catFile directory, List.mem_singleton_self _, (recorded_oneObject hrecorded).1.symm⟩

/-- The only file of the object's payload stands in another directory than its path says. The
object cannot be read, and the report is empty. -/
theorem misplaced_payload_not_reported :
    Quiescent oneObject 0 ∧
      ∃ report,
        (∃ enough, ∀ fuel, enough ≤ fuel →
          fsck fuel oneObject (treeOf "bb") {} 0 0 = .ok (some report)) ∧
        report.findings = [] ∧ ¬ Healthy oneObject (treeOf "bb") {} 0 := by
  obtain ⟨report, hreport, hempty⟩ := @fsck_spec oneObject (treeOf "bb") {} 0 0
    quiescent_oneObject (by decide)
  refine ⟨quiescent_oneObject, report, hreport, hempty.mpr (clean_oneObject "bb"), fun hhealthy => ?_⟩
  obtain ⟨file, hfile, hpath, -⟩ := hhealthy.payloads _ _ names_oneObject
  rw [List.mem_singleton.mp hfile] at hpath
  revert hpath
  decide +kernel

end MonoBucket.Fsck

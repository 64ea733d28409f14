/-
What is reported about a bucket

A listing of a bucket's objects or uploads and the emptiness check of its
deletion read the bucket's own row, the rows under its two prefixes, and the rows
of the uploads found there, and no others. The usage scan reads every row; what
it charges to a bucket comes from the bucket's objects and from the parts of its
uploads.
-/

import MonoBucket.Storage.Pagination
import MonoBucket.Storage.StorageEngine
import MonoBucket.Storage.UploadListing
import MonoBucket.Storage.Written

namespace MonoBucket

open Codec

/-! ### Rows about a bucket -/

/-- A key in the range of a bucket's objects or uploads. -/
def InRange (name key : Bytes) : Prop :=
  Keys.objectPrefix name <+: key ∨ Keys.uploadByKeyPrefix name <+: key

/-- A key the reports on a bucket read. -/
inductive Reads (rows : Rows) (name : Bytes) : Bytes → Prop
  | bucket : Reads rows name (Keys.bucket name)
  | range (key : Bytes) (hrange : InRange name key) : Reads rows name key
  | upload (row : Bytes × Bytes) (parts : Keys.UploadKeyParts) (hrow : row ∈ rows.entries)
    (hparts : Keys.uploadKeyParts row.1 name = some parts) :
    Reads rows name (Keys.uploadById parts.uploadId)

/-- An upload of a bucket that is there. -/
def UploadIn (rows : Rows) (name uploadId : Bytes) : Prop :=
  ∃ upload, loadUpload rows uploadId = .ok (some upload) ∧ upload.bucket.items = name

/-- A key of a row that belongs to a bucket. -/
inductive RowOf (rows : Rows) (name : Bytes) : Bytes → Prop
  | bucket : RowOf rows name (Keys.bucket name)
  | range (key : Bytes) (hrange : InRange name key) : RowOf rows name key
  | upload (uploadId : Bytes) (hupload : UploadIn rows name uploadId) :
    RowOf rows name (Keys.uploadById uploadId)
  | part (uploadId : Bytes) (number : UInt32) (hupload : UploadIn rows name uploadId) :
    RowOf rows name (Keys.part uploadId number)

/-- What the scan charges to a bucket; nothing when it knows no such bucket. -/
def bucketUsage (rows : Rows) (name : Bytes) : Except StoreError (Option BucketCharge) := do
  let scan ← scanRows {} rows.entries
  pure (scan.joinParts.find? name)

/-- Listings and the emptiness check say the same of a bucket. -/
structure SameListings (before after : Rows) (name : Bytes) : Prop where
  objects : ∀ request, listObjects after name request = listObjects before name request
  uploads : ∀ request, listUploads after name request = listUploads before name request
  hasObjects : after.hasAny (Keys.objectPrefix name) = before.hasAny (Keys.objectPrefix name)
  hasUploads :
    after.hasAny (Keys.uploadByKeyPrefix name) = before.hasAny (Keys.uploadByKeyPrefix name)

/-! ### Where a row belongs -/

section Keyed

variable {first second key : Bytes}

theorem eq_of_objectPrefix (hfirst : Keys.separator ∉ first) (hsecond : Keys.separator ∉ second)
    (h : Keys.objectPrefix first <+: key) (h' : Keys.objectPrefix second <+: key) :
    first = second := by
  obtain ⟨rest, rfl⟩ := h
  obtain ⟨other, hother⟩ := h'
  simp only [Keys.objectPrefix, List.cons_append, List.append_assoc, List.nil_append,
    List.cons.injEq, true_and] at hother
  exact (Keys.append_separator_inj hsecond hfirst hother).1.symm

theorem eq_of_uploadByKeyPrefix (hfirst : Keys.separator ∉ first)
    (hsecond : Keys.separator ∉ second) (h : Keys.uploadByKeyPrefix first <+: key)
    (h' : Keys.uploadByKeyPrefix second <+: key) : first = second := by
  obtain ⟨rest, rfl⟩ := h
  obtain ⟨other, hother⟩ := h'
  simp only [Keys.uploadByKeyPrefix, List.cons_append, List.append_assoc, List.nil_append,
    List.cons.injEq, true_and] at hother
  exact (Keys.append_separator_inj hsecond hfirst hother).1.symm

theorem head?_of_objectPrefix (h : Keys.objectPrefix first <+: key) :
    key.head? = some Keys.kObject := by
  obtain ⟨rest, rfl⟩ := h
  rfl

theorem head?_of_uploadByKeyPrefix (h : Keys.uploadByKeyPrefix first <+: key) :
    key.head? = some Keys.kUploadByKey := by
  obtain ⟨rest, rfl⟩ := h
  rfl

/-- Ranges of names without separators are apart. -/
theorem InRange.eq (hfirst : Keys.separator ∉ first) (hsecond : Keys.separator ∉ second)
    (h : InRange first key) (h' : InRange second key) : first = second := by
  rcases h with h | h <;> rcases h' with h' | h'
  · exact eq_of_objectPrefix hfirst hsecond h h'
  · have hhead := head?_of_uploadByKeyPrefix h'
    rw [head?_of_objectPrefix h] at hhead
    exact absurd (Option.some.inj hhead) (by decide)
  · have hhead := head?_of_uploadByKeyPrefix h
    rw [head?_of_objectPrefix h'] at hhead
    exact absurd (Option.some.inj hhead) (by decide)
  · exact eq_of_uploadByKeyPrefix hfirst hsecond h h'

theorem InRange.tag (h : InRange first key) :
    key.head? = some Keys.kObject ∨ key.head? = some Keys.kUploadByKey :=
  h.imp head?_of_objectPrefix head?_of_uploadByKeyPrefix

end Keyed

/-! What is read about a bucket, by the kind of row. -/

section Kinds

variable {rows : Rows} {name other key uploadId : Bytes}

theorem Reads.tag (h : Reads rows name key) : ∃ tag ∈ [Keys.kBucket, Keys.kObject,
    Keys.kUploadByKey, Keys.kUploadById], key.head? = some tag := by
  cases h with
  | bucket => exact ⟨Keys.kBucket, by decide, rfl⟩
  | range _ hrange =>
      rcases hrange.tag with hobject | hupload
      · exact ⟨Keys.kObject, by decide, hobject⟩
      · exact ⟨Keys.kUploadByKey, by decide, hupload⟩
  | upload row parts hrow hparts => exact ⟨Keys.kUploadById, by decide, rfl⟩

theorem Reads.not_of_tag {tag : UInt8} (hkey : key.head? = some tag)
    (htag : tag ∉ [Keys.kBucket, Keys.kObject, Keys.kUploadByKey, Keys.kUploadById]) :
    ¬ Reads rows name key := by
  intro h
  obtain ⟨read, hmem, hread⟩ := h.tag
  obtain rfl := Option.some.inj (hkey.symm.trans hread)
  exact htag hmem

theorem Reads.eq_of_bucket (h : Reads rows name (Keys.bucket other)) : other = name := by
  generalize hkey : Keys.bucket other = key at h
  have hhead : key.head? = some Keys.kBucket := by rw [← hkey]; rfl
  cases h with
  | bucket => exact Keys.bucket_injective hkey
  | range _ hrange =>
      rcases hrange.tag with htag | htag
      · exact absurd (Option.some.inj (hhead.symm.trans htag)) (by decide)
      · exact absurd (Option.some.inj (hhead.symm.trans htag)) (by decide)
  | upload row parts hrow hparts => exact absurd (Option.some.inj hhead) (by decide)

theorem Reads.eq_of_inRange (h : Reads rows name key) (hname : Keys.separator ∉ name)
    (hother : Keys.separator ∉ other) (hrange : InRange other key) : other = name := by
  have hmismatch : ∀ {tag : UInt8}, key.head? = some tag →
      tag ∉ [Keys.kObject, Keys.kUploadByKey] → False := by
    intro tag hhead htag
    rcases hrange.tag with hkey | hkey <;> obtain rfl := Option.some.inj (hhead.symm.trans hkey)
    · exact htag (by decide)
    · exact htag (by decide)
  cases h with
  | bucket => exact (hmismatch rfl (by decide)).elim
  | range _ hown => exact hrange.eq hother hname hown
  | upload row parts hrow hparts => exact (hmismatch rfl (by decide)).elim

theorem Reads.exists_of_upload (h : Reads rows name (Keys.uploadById uploadId)) :
    ∃ row ∈ rows.entries, ∃ parts, Keys.uploadKeyParts row.1 name = some parts ∧
      parts.uploadId = uploadId := by
  generalize hkey : Keys.uploadById uploadId = key at h
  have hhead : key.head? = some Keys.kUploadById := by rw [← hkey]; rfl
  cases h with
  | bucket => exact absurd (Option.some.inj hhead) (by decide)
  | range _ hrange =>
      rcases hrange.tag with htag | htag
      · exact absurd (Option.some.inj (hhead.symm.trans htag)) (by decide)
      · exact absurd (Option.some.inj (hhead.symm.trans htag)) (by decide)
  | upload row parts hrow hparts => exact ⟨row, hrow, parts, hparts, (List.cons.inj hkey).2.symm⟩

end Kinds

/-! ### Listings read what is about the bucket -/

section Listings

variable {before after : Rows} {name : Bytes}

theorem requireBucket_congr
    (h : after.find? (Keys.bucket name) = before.find? (Keys.bucket name)) :
    requireBucket after name = requireBucket before name := by
  rw [requireBucket, requireBucket, h]

theorem listLoop_congr {tablePrefix : Bytes} (request : ListObjectsRequest)
    (h : ∀ key, tablePrefix <+: key → after.find? key = before.find? key) (room : Nat)
    (state : ListState) : listLoop after tablePrefix request room state =
      listLoop before tablePrefix request room state := by
  induction room generalizing state with
  | zero => rfl
  | succ room ih =>
      rw [listLoop, listLoop]
      split
      · rfl
      · rename_i row rest _
        by_cases hunder : scanPrefix tablePrefix request <+: row.1
        · rw [if_neg (not_not.mpr hunder), if_neg (not_not.mpr hunder)]
          dsimp only
          split
          · rename_i common hcommon
            split
            · rfl
            · rename_i next hnext
              have hgroup : tablePrefix ++ common <+: row.1 := by
                obtain ⟨behind, hbehind⟩ := (List.prefix_append _ _).trans hunder
                rw [← hbehind, List.drop_left] at hcommon
                rw [← hbehind, List.prefix_append_right_inj]
                exact RollUp.common_isPrefix hcommon
              have hfront : scanPrefix tablePrefix request ≤ next :=
                (List.le_of_isPrefix hunder).trans
                  (((Keys.isPrefix_iff_upperBound _ _).mp hgroup).2 next hnext).le
              have hseek : seekTo after tablePrefix request next =
                  seekTo before tablePrefix request next :=
                Rows.seek_congr
                  (fun key hkey => h key ((List.prefix_append _ request.keyPrefix).trans hkey)) hfront
              rw [hseek]
              exact ih _
          · cases hobject : decoded (decodeObject (row.1.drop tablePrefix.length) row.2) with
            | error error => rfl
            | ok object => exact ih _
        · rw [if_pos hunder, if_pos hunder]

theorem listObjects_congr (hbucket : after.find? (Keys.bucket name) = before.find? (Keys.bucket name))
    (h : ∀ key, Keys.objectPrefix name <+: key → after.find? key = before.find? key)
    (request : ListObjectsRequest) :
    listObjects after name request = listObjects before name request := by
  have hunder : ∀ key, scanPrefix (Keys.objectPrefix name) request <+: key →
      after.find? key = before.find? key :=
    fun key hkey => h key ((List.prefix_append _ request.keyPrefix).trans hkey)
  have hseek : seekTo after (Keys.objectPrefix name) request
      (resumePoint (Keys.objectPrefix name) request) =
      seekTo before (Keys.objectPrefix name) request
        (resumePoint (Keys.objectPrefix name) request) :=
    Rows.seek_congr hunder (Listing.scanPrefix_le_resumePoint _ _)
  have hany : after.hasAny (Keys.objectPrefix name ++ request.keyPrefix) =
      before.hasAny (Keys.objectPrefix name ++ request.keyPrefix) := Rows.hasAny_congr hunder
  have hloop := fun state =>
    listLoop_congr request h request.maxKeys.toNat state
  simp only [listObjects, requireBucket_congr hbucket, hseek, hany, hloop]

theorem listUploadsLoop_congr {request : ListUploadsRequest} {visited : List (Bytes × Bytes)}
    (h : ∀ row ∈ visited, ∀ parts, Keys.uploadKeyParts row.1 name = some parts →
      loadUpload after parts.uploadId = loadUpload before parts.uploadId)
    (result : ListUploadsResult) :
    listUploadsLoop after name request result visited =
      listUploadsLoop before name request result visited := by
  induction visited generalizing result with
  | nil => rfl
  | cons row rest ih =>
      have hrest := ih fun other hother => h other (List.mem_cons_of_mem _ hother)
      rw [listUploadsLoop, listUploadsLoop]
      by_cases hunder : Keys.uploadByKeyPrefix name <+: row.1
      · rw [if_neg (not_not.mpr hunder), if_neg (not_not.mpr hunder)]
        split
        · exact hrest result
        · rename_i parts hparts
          rw [h row (List.mem_cons_self ..) parts hparts]
          split_ifs
          · exact hrest result
          · rfl
          · exact hrest result
          · rfl
          · cases hload : loadUpload before parts.uploadId with
            | error error => rfl
            | ok found =>
                cases found with
                | none => exact hrest result
                | some upload => exact hrest _
      · rw [if_pos hunder, if_pos hunder]

theorem uploadByKeyPrefix_le_uploadSeek (name : Bytes) (request : ListUploadsRequest) :
    Keys.uploadByKeyPrefix name ≤ uploadSeek name request := by
  apply List.le_of_isPrefix
  rw [uploadSeek]
  split_ifs
  · rw [Keys.uploadByKey, List.append_assoc, List.append_assoc]
    exact List.prefix_append _ _
  · exact List.prefix_append _ _
  · exact List.prefix_refl _

theorem listUploads_congr
    (hbucket : after.find? (Keys.bucket name) = before.find? (Keys.bucket name))
    (h : ∀ key, Keys.uploadByKeyPrefix name <+: key → after.find? key = before.find? key)
    (hupload : ∀ row ∈ before.entries, ∀ parts, Keys.uploadKeyParts row.1 name = some parts →
      after.find? (Keys.uploadById parts.uploadId) = before.find? (Keys.uploadById parts.uploadId))
    (request : ListUploadsRequest) :
    listUploads after name request = listUploads before name request := by
  have hseek := Rows.seek_congr h (uploadByKeyPrefix_le_uploadSeek name request)
  have hloop : ∀ result, listUploadsLoop after name request result
      (before.seek (Keys.upperBound (Keys.uploadByKeyPrefix name)) (uploadSeek name request)) =
      listUploadsLoop before name request result
        (before.seek (Keys.upperBound (Keys.uploadByKeyPrefix name)) (uploadSeek name request)) := by
    apply listUploadsLoop_congr
    intro row hrow parts hparts
    rw [Rows.seek_eq_filter] at hrow
    exact readRow_congr (hupload row (List.mem_of_mem_filter hrow) parts hparts)
  simp only [listUploads, requireBucket_congr hbucket, hseek, hloop]

/-- The listings and the emptiness check of a bucket are the same on rows that
agree where they read. -/
theorem sameListings_of_reads
    (h : ∀ key, Reads before name key → after.find? key = before.find? key) :
    SameListings before after name where
  objects := listObjects_congr (h _ .bucket) fun key hkey => h key (.range key (Or.inl hkey))
  uploads := listUploads_congr (h _ .bucket) (fun key hkey => h key (.range key (Or.inr hkey)))
    fun row hrow parts hparts => h _ (.upload row parts hrow hparts)
  hasObjects := Rows.hasAny_congr fun key hkey => h key (.range key (Or.inl hkey))
  hasUploads := Rows.hasAny_congr fun key hkey => h key (.range key (Or.inr hkey))

end Listings

/-! ### The usage scan charges what is about the bucket -/

section Usage

variable {name : Bytes} {uploads : Bytes → Bool}

/-- A row the scan charges to a bucket or joins its parts by, given the ids of the
bucket's uploads. -/
def charged (name : Bytes) (uploads : Bytes → Bool) : Bytes → Bool
  | [] => false
  | tag :: rest =>
    if tag = Keys.kBucket then rest = name
    else if tag = Keys.kUploadById then uploads rest
    else if tag = Keys.kOrphan then false
    else if tag = Keys.kPart then (beforeSeparator rest).any uploads
    else if tag = Keys.kObject then beforeSeparator rest = some name
    else false

theorem charged_of_tag {key : Bytes} {tag : UInt8} (hkey : key.head? = some tag)
    (htag : tag ∉ [Keys.kBucket, Keys.kUploadById, Keys.kPart, Keys.kObject]) :
    charged name uploads key = false := by
  simp only [List.mem_cons, List.not_mem_nil, or_false, not_or] at htag
  obtain ⟨hbucket, hupload, hpart, hobject⟩ := htag
  cases key with
  | nil => rfl
  | cons first rest =>
      obtain rfl := Option.some.inj hkey
      rw [charged, if_neg hbucket, if_neg hupload]
      split_ifs <;> rfl

/-- The name in front of the first separator of a row key. -/
theorem beforeSeparator_append {front : Bytes} (hfront : Keys.separator ∉ front) (rest : Bytes) :
    beforeSeparator (front ++ Keys.separator :: rest) = some front := by
  have hall : ∀ byte ∈ front, (decide (byte ≠ Keys.separator)) = true :=
    fun byte hbyte => decide_eq_true fun hequal => hfront (hequal ▸ hbyte)
  rw [beforeSeparator, if_pos (by simp), List.takeWhile_append_of_pos hall]
  simp

theorem charged_object {bucket : Bytes} (hbucket : Keys.separator ∉ bucket) (key : Bytes) :
    charged name uploads (Keys.object bucket key) = decide (bucket = name) := by
  have hrest : Keys.object bucket key =
      Keys.kObject :: (bucket ++ Keys.separator :: key) := by
    simp [Keys.object, Keys.objectPrefix]
  rw [hrest]
  show decide (beforeSeparator (bucket ++ Keys.separator :: key) = some name) = _
  rw [beforeSeparator_append hbucket]
  exact decide_eq_decide.mpr Option.some_inj

theorem charged_part {uploadId : Bytes} (hid : Keys.separator ∉ uploadId) (number : UInt32) :
    charged name uploads (Keys.part uploadId number) = uploads uploadId := by
  have hrest : Keys.part uploadId number =
      Keys.kPart :: (uploadId ++ Keys.separator :: Keys.bigEndian32 number) := by
    simp [Keys.part, Keys.partPrefix]
  rw [hrest]
  show (beforeSeparator (uploadId ++ Keys.separator :: Keys.bigEndian32 number)).any uploads = _
  rw [beforeSeparator_append hid, Option.any_some]

/-- Two scans that have gathered the same for one bucket and its uploads. -/
structure SameScan (name : Bytes) (uploads : Bytes → Bool) (first second : MetadataScan) :
    Prop where
  charge : first.charges.find? name = second.charges.find? name
  parts : ∀ uploadId, uploads uploadId = true →
    first.partBytesByUpload.find? uploadId = second.partBytesByUpload.find? uploadId
  bucket : ∀ uploadId, uploads uploadId = true →
    first.bucketByUpload.find? uploadId = second.bucketByUpload.find? uploadId

namespace SameScan

variable {first second third next other : MetadataScan}

theorem refl (scan : MetadataScan) : SameScan name uploads scan scan :=
  ⟨rfl, fun _ _ => rfl, fun _ _ => rfl⟩

theorem symm (h : SameScan name uploads first second) : SameScan name uploads second first :=
  ⟨h.charge.symm, fun uploadId hid => (h.parts uploadId hid).symm,
    fun uploadId hid => (h.bucket uploadId hid).symm⟩

theorem trans (h : SameScan name uploads first second) (hnext : SameScan name uploads second third) :
    SameScan name uploads first third :=
  ⟨h.charge.trans hnext.charge,
    fun uploadId hid => (h.parts uploadId hid).trans (hnext.parts uploadId hid),
    fun uploadId hid => (h.bucket uploadId hid).trans (hnext.bucket uploadId hid)⟩

end SameScan

variable {first second : MetadataScan}

/-- A scan passes over a row that is not about the bucket. -/
theorem sameScan_of_not_charged {row : Bytes × Bytes} {next : MetadataScan}
    (hrow : charged name uploads row.1 = false) (h : first.scanRow row = .ok next) :
    SameScan name uploads next first := by
  obtain ⟨_ | ⟨tag, rest⟩, stored⟩ := row
  · obtain rfl := Except.ok.inj h
    exact .refl _
  · rw [MetadataScan.scanRow] at h
    rw [charged] at hrow
    split_ifs at h hrow with hbucket hupload horphan hpart hobject
    · obtain rfl := Except.ok.inj h
      refine ⟨OrderedMap.find?_modify_of_ne _ _ fun hname => ?_, fun _ _ => rfl, fun _ _ => rfl⟩
      exact absurd hname.symm (of_decide_eq_false hrow)
    · rw [MetadataScan.scanUpload] at h
      obtain ⟨upload, -, h⟩ := Except.bind_eq_ok_iff.mp h
      obtain rfl := Except.pure_eq_ok_iff.mp h
      refine ⟨rfl, fun _ _ => rfl, fun uploadId hid => ?_⟩
      refine OrderedMap.find?_insert_of_ne _ _ fun hequal => ?_
      rw [hequal, hrow] at hid
      cases hid
    · obtain rfl := Except.ok.inj h
      exact ⟨rfl, fun _ _ => rfl, fun _ _ => rfl⟩
    · rw [MetadataScan.scanPart] at h
      split at h
      · obtain rfl := Except.ok.inj h
        exact .refl _
      · rename_i uploadId hseparated
        obtain ⟨size, -, h⟩ := Except.bind_eq_ok_iff.mp h
        obtain rfl := Except.pure_eq_ok_iff.mp h
        rw [hseparated, Option.any_some] at hrow
        refine ⟨rfl, fun other hother => ?_, fun _ _ => rfl⟩
        refine OrderedMap.find?_modify_of_ne _ _ fun hequal => ?_
        rw [hequal, hrow] at hother
        cases hother
    · rw [MetadataScan.scanObject] at h
      obtain ⟨size, -, h⟩ := Except.bind_eq_ok_iff.mp h
      obtain rfl := Except.pure_eq_ok_iff.mp h
      refine ⟨?_, fun _ _ => rfl, fun _ _ => rfl⟩
      dsimp only
      split
      · rfl
      · rename_i bucket hseparated
        refine OrderedMap.find?_modify_of_ne _ _ fun hname => ?_
        rw [hseparated, hname] at hrow
        exact of_decide_eq_false hrow rfl
    · obtain rfl := Except.ok.inj h
      exact .refl _

/-- Scans that are alike are alike after the same row. -/
theorem SameScan.scanRow (hsame : SameScan name uploads first second) {row : Bytes × Bytes}
    {firstNext secondNext : MetadataScan} (hfirst : first.scanRow row = .ok firstNext)
    (hsecond : second.scanRow row = .ok secondNext) :
    SameScan name uploads firstNext secondNext := by
  obtain ⟨_ | ⟨tag, rest⟩, stored⟩ := row
  · obtain rfl := Except.ok.inj hfirst
    obtain rfl := Except.ok.inj hsecond
    exact hsame
  · rw [MetadataScan.scanRow] at hfirst hsecond
    split_ifs at hfirst hsecond with hbucket hupload horphan hpart hobject
    · obtain rfl := Except.ok.inj hfirst
      obtain rfl := Except.ok.inj hsecond
      exact ⟨OrderedMap.find?_modify_congr _ _ hsame.charge, hsame.parts, hsame.bucket⟩
    · rw [MetadataScan.scanUpload] at hfirst hsecond
      obtain ⟨upload, hdecode, hfirst⟩ := Except.bind_eq_ok_iff.mp hfirst
      obtain ⟨same, hsameDecode, hsecond⟩ := Except.bind_eq_ok_iff.mp hsecond
      obtain rfl : upload = same := Except.ok.inj (hdecode.symm.trans hsameDecode)
      obtain rfl := Except.pure_eq_ok_iff.mp hfirst
      obtain rfl := Except.pure_eq_ok_iff.mp hsecond
      refine ⟨hsame.charge, hsame.parts, fun uploadId hid => ?_⟩
      rw [OrderedMap.find?_insert, OrderedMap.find?_insert, hsame.bucket uploadId hid]
    · obtain rfl := Except.ok.inj hfirst
      obtain rfl := Except.ok.inj hsecond
      exact ⟨hsame.charge, hsame.parts, hsame.bucket⟩
    · rw [MetadataScan.scanPart] at hfirst hsecond
      cases hseparated : beforeSeparator rest with
      | none =>
          rw [hseparated] at hfirst hsecond
          obtain rfl := Except.ok.inj hfirst
          obtain rfl := Except.ok.inj hsecond
          exact hsame
      | some uploadId =>
          rw [hseparated] at hfirst hsecond
          obtain ⟨size, hdecode, hfirst⟩ := Except.bind_eq_ok_iff.mp hfirst
          obtain ⟨same, hsameDecode, hsecond⟩ := Except.bind_eq_ok_iff.mp hsecond
          obtain rfl : size = same := Except.ok.inj (hdecode.symm.trans hsameDecode)
          obtain rfl := Except.pure_eq_ok_iff.mp hfirst
          obtain rfl := Except.pure_eq_ok_iff.mp hsecond
          exact ⟨hsame.charge,
            fun other hother => OrderedMap.find?_modify_congr _ _ (hsame.parts other hother),
            hsame.bucket⟩
    · rw [MetadataScan.scanObject] at hfirst hsecond
      obtain ⟨size, hdecode, hfirst⟩ := Except.bind_eq_ok_iff.mp hfirst
      obtain ⟨same, hsameDecode, hsecond⟩ := Except.bind_eq_ok_iff.mp hsecond
      obtain rfl : size = same := Except.ok.inj (hdecode.symm.trans hsameDecode)
      obtain rfl := Except.pure_eq_ok_iff.mp hfirst
      obtain rfl := Except.pure_eq_ok_iff.mp hsecond
      refine ⟨?_, hsame.parts, hsame.bucket⟩
      dsimp only
      split
      · exact hsame.charge
      · exact OrderedMap.find?_modify_congr _ _ hsame.charge
    · obtain rfl := Except.ok.inj hfirst
      obtain rfl := Except.ok.inj hsecond
      exact hsame

theorem scanRows_cons_eq_ok {scan final : MetadataScan} {row : Bytes × Bytes}
    {rest : List (Bytes × Bytes)} (h : scanRows scan (row :: rest) = .ok final) :
    ∃ next, scan.scanRow row = .ok next ∧ scanRows next rest = .ok final := by
  rw [scanRows] at h
  obtain ⟨next, hnext, h⟩ := Except.bind_eq_ok_iff.mp h
  refine ⟨next, ?_, h⟩
  cases hrow : scan.scanRow row with
  | error error => simp [hrow, decoded] at hnext
  | ok found => simpa [hrow, decoded] using hnext

/-- What a scan gathers for a bucket comes from the rows about it. -/
theorem SameScan.scanRows (hsame : SameScan name uploads first second)
    {listed : List (Bytes × Bytes)} {firstFinal secondFinal : MetadataScan}
    (hfirst : MonoBucket.scanRows first listed = .ok firstFinal)
    (hsecond : MonoBucket.scanRows second
      (listed.filter fun row => charged name uploads row.1) = .ok secondFinal) :
    SameScan name uploads firstFinal secondFinal := by
  induction listed generalizing first second with
  | nil =>
      obtain rfl := Except.ok.inj hfirst
      obtain rfl := Except.ok.inj hsecond
      exact hsame
  | cons row rest ih =>
      obtain ⟨firstNext, hfirstRow, hfirst⟩ := scanRows_cons_eq_ok hfirst
      cases hrow : charged name uploads row.1 with
      | false =>
          rw [List.filter_cons_of_neg (by simp [hrow])] at hsecond
          exact ih ((sameScan_of_not_charged hrow hfirstRow).trans hsame) hfirst hsecond
      | true =>
          rw [List.filter_cons, if_pos hrow] at hsecond
          obtain ⟨secondNext, hsecondRow, hsecond⟩ := scanRows_cons_eq_ok hsecond
          exact ih (hsame.scanRow hfirstRow hsecondRow) hfirst hsecond

/-- The charge of a bucket, when an upload's parts are added to it. -/
def joinedCharge (name : Bytes) (scan : MetadataScan) (charge : Option BucketCharge)
    (entry : Bytes × UInt64) : Option BucketCharge :=
  if scan.bucketByUpload.find? entry.1 = some name then
    some { (charge.getD default) with partBytes := (charge.getD default).partBytes + entry.2 }
  else charge

/-- What the join adds to a bucket's charge are the parts of its own uploads. -/
theorem find?_joinParts {scan : MetadataScan}
    (hothers : ∀ uploadId, uploads uploadId = false →
      scan.bucketByUpload.find? uploadId ≠ some name) :
    scan.joinParts.find? name =
      (scan.partBytesByUpload.entries.filter fun entry => uploads entry.1).foldl
        (joinedCharge name scan) (scan.charges.find? name) := by
  rw [MetadataScan.joinParts]
  generalize scan.partBytesByUpload.entries = entries
  generalize scan.charges = charges
  induction entries generalizing charges with
  | nil => rfl
  | cons entry rest ih =>
      rw [List.foldl_cons, ih]
      cases hentry : uploads entry.1 with
      | false =>
          rw [List.filter_cons_of_neg (by simp [hentry])]
          congr 1
          split
          · rfl
          · rename_i bucket hbucket
            refine OrderedMap.find?_modify_of_ne _ _ fun hname => ?_
            exact hothers entry.1 hentry (hname ▸ hbucket)
      | true =>
          rw [List.filter_cons, if_pos hentry, List.foldl_cons]
          congr 1
          rw [joinedCharge]
          split
          · rename_i hnone
            rw [if_neg (by simp [hnone])]
          · rename_i bucket hbucket
            by_cases hname : bucket = name
            · subst hname
              rw [if_pos hbucket, OrderedMap.modify, OrderedMap.find?_insert_self]
            · rw [OrderedMap.find?_modify_of_ne _ _ (Ne.symm hname), if_neg]
              rw [hbucket]
              exact fun h => hname (Option.some.inj h)

theorem SameScan.find?_joinParts (hsame : SameScan name uploads first second)
    (hfirst : ∀ uploadId, uploads uploadId = false →
      first.bucketByUpload.find? uploadId ≠ some name)
    (hsecond : ∀ uploadId, uploads uploadId = false →
      second.bucketByUpload.find? uploadId ≠ some name) :
    first.joinParts.find? name = second.joinParts.find? name := by
  rw [MonoBucket.find?_joinParts hfirst, MonoBucket.find?_joinParts hsecond,
    OrderedMap.filter_entries_congr uploads hsame.parts, hsame.charge]
  apply List.foldl_ext
  intro charge entry hentry
  rw [joinedCharge, joinedCharge, hsame.bucket entry.1 (List.mem_filter.mp hentry).2]

/-- One row tells the join of no upload but its own. -/
theorem bucketByUpload_of_scanRow {scan next : MetadataScan} {row : Bytes × Bytes}
    (h : scan.scanRow row = .ok next) {uploadId bucket : Bytes}
    (hfind : next.bucketByUpload.find? uploadId = some bucket) :
    scan.bucketByUpload.find? uploadId = some bucket ∨ ∃ upload,
      row.1 = Keys.uploadById uploadId ∧ decodeUpload uploadId row.2 = .ok upload ∧
        upload.bucket.items = bucket := by
  obtain ⟨_ | ⟨tag, rest⟩, stored⟩ := row
  · obtain rfl := Except.ok.inj h
    exact Or.inl hfind
  · rw [MetadataScan.scanRow] at h
    split_ifs at h with hbucket hupload horphan hpart hobject
    · obtain rfl := Except.ok.inj h
      exact Or.inl hfind
    · rw [MetadataScan.scanUpload] at h
      obtain ⟨upload, hdecode, h⟩ := Except.bind_eq_ok_iff.mp h
      obtain rfl := Except.pure_eq_ok_iff.mp h
      by_cases hid : uploadId = rest
      · subst hid
        rw [OrderedMap.find?_insert_self] at hfind
        exact Or.inr ⟨upload, by rw [hupload]; rfl, hdecode, Option.some.inj hfind⟩
      · rw [OrderedMap.find?_insert_of_ne _ _ hid] at hfind
        exact Or.inl hfind
    · obtain rfl := Except.ok.inj h
      exact Or.inl hfind
    · rw [MetadataScan.scanPart] at h
      split at h
      · obtain rfl := Except.ok.inj h
        exact Or.inl hfind
      · obtain ⟨size, -, h⟩ := Except.bind_eq_ok_iff.mp h
        obtain rfl := Except.pure_eq_ok_iff.mp h
        exact Or.inl hfind
    · rw [MetadataScan.scanObject] at h
      obtain ⟨size, -, h⟩ := Except.bind_eq_ok_iff.mp h
      obtain rfl := Except.pure_eq_ok_iff.mp h
      exact Or.inl hfind
    · obtain rfl := Except.ok.inj h
      exact Or.inl hfind

theorem bucketByUpload_of_scanRows {scan final : MetadataScan} {listed : List (Bytes × Bytes)}
    (h : scanRows scan listed = .ok final) {uploadId bucket : Bytes}
    (hfind : final.bucketByUpload.find? uploadId = some bucket) :
    scan.bucketByUpload.find? uploadId = some bucket ∨ ∃ row ∈ listed, ∃ upload,
      row.1 = Keys.uploadById uploadId ∧ decodeUpload uploadId row.2 = .ok upload ∧
        upload.bucket.items = bucket := by
  induction listed generalizing scan with
  | nil =>
      obtain rfl := Except.ok.inj h
      exact Or.inl hfind
  | cons row rest ih =>
      obtain ⟨next, hrow, hrest⟩ := scanRows_cons_eq_ok h
      rcases ih hrest with hnext | ⟨other, hother, hupload⟩
      · rcases bucketByUpload_of_scanRow hrow hnext with hscan | hupload
        · exact Or.inl hscan
        · exact Or.inr ⟨row, List.mem_cons_self .., hupload⟩
      · exact Or.inr ⟨other, List.mem_cons_of_mem _ hother, hupload⟩

/-- The join knows the uploads that are there, and no others. -/
theorem uploadIn_of_scanRows {rows : Rows} {final : MetadataScan}
    (h : scanRows {} rows.entries = .ok final) {uploadId : Bytes}
    (hfind : final.bucketByUpload.find? uploadId = some name) : UploadIn rows name uploadId := by
  rcases bucketByUpload_of_scanRows h hfind with hnone | ⟨row, hrow, upload, hkey, hdecode, hname⟩
  · cases hnone
  · have hstored : rows.find? (Keys.uploadById uploadId) = some row.2 := by
      rw [← hkey]
      exact (OrderedMap.find?_eq_some_iff _).mpr hrow
    refine ⟨upload, ?_, hname⟩
    rw [loadUpload, readRow, hstored]
    simp [hdecode, decoded, Except.map]

/-- A row the scan can read, if it is of a kind the scan reads. -/
structure Scannable (key stored : Bytes) : Prop where
  object : key.head? = some Keys.kObject → ∃ object : ObjectRecord, stored = encodeObject object
  upload : key.head? = some Keys.kUploadById → ∃ upload : UploadRecord, stored = encodeUpload upload
  part : key.head? = some Keys.kPart → ∃ part : PartRecord, stored = encodePart part

theorem Scannable.scanRow {row : Bytes × Bytes} (h : Scannable row.1 row.2) (scan : MetadataScan) :
    (scan.scanRow row).Returns := by
  obtain ⟨_ | ⟨tag, rest⟩, stored⟩ := row
  · exact ⟨_, rfl⟩
  · rw [MetadataScan.scanRow]
    split_ifs with hbucket hupload horphan hpart hobject
    · exact ⟨_, rfl⟩
    · obtain ⟨upload, rfl⟩ := h.upload (by rw [hupload]; rfl)
      have hdecode := decodeUpload_encodeUpload { upload with uploadId := rest }
      exact Except.Returns.bind ⟨_, hdecode⟩ fun _ => ⟨_, rfl⟩
    · exact ⟨_, rfl⟩
    · obtain ⟨part, rfl⟩ := h.part (by rw [hpart]; rfl)
      rw [MetadataScan.scanPart]
      split
      · exact ⟨_, rfl⟩
      · exact Except.Returns.bind ⟨_, decodePayloadSize_encodePart part⟩ fun _ => ⟨_, rfl⟩
    · obtain ⟨object, rfl⟩ := h.object (by rw [hobject]; rfl)
      exact Except.Returns.bind ⟨_, decodePayloadSize_encodeObject object⟩ fun _ => ⟨_, rfl⟩
    · exact ⟨_, rfl⟩

theorem scanRows_returns_of_scannable {listed : List (Bytes × Bytes)}
    (h : ∀ row ∈ listed, Scannable row.1 row.2) (scan : MetadataScan) :
    (scanRows scan listed).Returns := by
  induction listed generalizing scan with
  | nil => exact ⟨scan, rfl⟩
  | cons row rest ih =>
      obtain ⟨value, hvalue⟩ := (h row (List.mem_cons_self ..)).scanRow scan
      have hfirst : (decoded (scan.scanRow row)).Returns := ⟨value, by rw [hvalue]; rfl⟩
      apply hfirst.bind
      intro next
      exact ih (fun other hother => h other (List.mem_cons_of_mem _ hother)) next

instance (rows : Rows) (name uploadId : Bytes) : Decidable (UploadIn rows name uploadId) :=
  match hload : loadUpload rows uploadId with
  | .ok (some upload) =>
    decidable_of_iff (upload.bucket.items = name)
      ⟨fun h => ⟨upload, hload, h⟩, fun ⟨other, hother, hname⟩ => by
        rw [hload] at hother
        rwa [Option.some.inj (Except.ok.inj hother)]⟩
  | .ok none => isFalse fun ⟨_, hother, _⟩ => by rw [hload] at hother; cases hother
  | .error _ => isFalse fun ⟨_, hother, _⟩ => by rw [hload] at hother; cases hother

/-- The usage of a bucket is the same on rows that agree on its objects, its
uploads and their parts. -/
theorem bucketUsage_congr {before after : Rows} (hbefore : before.Holds Scannable)
    (hafter : after.Holds Scannable)
    (hsame : ∀ key, charged name (fun uploadId => UploadIn before name uploadId) key = true →
      after.find? key = before.find? key)
    (huploads : ∀ uploadId, UploadIn after name uploadId → UploadIn before name uploadId) :
    bucketUsage after name = bucketUsage before name := by
  have hscannable : ∀ {rows : Rows}, rows.Holds Scannable → ∀ {listed : List (Bytes × Bytes)},
      listed ⊆ rows.entries → ∀ row ∈ listed, Scannable row.1 row.2 :=
    fun hrows _ hlisted row hrow => hrows.of_mem (hlisted hrow)
  obtain ⟨first, hfirst⟩ :=
    scanRows_returns_of_scannable (hscannable hbefore (List.Subset.refl _)) {}
  obtain ⟨last, hlast⟩ :=
    scanRows_returns_of_scannable (hscannable hafter (List.Subset.refl _)) {}
  obtain ⟨shared, hshared⟩ : (scanRows {} (before.entries.filter fun row =>
      charged name (fun uploadId => UploadIn before name uploadId) row.1)).Returns :=
    scanRows_returns_of_scannable
      (hscannable hbefore fun _ hrow => (List.mem_filter.mp hrow).1) {}
  have hfirstShared := (SameScan.refl {}).scanRows hfirst hshared
  rw [← OrderedMap.filter_entries_congr _ hsame] at hshared
  have hlastShared := (SameScan.refl {}).scanRows hlast hshared
  have hequal : last.joinParts.find? name = first.joinParts.find? name := by
    apply (hlastShared.trans hfirstShared.symm).find?_joinParts
    · intro uploadId hid hfind
      exact of_decide_eq_false hid (huploads uploadId (uploadIn_of_scanRows hlast hfind))
    · intro uploadId hid hfind
      exact of_decide_eq_false hid (uploadIn_of_scanRows hfirst hfind)
  rw [bucketUsage, bucketUsage, hfirst, hlast]
  exact congrArg Except.ok hequal

end Usage

end MonoBucket

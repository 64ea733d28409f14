/-
Markers of an upload listing

Reading on from the start gives every upload under the prefix. A marker pair is where a
page ended, so the uploads behind it are those of larger keys and those of the same key
under larger ids. A key marker on its own reads as a pair with the empty id: the uploads
of that very key are behind it, though both markers are meant to be exclusive.
-/

import MonoBucket.Lib.Checked
import MonoBucket.Storage.UploadPages

namespace MonoBucket

open Codec UploadPages

/-- An upload of a bucket that is there: indexed by its key, and loaded by its id. -/
def Live (rows : Rows) (bucket : Bytes) (upload : UploadRecord) : Prop :=
  (rows.find? (rowKey bucket upload)).isSome ∧
    loadUpload rows upload.uploadId = .ok (some upload)

/-- The rows by key of a bucket are those of keys and ids that are not empty and hold no
separator, and the id is that of the upload they name, if the upload is still there. -/
def UploadIndex (rows : Rows) (bucket : Bytes) : Prop :=
  ∀ row ∈ rows.scan (Keys.uploadByKeyPrefix bucket),
    ∃ parts found, IndexRow rows bucket row parts found ∧ parts.uploadId ≠ []

/-- The order of a listing: by key, and by id under one key. -/
def Precedes (first second : UploadRecord) : Prop :=
  first.key.items < second.key.items ∨
    first.key.items = second.key.items ∧ first.uploadId < second.uploadId

/-- Reading on from a request ends, with exactly the chosen uploads of the bucket that are
there, each once, in order. -/
def ListsExactly (rows : Rows) (bucket : Bytes) (request : ListUploadsRequest)
    (chosen : UploadRecord → Prop) : Prop :=
  ∃ pages : List ListUploadsResult,
    (∃ enough, ∀ fuel, enough ≤ fuel → uploadPages rows bucket fuel request = .ok (some pages)) ∧
    (pages.flatMap ListUploadsResult.uploads).Pairwise Precedes ∧
    ∀ upload, upload ∈ pages.flatMap ListUploadsResult.uploads ↔
      Live rows bucket upload ∧ chosen upload

/-- Without markers everything under the prefix is listed, and with a key marker alone
what has a larger key. -/
structure PagesExactly (rows : Rows) (bucket keyPrefix : Bytes) (maxUploads : UInt32)
    (keyMarker : Bytes) : Prop where
  complete : ListsExactly rows bucket { keyPrefix := keyPrefix, maxUploads := maxUploads }
    fun upload => keyPrefix <+: upload.key.items
  exclusive : ListsExactly rows bucket
    { keyPrefix := keyPrefix, maxUploads := maxUploads, keyMarker := keyMarker }
    fun upload => keyPrefix <+: upload.key.items ∧ keyMarker < upload.key.items

section Index

variable {rows : Rows} {bucket : Bytes} {request : ListUploadsRequest}

theorem UploadIndex.exists_indexed (h : UploadIndex rows bucket) :
    ∃ uploads, Indexed rows bucket (rows.scan (Keys.uploadByKeyPrefix bucket)) uploads := by
  rw [UploadIndex] at h
  generalize rows.scan (Keys.uploadByKeyPrefix bucket) = listed at h
  induction listed with
  | nil => exact ⟨[], .nil⟩
  | cons row listed ih =>
      obtain ⟨⟨parts, found, hrow, -⟩, hlisted⟩ := List.forall_mem_cons.mp h
      obtain ⟨uploads, huploads⟩ := ih hlisted
      exact ⟨found.toList ++ uploads, .cons hrow huploads⟩

/-- A row is built from one key and one id. -/
theorem parts_of_uploadByKey {parts : Keys.UploadKeyParts} {key uploadId : Bytes}
    (hkey : Keys.separator ∉ parts.key) (hid : Keys.separator ∉ parts.uploadId)
    (h : Keys.uploadByKey bucket key uploadId = Keys.uploadByKey bucket parts.key parts.uploadId) :
    key = parts.key ∧ uploadId = parts.uploadId := by
  have hrest : key ++ Keys.separator :: uploadId =
      parts.key ++ Keys.separator :: parts.uploadId := by
    rw [Keys.uploadByKey, Keys.uploadByKey] at h
    simpa only [List.append_assoc, List.singleton_append, List.append_cancel_left_eq] using h
  -- the right side holds one separator, so the left side holds no other
  have hcount := congrArg (List.count Keys.separator) hrest
  rw [List.count_append, List.count_append, List.count_cons_self, List.count_cons_self,
    List.count_eq_zero_of_not_mem hkey, List.count_eq_zero_of_not_mem hid] at hcount
  have hplain : Keys.separator ∉ uploadId := List.count_eq_zero.mp (by omega)
  have hparts : Keys.uploadKeyParts (Keys.uploadByKey bucket key uploadId) bucket =
      some ⟨key, uploadId⟩ := Keys.uploadKeyParts_uploadByKey hplain
  rw [h, Keys.uploadKeyParts_uploadByKey hid] at hparts
  obtain ⟨hkey, hid⟩ := Keys.UploadKeyParts.mk.inj (Option.some.inj hparts)
  exact ⟨hkey.symm, hid.symm⟩

/-- The uploads of the index are those that are there. -/
theorem mem_indexed_iff {uploads : List UploadRecord}
    (hrows : Indexed rows bucket (rows.scan (Keys.uploadByKeyPrefix bucket)) uploads)
    {upload : UploadRecord} : upload ∈ uploads ↔ Live rows bucket upload := by
  constructor
  · intro hupload
    obtain ⟨row, hrow, huploadRow⟩ := hrows.exists_row hupload
    refine ⟨?_, huploadRow.load⟩
    have hfind : rows.find? row.1 = some row.2 :=
      rows.find?_eq_some_iff.mpr (Rows.mem_scan.mp hrow).1
    rw [← huploadRow.key, hfind]
    rfl
  · rintro ⟨hpresent, hload⟩
    obtain ⟨stored, hfind⟩ := Option.isSome_iff_exists.mp hpresent
    have hlisted : (rowKey bucket upload, stored) ∈ rows.scan (Keys.uploadByKeyPrefix bucket) :=
      Rows.mem_scan.mpr ⟨rows.find?_eq_some_iff.mp hfind, uploadByKeyPrefix_isPrefix ..⟩
    generalize rows.scan (Keys.uploadByKeyPrefix bucket) = listed at hrows hlisted
    induction hrows with
    | nil => cases hlisted
    | @cons row parts found listed uploads head tail ih =>
        rcases List.mem_cons.mp hlisted with rfl | hlater
        · obtain ⟨-, hid⟩ := parts_of_uploadByKey head.plainKey head.plainId head.key
          rw [hid, head.load] at hload
          obtain rfl := Except.ok.inj hload
          exact List.mem_append_left _ (Option.mem_toList.mpr rfl)
        · exact List.mem_append_right _ (ih hlater)

theorem UploadIndex.uploadId_ne_nil (h : UploadIndex rows bucket) {upload : UploadRecord}
    (hlive : Live rows bucket upload) : upload.uploadId ≠ [] := by
  obtain ⟨stored, hfind⟩ := Option.isSome_iff_exists.mp hlive.1
  obtain ⟨parts, found, hrow, hid⟩ := h (rowKey bucket upload, stored)
    (Rows.mem_scan.mpr ⟨rows.find?_eq_some_iff.mp hfind, uploadByKeyPrefix_isPrefix ..⟩)
  rw [(parts_of_uploadByKey hrow.plainKey hrow.plainId hrow.key).2]
  exact hid

theorem Indexed.precedes {uploads : List UploadRecord}
    (hrows : Indexed rows bucket (rows.scan (Keys.uploadByKeyPrefix bucket)) uploads) :
    uploads.Pairwise Precedes := by
  refine (hrows.ascending (scan_ascending rows _)).imp_of_mem fun hfirst hsecond hlt => ?_
  obtain ⟨row, -, hrow⟩ := hrows.exists_row hfirst
  obtain ⟨otherRow, -, hotherRow⟩ := hrows.exists_row hsecond
  exact (uploadByKey_lt_iff hrow.plainKey hotherRow.plainKey).mp hlt

/-- Reading on gives the uploads that are wanted. -/
theorem listsExactly_wanted (hbucket : requireBucket rows bucket = .ok ())
    (hindex : UploadIndex rows bucket) (hmax : request.maxUploads ≠ 0) :
    ListsExactly rows bucket request fun upload => wanted request upload := by
  obtain ⟨uploads, hrows⟩ := hindex.exists_indexed
  obtain ⟨pages, hpages, hall⟩ := @uploadPages_wanted _ _ request _ hbucket hrows hmax
  refine ⟨pages, ⟨_, hpages⟩, ?_, fun upload => ?_⟩
  · rw [hall]
    exact (Indexed.precedes hrows).filter _
  · rw [hall, List.mem_filter, mem_indexed_iff hrows]

/-- Two choices a request lists exactly agree on the uploads that are there. -/
theorem ListsExactly.congr {first second : UploadRecord → Prop}
    (hfirst : ListsExactly rows bucket request first)
    (hsecond : ListsExactly rows bucket request second) {upload : UploadRecord}
    (hlive : Live rows bucket upload) : first upload ↔ second upload := by
  obtain ⟨pages, ⟨enough, hpages⟩, -, hmem⟩ := hfirst
  obtain ⟨others, ⟨otherEnough, hothers⟩, -, hotherMem⟩ := hsecond
  have hsame := (hpages _ (le_max_left enough otherEnough)).symm.trans
    (hothers _ (le_max_right enough otherEnough))
  obtain rfl := Option.some.inj (Except.ok.inj hsame)
  have hboth := (hmem upload).symm.trans (hotherMem upload)
  exact ⟨fun h => (hboth.mp ⟨hlive, h⟩).2, fun h => (hboth.mpr ⟨hlive, h⟩).2⟩

theorem ListsExactly.of_congr {first second : UploadRecord → Prop}
    (hfirst : ListsExactly rows bucket request first)
    (hsame : ∀ upload, Live rows bucket upload → (first upload ↔ second upload)) :
    ListsExactly rows bucket request second := by
  obtain ⟨pages, hpages, hordered, hmem⟩ := hfirst
  exact ⟨pages, hpages, hordered,
    fun upload => (hmem upload).trans (and_congr_right (hsame upload))⟩

end Index

section Exclusive

variable {rows : Rows} {bucket keyPrefix keyMarker : Bytes} {maxUploads : UInt32}

theorem wanted_of_no_marker (upload : UploadRecord) :
    wanted { keyPrefix := keyPrefix, maxUploads := maxUploads } upload ↔
      keyPrefix <+: upload.key.items := by
  simp [wanted, passes, beforeMarker]

/-- Behind a key marker alone are larger keys, and the uploads of the key itself. -/
theorem wanted_of_keyMarker (hmarker : keyMarker ≠ []) {upload : UploadRecord}
    (hid : upload.uploadId ≠ []) :
    wanted { keyPrefix := keyPrefix, maxUploads := maxUploads, keyMarker := keyMarker } upload ↔
      keyPrefix <+: upload.key.items ∧
        (keyMarker < upload.key.items ∨ keyMarker = upload.key.items) := by
  have hbehind : ¬ upload.uploadId ≤ [] := fun hle => by
    cases hempty : upload.uploadId with
    | nil => exact hid hempty
    | cons byte rest => exact List.not_cons_le_nil byte rest (hempty ▸ hle)
  simp only [wanted, passes, beforeMarker, Bool.and_eq_true, Bool.not_eq_true',
    decide_eq_false_iff_not, List.isPrefixOf_iff_prefix, ne_eq, hmarker, not_false_eq_true,
    true_and, hbehind, and_false, or_false, not_lt]
  rw [and_comm, le_iff_lt_or_eq]

/-- The listing is exact unless the key marker is the key of an upload that is there:
pages are complete, and a key marker alone excludes what it names. -/
theorem pagesExactly_iff (hbucket : requireBucket rows bucket = .ok ())
    (hindex : UploadIndex rows bucket) (hmax : maxUploads ≠ 0) (hmarker : keyMarker ≠ []) :
    PagesExactly rows bucket keyPrefix maxUploads keyMarker ↔
      ¬ ∃ upload, Live rows bucket upload ∧ keyPrefix <+: upload.key.items ∧
        upload.key.items = keyMarker := by
  have hall : ListsExactly rows bucket { keyPrefix := keyPrefix, maxUploads := maxUploads }
      fun upload => keyPrefix <+: upload.key.items :=
    (listsExactly_wanted hbucket hindex hmax).of_congr fun upload _ => wanted_of_no_marker upload
  have hbehind : ListsExactly rows bucket
      { keyPrefix := keyPrefix, maxUploads := maxUploads, keyMarker := keyMarker }
      fun upload => keyPrefix <+: upload.key.items ∧
        (keyMarker < upload.key.items ∨ keyMarker = upload.key.items) :=
    (listsExactly_wanted hbucket hindex hmax).of_congr fun upload hlive =>
      wanted_of_keyMarker hmarker (hindex.uploadId_ne_nil hlive)
  constructor
  · rintro hexact ⟨upload, hlive, hstarts, rfl⟩
    have hboth := (hexact.exclusive.congr hbehind hlive).mpr ⟨hstarts, .inr rfl⟩
    exact lt_irrefl _ hboth.2
  · intro hnone
    refine ⟨hall, hbehind.of_congr fun upload hlive => ?_⟩
    constructor
    · rintro ⟨hstarts, hlt | heq⟩
      · exact ⟨hstarts, hlt⟩
      · exact absurd ⟨upload, hlive, hstarts, heq.symm⟩ hnone
    · rintro ⟨hstarts, hlt⟩
      exact ⟨hstarts, .inl hlt⟩

end Exclusive

/-! ### Two uploads of a bucket -/

def albumUpload : UploadRecord where
  uploadId := ascii "1"
  bucket := ⟨ascii "photos", fits_photos⟩
  key := ⟨ascii "album", by decide⟩

def coverUpload : UploadRecord where
  uploadId := ascii "2"
  bucket := ⟨ascii "photos", fits_photos⟩
  key := ⟨ascii "cover", by decide⟩

/-- The rows of a bucket with both uploads. -/
def twoUploads : Rows :=
  Rows.write .empty (.put (Keys.bucket (ascii "photos")) [] ::
    (createUploadBatch albumUpload ++ createUploadBatch coverUpload))

theorem indexRow_of_twoUploads {upload : UploadRecord}
    (hupload : upload = albumUpload ∨ upload = coverUpload) :
    IndexRow twoUploads (ascii "photos") (rowKey (ascii "photos") upload, [])
      ⟨upload.key.items, upload.uploadId⟩ (some upload) where
  key := rfl
  nonempty := by rcases hupload with rfl | rfl <;> decide
  plainKey := by rcases hupload with rfl | rfl <;> decide
  plainId := by rcases hupload with rfl | rfl <;> decide
  load := by
    rcases hupload with rfl | rfl
    · exact readRow_of_find? rfl (decodeUpload_encodeUpload albumUpload)
    · exact readRow_of_find? rfl (decodeUpload_encodeUpload coverUpload)
  names := by
    rintro other hother
    cases hother
    exact ⟨rfl, rfl⟩

theorem scan_twoUploads : twoUploads.scan (Keys.uploadByKeyPrefix (ascii "photos")) =
    [(rowKey (ascii "photos") albumUpload, []), (rowKey (ascii "photos") coverUpload, [])] := by
  rfl

theorem uploadIndex_twoUploads : UploadIndex twoUploads (ascii "photos") := by
  rw [UploadIndex, scan_twoUploads]
  intro row hrow
  rcases List.mem_cons.mp hrow with rfl | hrow
  · exact ⟨_, _, indexRow_of_twoUploads (.inl rfl), by decide⟩
  · obtain rfl := List.mem_singleton.mp hrow
    exact ⟨_, _, indexRow_of_twoUploads (.inr rfl), by decide⟩

/-- A marker that names neither upload excludes the first and lists the second. -/
theorem pagesExactly_iff_backCover :
    PagesExactly twoUploads (ascii "photos") [] 1 (ascii "back cover") := by
  refine (pagesExactly_iff rfl uploadIndex_twoUploads (by decide) (by decide)).mpr ?_
  rintro ⟨upload, ⟨hpresent, -⟩, -, hkey⟩
  obtain ⟨stored, hfind⟩ := Option.isSome_iff_exists.mp hpresent
  have hrow : (rowKey (ascii "photos") upload, stored) ∈
      twoUploads.scan (Keys.uploadByKeyPrefix (ascii "photos")) :=
    Rows.mem_scan.mpr ⟨twoUploads.find?_eq_some_iff.mp hfind, uploadByKeyPrefix_isPrefix ..⟩
  rw [scan_twoUploads] at hrow
  rcases List.mem_cons.mp hrow with h | hrow
  · have hparts := @parts_of_uploadByKey _ ⟨ascii "album", ascii "1"⟩ _ _ (by decide) (by decide)
      (congrArg Prod.fst h)
    exact absurd (hkey.symm.trans hparts.1) (by decide)
  · have hparts := @parts_of_uploadByKey _ ⟨ascii "cover", ascii "2"⟩ _ _ (by decide) (by decide)
      (congrArg Prod.fst (List.mem_singleton.mp hrow))
    exact absurd (hkey.symm.trans hparts.1) (by decide)

/-- A listing given only the key marker `album` returns the upload of `album`. -/
theorem album_listed_behind_itself :
    (∃ page, listUploads twoUploads (ascii "photos") { keyMarker := ascii "album" } = .ok page ∧
      page.uploads = [albumUpload, coverUpload]) ∧
    ¬ ListsExactly twoUploads (ascii "photos") { keyMarker := ascii "album" }
      fun upload => ascii "album" < upload.key.items := by
  have hrows : Indexed twoUploads (ascii "photos")
      (twoUploads.scan (Keys.uploadByKeyPrefix (ascii "photos"))) [albumUpload, coverUpload] := by
    rw [scan_twoUploads]
    exact .cons (indexRow_of_twoUploads (.inl rfl)) (.cons (indexRow_of_twoUploads (.inr rfl)) .nil)
  constructor
  · obtain ⟨page, hpage, hfills⟩ := @listUploads_spec _ _ { keyMarker := ascii "album" } _ rfl hrows
      (by decide)
    refine ⟨page, hpage, ?_⟩
    rw [hfills.uploads]
    rfl
  · intro hlists
    have hwanted := @listsExactly_wanted _ _ { keyMarker := ascii "album" } rfl uploadIndex_twoUploads
      (by decide)
    have hlive : Live twoUploads (ascii "photos") albumUpload :=
      ⟨rfl, (indexRow_of_twoUploads (.inl rfl)).load⟩
    exact absurd ((hlists.congr hwanted hlive).mpr rfl) (lt_irrefl _)

end MonoBucket

/-
Reading uploads page by page

A bucket's uploads stand in the order of their keys, and of their ids under one key,
because neither holds the separator their rows are joined with. The pages a reader
gets, each behind the last upload of the page before, are all of them in that order:
those under a prefix, and behind a marker, where the request has one. Rows whose
upload is gone are passed over, though one of them may end a page.
-/

import MonoBucket.Storage.UploadListing

namespace MonoBucket

open Codec

/-- A reader of a bucket's uploads to their end: pages until one is not truncated.
Nothing when `fuel` pages were not enough. -/
def uploadPages (rows : Rows) (bucket : Bytes) :
    Nat → ListUploadsRequest → Except StoreError (Option (List ListUploadsResult))
  | 0, _ => .ok none
  | fuel + 1, request => do
    let page ← listUploads rows bucket request
    if page.truncated then
      let rest ← uploadPages rows bucket fuel
        { request with
          keyMarker := page.nextKeyMarker
          uploadIdMarker := page.nextUploadIdMarker }
      pure (rest.map fun pages => page :: pages)
    else pure (some [page])

namespace UploadPages

variable {rows : Rows} {bucket : Bytes} {request : ListUploadsRequest}

/-! ### The order of the rows -/

/-- Keys without the separator are in the order of the rows they start. -/
theorem append_separator_lt_iff {key other id otherId : Bytes} (hkey : Keys.separator ∉ key)
    (hother : Keys.separator ∉ other) :
    key ++ Keys.separator :: id < other ++ Keys.separator :: otherId ↔
      key < other ∨ key = other ∧ id < otherId := by
  induction key generalizing other with
  | nil =>
      cases other with
      | nil => simp
      | cons byte other =>
          have hbyte : Keys.separator < byte := by
            have hne : byte ≠ Keys.separator := fun h => hother (h ▸ List.mem_cons_self ..)
            exact UInt8.pos_iff_ne_zero.mpr hne
          simp [List.cons_lt_cons_iff, hbyte]
  | cons first key ih =>
      have hfirst : Keys.separator < first := by
        have hne : first ≠ Keys.separator := fun h => hkey (h ▸ List.mem_cons_self ..)
        exact UInt8.pos_iff_ne_zero.mpr hne
      cases other with
      | nil => simp [List.cons_lt_cons_iff, hfirst.not_gt, hfirst.ne']
      | cons byte other =>
          have hrest := @ih other (fun h => hkey (List.mem_cons_of_mem _ h))
            (fun h => hother (List.mem_cons_of_mem _ h))
          simp only [List.cons_append, List.cons_lt_cons_iff, hrest, List.cons.injEq]
          tauto

/-- A key without the separator is in that order behind any smaller one. -/
theorem append_separator_lt_of_lt {key other id otherId : Bytes} (hother : Keys.separator ∉ other)
    (h : key < other) : key ++ Keys.separator :: id < other ++ Keys.separator :: otherId := by
  induction key generalizing other with
  | nil =>
      cases other with
      | nil => exact absurd h (lt_irrefl _)
      | cons byte other =>
          have hne : byte ≠ Keys.separator := fun h => hother (h ▸ List.mem_cons_self ..)
          exact List.cons_lt_cons_iff.mpr (.inl (UInt8.pos_iff_ne_zero.mpr hne))
  | cons first key ih =>
      cases other with
      | nil => exact absurd h (List.not_lt_nil _)
      | cons byte other =>
          rcases List.cons_lt_cons_iff.mp h with hlt | ⟨rfl, hlt⟩
          · exact List.cons_lt_cons_iff.mpr (.inl hlt)
          · have hrest := ih (fun h => hother (List.mem_cons_of_mem _ h)) hlt
            exact List.cons_lt_cons_iff.mpr (.inr ⟨rfl, hrest⟩)

/-- The row of an upload by its key. -/
def rowKey (bucket : Bytes) (upload : UploadRecord) : Bytes :=
  Keys.uploadByKey bucket upload.key.items upload.uploadId

/-- A row by key, and the upload that is loaded by it. -/
structure UploadRow (rows : Rows) (bucket : Bytes) (row : Bytes × Bytes) (upload : UploadRecord) :
    Prop where
  key : row.1 = rowKey bucket upload
  nonempty : upload.key.items ≠ []
  plainKey : Keys.separator ∉ upload.key.items
  plainId : Keys.separator ∉ upload.uploadId
  load : loadUpload rows upload.uploadId = .ok (some upload)

theorem UploadRow.parts {row : Bytes × Bytes} {upload : UploadRecord}
    (h : UploadRow rows bucket row upload) :
    Keys.uploadKeyParts row.1 bucket = some ⟨upload.key.items, upload.uploadId⟩ := by
  rw [h.key]
  exact Keys.uploadKeyParts_uploadByKey h.plainId

theorem uploadByKeyPrefix_isPrefix (bucket key id : Bytes) :
    Keys.uploadByKeyPrefix bucket <+: Keys.uploadByKey bucket key id := by
  rw [Keys.uploadByKey, List.append_assoc, List.append_assoc]
  exact List.prefix_append ..

theorem uploadByKey_lt_of_lt {key other id otherId : Bytes} (hother : Keys.separator ∉ other)
    (h : key < other) :
    Keys.uploadByKey bucket key id < Keys.uploadByKey bucket other otherId := by
  rw [Keys.uploadByKey, Keys.uploadByKey]
  simp only [List.append_assoc, List.singleton_append]
  exact (List.append_lt_append_left_iff _).mpr (append_separator_lt_of_lt hother h)

theorem uploadByKey_lt_iff {key other id otherId : Bytes} (hkey : Keys.separator ∉ key)
    (hother : Keys.separator ∉ other) :
    Keys.uploadByKey bucket key id < Keys.uploadByKey bucket other otherId ↔
      key < other ∨ key = other ∧ id < otherId := by
  rw [← append_separator_lt_iff hkey hother, Keys.uploadByKey, Keys.uploadByKey]
  simp only [List.append_assoc, List.singleton_append]
  exact List.append_lt_append_left_iff _

/-- A row by key, the key and id it is built from, and the upload if it is still there. -/
structure IndexRow (rows : Rows) (bucket : Bytes) (row : Bytes × Bytes)
    (parts : Keys.UploadKeyParts) (found : Option UploadRecord) : Prop where
  key : row.1 = Keys.uploadByKey bucket parts.key parts.uploadId
  nonempty : parts.key ≠ []
  plainKey : Keys.separator ∉ parts.key
  plainId : Keys.separator ∉ parts.uploadId
  load : loadUpload rows parts.uploadId = .ok found
  names : ∀ upload, found = some upload →
    upload.key.items = parts.key ∧ upload.uploadId = parts.uploadId

/-- Rows by key, and the uploads of those that are still there. -/
inductive Indexed (rows : Rows) (bucket : Bytes) : List (Bytes × Bytes) → List UploadRecord → Prop
  | nil : Indexed rows bucket [] []
  | cons {row : Bytes × Bytes} {parts : Keys.UploadKeyParts} {found : Option UploadRecord}
      {listed : List (Bytes × Bytes)} {uploads : List UploadRecord}
      (head : IndexRow rows bucket row parts found) (tail : Indexed rows bucket listed uploads) :
      Indexed rows bucket (row :: listed) (found.toList ++ uploads)

theorem IndexRow.uploadKeyParts {row : Bytes × Bytes} {parts : Keys.UploadKeyParts}
    {found : Option UploadRecord} (h : IndexRow rows bucket row parts found) :
    Keys.uploadKeyParts row.1 bucket = some parts := by
  rw [h.key]
  exact Keys.uploadKeyParts_uploadByKey h.plainId

theorem IndexRow.uploadRow {row : Bytes × Bytes} {parts : Keys.UploadKeyParts}
    {upload : UploadRecord} (h : IndexRow rows bucket row parts (some upload)) :
    UploadRow rows bucket row upload := by
  obtain ⟨hkey, hid⟩ := h.names upload rfl
  refine ⟨?_, hkey ▸ h.nonempty, hkey ▸ h.plainKey, hid ▸ h.plainId, ?_⟩
  · rw [h.key, rowKey, hkey, hid]
  · rw [hid]
    exact h.load

theorem UploadRow.indexRow {row : Bytes × Bytes} {upload : UploadRecord}
    (h : UploadRow rows bucket row upload) :
    IndexRow rows bucket row ⟨upload.key.items, upload.uploadId⟩ (some upload) where
  key := h.key
  nonempty := h.nonempty
  plainKey := h.plainKey
  plainId := h.plainId
  load := h.load
  names := by
    intro other hother
    cases hother
    exact ⟨rfl, rfl⟩

theorem Indexed.of_rows {listed : List (Bytes × Bytes)} {uploads : List UploadRecord}
    (h : List.Forall₂ (UploadRow rows bucket) listed uploads) : Indexed rows bucket listed uploads := by
  induction h with
  | nil => exact .nil
  | cons hrow _ ih => exact .cons hrow.indexRow ih

theorem Indexed.exists_row {listed : List (Bytes × Bytes)} {uploads : List UploadRecord}
    (h : Indexed rows bucket listed uploads) {upload : UploadRecord} (hupload : upload ∈ uploads) :
    ∃ row ∈ listed, UploadRow rows bucket row upload := by
  induction h with
  | nil => cases hupload
  | @cons row parts found listed uploads head tail ih =>
      rcases List.mem_append.mp hupload with hhere | hlater
      · obtain rfl := Option.mem_toList.mp hhere
        exact ⟨row, List.mem_cons_self, head.uploadRow⟩
      · obtain ⟨other, hother, hotherRow⟩ := ih hlater
        exact ⟨other, List.mem_cons_of_mem _ hother, hotherRow⟩

/-- Some of the rows, chosen by their key. -/
theorem Indexed.filter {listed : List (Bytes × Bytes)} {uploads : List UploadRecord}
    (h : Indexed rows bucket listed uploads) (keep : Bytes → Bool) :
    Indexed rows bucket (listed.filter fun row => keep row.1)
      (uploads.filter fun upload => keep (rowKey bucket upload)) := by
  induction h with
  | nil => exact .nil
  | @cons row parts found listed uploads head tail ih =>
      have hsame : ∀ upload ∈ found.toList, keep (rowKey bucket upload) = keep row.1 := by
        intro upload hupload
        obtain rfl := Option.mem_toList.mp hupload
        rw [head.uploadRow.key]
      rw [List.filter_append]
      by_cases hkeep : keep row.1 = true
      · have hall : (found.toList.filter fun upload => keep (rowKey bucket upload)) = found.toList :=
          List.filter_eq_self.mpr fun upload hupload => (hsame upload hupload).trans hkeep
        rw [List.filter_cons_of_pos (by exact hkeep), hall]
        exact .cons head ih
      · have hnone : (found.toList.filter fun upload => keep (rowKey bucket upload)) = [] :=
          List.filter_eq_nil_iff.mpr fun upload hupload => by
            rw [hsame upload hupload]
            exact hkeep
        rw [List.filter_cons_of_neg (by exact hkeep), hnone]
        exact ih

/-! ### One page -/

/-- Whether a page lists the upload of a row. -/
def passes (request : ListUploadsRequest) (parts : Keys.UploadKeyParts) : Bool :=
  !beforeMarker request parts && request.keyPrefix.isPrefixOf parts.key

/-- Whether a page lists an upload. -/
def wanted (request : ListUploadsRequest) (upload : UploadRecord) : Bool :=
  passes request ⟨upload.key.items, upload.uploadId⟩

theorem IndexRow.wanted_eq {row : Bytes × Bytes} {parts : Keys.UploadKeyParts}
    {found : Option UploadRecord} (h : IndexRow rows bucket row parts found) {upload : UploadRecord}
    (hupload : upload ∈ found.toList) : wanted request upload = passes request parts := by
  obtain ⟨hkey, hid⟩ := h.names upload (Option.mem_toList.mp hupload)
  rw [wanted, hkey, hid]

theorem IndexRow.filter_of_not_passes {row : Bytes × Bytes} {parts : Keys.UploadKeyParts}
    {found : Option UploadRecord} (h : IndexRow rows bucket row parts found)
    (hpasses : passes request parts = false) (uploads : List UploadRecord) :
    (found.toList ++ uploads).filter (wanted request) = uploads.filter (wanted request) := by
  have hnone : found.toList.filter (wanted request) = [] :=
    List.filter_eq_nil_iff.mpr fun upload hupload => by simp [h.wanted_eq hupload, hpasses]
  rw [List.filter_append, hnone, List.nil_append]

theorem IndexRow.filter_of_passes {row : Bytes × Bytes} {parts : Keys.UploadKeyParts}
    {found : Option UploadRecord} (h : IndexRow rows bucket row parts found)
    (hpasses : passes request parts) (uploads : List UploadRecord) :
    (found.toList ++ uploads).filter (wanted request) =
      found.toList ++ uploads.filter (wanted request) := by
  have hall : found.toList.filter (wanted request) = found.toList :=
    List.filter_eq_self.mpr fun upload hupload => (h.wanted_eq hupload).trans hpasses
  rw [List.filter_append, hall]

/-- Past a row whose key is past the prefix, no key starts with it. -/
theorem Indexed.not_wanted_of_past {row : Bytes × Bytes} {parts : Keys.UploadKeyParts}
    {found : Option UploadRecord} {listed : List (Bytes × Bytes)} {uploads : List UploadRecord}
    (head : IndexRow rows bucket row parts found) (tail : Indexed rows bucket listed uploads)
    (hlater : ∀ other ∈ listed, row.1 < other.1) (hpast : request.keyPrefix < parts.key)
    (houtside : ¬ request.keyPrefix <+: parts.key) : uploads.filter (wanted request) = [] := by
  rw [List.filter_eq_nil_iff]
  intro upload hupload hwanted
  obtain ⟨other, hother, hrow⟩ := tail.exists_row hupload
  have hlt := hlater other hother
  rw [head.key, hrow.key, rowKey, Keys.uploadByKey, Keys.uploadByKey] at hlt
  simp only [List.append_assoc, List.singleton_append] at hlt
  have hle : parts.key ≤ upload.key.items := by
    have hkeys := (append_separator_lt_iff head.plainKey hrow.plainKey).mp
      ((List.append_lt_append_left_iff _).mp hlt)
    exact hkeys.elim le_of_lt fun h => h.1.le
  have hstarts : request.keyPrefix <+: upload.key.items :=
    List.isPrefixOf_iff_prefix.mp (Bool.and_eq_true_iff.mp hwanted).2
  exact houtside (List.isPrefix_of_le_of_le hpast.le hle hstarts)

/-- The markers of a page are its last upload's. -/
def Marked (result : ListUploadsResult) : Prop :=
  ∀ last ∈ result.uploads.getLast?,
    result.nextKeyMarker = last.key.items ∧ result.nextUploadIdMarker = last.uploadId

/-- What a page is, of the uploads that are wanted: the first of them, as many as there is room
for. It is truncated when there are more, and then it is full. -/
structure Fills (request : ListUploadsRequest) (listed : List UploadRecord)
    (page : ListUploadsResult) : Prop where
  uploads : page.uploads = listed.take request.maxUploads.toNat
  truncated : request.maxUploads.toNat < listed.length → page.truncated = true
  full : page.truncated = true → page.uploads.length = request.maxUploads.toNat
  marked : page.truncated = true → Marked page

/-- The loop takes what is wanted until the page is full. -/
theorem listUploadsLoop_spec {listed : List (Bytes × Bytes)} {uploads : List UploadRecord}
    {result : ListUploadsResult} (hrows : Indexed rows bucket listed uploads)
    (hordered : listed.Pairwise fun first second => first.1 < second.1)
    (hroom : result.uploads.length ≤ request.maxUploads.toNat) (hopen : result.truncated = false)
    (hmarked : Marked result) :
    ∃ page, listUploadsLoop rows bucket request result listed = .ok page ∧
      Fills request (result.uploads ++ uploads.filter (wanted request)) page := by
  induction hrows generalizing result with
  | nil =>
      refine ⟨result, rfl, ?_, fun hmore => ?_, fun h => ?_, fun _ => hmarked⟩
      · simp [List.take_of_length_le hroom]
      · simp only [List.filter_nil, List.append_nil] at hmore
        exact absurd hmore hroom.not_gt
      · rw [hopen] at h
        cases h
  | @cons row parts found listed uploads head tail ih =>
      obtain ⟨hlater, hordered⟩ := List.pairwise_cons.mp hordered
      have hfront : Keys.uploadByKeyPrefix bucket <+: row.1 := by
        rw [head.key]
        exact uploadByKeyPrefix_isPrefix ..
      rw [listUploadsLoop, if_neg (not_not.mpr hfront), head.uploadKeyParts]
      dsimp only
      by_cases hbefore : beforeMarker request parts = true
      · have hpasses : passes request parts = false := by simp [passes, hbefore]
        rw [if_pos hbefore, head.filter_of_not_passes hpasses]
        exact ih hordered hroom hopen hmarked
      rw [if_neg hbefore]
      by_cases houtside : request.keyPrefix ≠ [] ∧ ¬ request.keyPrefix <+: parts.key
      · have hpasses : passes request parts = false := by
          rw [passes, Bool.and_eq_false_iff]
          exact .inr (Bool.eq_false_iff.mpr (mt List.isPrefixOf_iff_prefix.mp houtside.2))
        rw [if_pos houtside, head.filter_of_not_passes hpasses]
        by_cases hpast : request.keyPrefix < parts.key
        · rw [if_pos hpast, Indexed.not_wanted_of_past head tail hlater hpast houtside.2]
          refine ⟨result, rfl, ?_, fun hmore => ?_, fun h => ?_, fun _ => hmarked⟩
          · simp [List.take_of_length_le hroom]
          · rw [List.append_nil] at hmore
            exact absurd hmore hroom.not_gt
          · rw [hopen] at h
            cases h
        · rw [if_neg hpast]
          exact ih hordered hroom hopen hmarked
      have hstarts : request.keyPrefix <+: parts.key := by
        by_cases hempty : request.keyPrefix = []
        · rw [hempty]
          exact List.nil_prefix
        · exact not_not.mp fun h => houtside ⟨hempty, h⟩
      have hpasses : passes request parts = true := by
        simp [passes, hbefore, List.isPrefixOf_iff_prefix.mpr hstarts]
      rw [if_neg houtside, head.filter_of_passes hpasses]
      by_cases hfull : result.uploads.length = request.maxUploads.toNat
      · rw [if_pos hfull]
        refine ⟨{ result with truncated := true }, rfl, ?_, fun _ => rfl, fun _ => hfull, fun _ => hmarked⟩
        show result.uploads = _
        rw [← hfull, List.take_left]
      rw [if_neg hfull, head.load]
      cases found with
      | none => exact ih hordered hroom hopen hmarked
      | some upload =>
          have hless : result.uploads.length < request.maxUploads.toNat := lt_of_le_of_ne hroom hfull
          have hnext := @ih
            { result with
              uploads := result.uploads ++ [upload]
              nextKeyMarker := upload.key.items
              nextUploadIdMarker := upload.uploadId }
            hordered (by simpa using hless) hopen (by
              intro last hlast
              rw [List.getLast?_concat] at hlast
              obtain rfl := Option.some.inj hlast
              exact ⟨rfl, rfl⟩)
          rw [List.append_assoc] at hnext
          exact hnext

/-- An iterator under a prefix, from somewhere under it. -/
theorem seek_eq_filter_scan (rows : Rows) {front target : Bytes} (h : front ≤ target) :
    rows.seek (Keys.upperBound front) target =
      (rows.scan front).filter fun row => decide (target ≤ row.1) := by
  rw [Rows.seek_eq_filter, Rows.scan_eq_filter, List.filter_filter]
  refine List.filter_congr fun row _ => ?_
  rw [Bool.eq_iff_iff, decide_eq_true_eq, Bool.and_eq_true, decide_eq_true_eq,
    List.isPrefixOf_iff_prefix, Keys.isPrefix_iff_upperBound]
  exact ⟨fun hboth => ⟨hboth.1, h.trans hboth.1, hboth.2⟩, fun hall => ⟨hall.1, hall.2.2⟩⟩

/-- The rows a page lists are from where its iterator starts. -/
theorem uploadSeek_le_rowKey {upload : UploadRecord} (hplain : Keys.separator ∉ upload.key.items)
    (hwanted : wanted request upload) : uploadSeek bucket request ≤ rowKey bucket upload := by
  obtain ⟨hbehind, hstarts⟩ := Bool.and_eq_true_iff.mp hwanted
  have hbehind : beforeMarker request ⟨upload.key.items, upload.uploadId⟩ = false := by
    simpa using hbehind
  rw [uploadSeek]
  split_ifs with hmarker hprefixed
  · simp only [beforeMarker, decide_eq_false_iff_not, not_and, not_or] at hbehind
    obtain ⟨hkey, hid⟩ := hbehind hmarker
    rcases (not_lt.mp hkey).lt_or_eq with hlt | heq
    · exact (uploadByKey_lt_of_lt hplain hlt).le
    · have hid := (not_le.mp (hid heq.symm)).le
      rw [rowKey, ← heq, Keys.uploadByKey, Keys.uploadByKey]
      exact (List.append_le_append_left_iff _).mpr hid
  · rw [rowKey, Keys.uploadByKey, List.append_assoc, List.append_assoc]
    refine (List.append_le_append_left_iff _).mpr (List.le_of_isPrefix ?_)
    exact (List.isPrefixOf_iff_prefix.mp hstarts).trans (List.prefix_append _ _)
  · exact List.le_of_isPrefix (uploadByKeyPrefix_isPrefix ..)

theorem uploadByKeyPrefix_le_uploadSeek (bucket : Bytes) (request : ListUploadsRequest) :
    Keys.uploadByKeyPrefix bucket ≤ uploadSeek bucket request := by
  rw [uploadSeek]
  split_ifs
  · exact List.le_of_isPrefix (uploadByKeyPrefix_isPrefix ..)
  · exact List.le_of_isPrefix (List.prefix_append ..)
  · exact le_rfl

theorem scan_ascending (rows : Rows) (front : Bytes) :
    (rows.scan front).Pairwise fun first second => first.1 < second.1 := by
  rw [Rows.scan_eq_filter]
  exact rows.ordered.filter _

variable {uploads : List UploadRecord}

/-- A page of a bucket is filled from the uploads that are wanted. -/
theorem listUploads_spec (hbucket : requireBucket rows bucket = .ok ())
    (hrows : Indexed rows bucket (rows.scan (Keys.uploadByKeyPrefix bucket)) uploads)
    (hmax : request.maxUploads ≠ 0) :
    ∃ page, listUploads rows bucket request = .ok page ∧
      Fills request (uploads.filter (wanted request)) page := by
  have hvisited := hrows.filter fun key => decide (uploadSeek bucket request ≤ key)
  obtain ⟨page, hpage, hfills⟩ := @listUploadsLoop_spec rows bucket request _ _ {} hvisited
    ((scan_ascending rows _).filter _) (Nat.zero_le _) rfl (fun last hlast => nomatch hlast)
  have hsame : (uploads.filter fun upload =>
      decide (uploadSeek bucket request ≤ rowKey bucket upload)).filter (wanted request) =
      uploads.filter (wanted request) := by
    rw [List.filter_filter]
    refine List.filter_congr fun upload hupload => ?_
    obtain ⟨row, -, hrow⟩ := hrows.exists_row hupload
    cases hwanted : wanted request upload with
    | false => rfl
    | true => simp [uploadSeek_le_rowKey hrow.plainKey hwanted]
  rw [hsame, List.nil_append] at hfills
  have hopen : listUploads rows bucket request =
      if page.truncated then .ok page
      else .ok { page with nextKeyMarker := [], nextUploadIdMarker := [] } := by
    rw [listUploads, hbucket]
    show (if request.maxUploads = 0 then pure ({} : ListUploadsResult) else _ :
      Except StoreError ListUploadsResult) = _
    rw [if_neg hmax, seek_eq_filter_scan rows (uploadByKeyPrefix_le_uploadSeek bucket request), hpage]
    rfl
  by_cases hmore : page.truncated = true
  · rw [if_pos hmore] at hopen
    exact ⟨page, hopen, hfills⟩
  · rw [if_neg hmore] at hopen
    exact ⟨_, hopen, hfills.uploads, hfills.truncated, fun h => absurd h hmore,
      fun h => absurd h hmore⟩

/-! ### All pages -/

/-- Behind the element at an index of an ascending list are those after it. -/
theorem filter_lt_eq_drop {α κ : Type*} [Preorder κ] [DecidableLT κ] (key : α → κ) {list : List α}
    (h : list.Pairwise fun first second => key first < key second) {index : Nat}
    (hindex : index < list.length) :
    (list.filter fun entry => decide (key list[index] < key entry)) = list.drop (index + 1) := by
  induction list generalizing index with
  | nil => exact absurd hindex (Nat.not_lt_zero _)
  | cons first rest ih =>
      obtain ⟨hfirst, hrest⟩ := List.pairwise_cons.mp h
      cases index with
      | zero =>
          rw [List.getElem_cons_zero, List.filter_cons_of_neg (by simp), List.drop_succ_cons,
            List.drop_zero, List.filter_eq_self]
          exact fun entry hentry => decide_eq_true (hfirst entry hentry)
      | succ index =>
          have hlater : index < rest.length := Nat.lt_of_succ_lt_succ hindex
          have hbefore := hfirst rest[index] (List.getElem_mem hlater)
          rw [List.getElem_cons_succ, List.filter_cons_of_neg (by simp [hbefore.not_gt]), ih hrest hlater,
            List.drop_succ_cons]

theorem exists_row {listed : List (Bytes × Bytes)}
    (hrows : List.Forall₂ (UploadRow rows bucket) listed uploads) {upload : UploadRecord}
    (h : upload ∈ uploads) : ∃ row ∈ listed, UploadRow rows bucket row upload :=
  (Indexed.of_rows hrows).exists_row h

/-- Uploads are in the order of their rows. -/
theorem Indexed.ascending {listed : List (Bytes × Bytes)}
    (hlisted : listed.Pairwise fun first second => first.1 < second.1)
    (hrows : Indexed rows bucket listed uploads) :
    uploads.Pairwise fun first second => rowKey bucket first < rowKey bucket second := by
  induction hrows with
  | nil => exact List.Pairwise.nil
  | @cons row parts found listed uploads head tail ih =>
      obtain ⟨hfirst, hlater⟩ := List.pairwise_cons.mp hlisted
      cases found with
      | none => exact ih hlater
      | some upload =>
          refine List.pairwise_cons.mpr ⟨fun other hother => ?_, ih hlater⟩
          obtain ⟨otherRow, hmem, hotherRow⟩ := tail.exists_row hother
          rw [← head.uploadRow.key, ← hotherRow.key]
          exact hfirst otherRow hmem

/-- Where a page starts from: behind its marker, if it has one. -/
def behind (bucket : Bytes) (request : ListUploadsRequest) (upload : UploadRecord) : Bool :=
  request.keyMarker = [] ∨
    Keys.uploadByKey bucket request.keyMarker request.uploadIdMarker < rowKey bucket upload

theorem beforeMarker_eq_not_behind (bucket : Bytes) {upload : UploadRecord}
    (hplain : Keys.separator ∉ upload.key.items)
    (hmarker : Keys.separator ∉ request.keyMarker) :
    beforeMarker request ⟨upload.key.items, upload.uploadId⟩ = !behind bucket request upload := by
  rw [Bool.eq_iff_iff, Bool.not_eq_true', beforeMarker, behind, rowKey, decide_eq_true_eq,
    decide_eq_false_iff_not, uploadByKey_lt_iff hmarker hplain]
  by_cases hempty : request.keyMarker = []
  · simp [hempty]
  · rcases lt_trichotomy upload.key.items request.keyMarker with hlt | heq | hgt
    · simp [hempty, hlt, hlt.not_gt, hlt.ne']
    · simp [hempty, heq]
    · simp [hempty, hgt, hgt.not_gt, hgt.ne']

/-- The request for the page behind an upload. -/
def after (request : ListUploadsRequest) (last : UploadRecord) : ListUploadsRequest :=
  { request with keyMarker := last.key.items, uploadIdMarker := last.uploadId }

/-- Behind an upload that is wanted, the same uploads are wanted as before. -/
theorem wanted_after {row otherRow : Bytes × Bytes} {last upload : UploadRecord}
    (hlast : UploadRow rows bucket row last) (hupload : UploadRow rows bucket otherRow upload)
    (hwanted : wanted request last) :
    wanted (after request last) upload =
      (decide (rowKey bucket last < rowKey bucket upload) && wanted request upload) := by
  have hbehind : behind bucket (after request last) upload =
      decide (rowKey bucket last < rowKey bucket upload) := by
    rw [behind, Bool.eq_iff_iff, decide_eq_true_eq, decide_eq_true_eq]
    exact or_iff_right hlast.nonempty
  have hbefore := @beforeMarker_eq_not_behind (after request last) bucket upload hupload.plainKey
    hlast.plainKey
  rw [wanted, passes, hbefore, Bool.not_not, hbehind]
  by_cases hlt : rowKey bucket last < rowKey bucket upload
  · -- what is behind an upload that is behind the marker is behind the marker
    have hmarker : beforeMarker request ⟨upload.key.items, upload.uploadId⟩ = false := by
      have hlastBehind : beforeMarker request ⟨last.key.items, last.uploadId⟩ = false := by
        simpa using (Bool.and_eq_true_iff.mp hwanted).1
      simp only [beforeMarker, decide_eq_false_iff_not, not_and, not_or] at hlastBehind ⊢
      intro hkeyMarker
      obtain ⟨hkey, hid⟩ := hlastBehind hkeyMarker
      rcases (uploadByKey_lt_iff hlast.plainKey hupload.plainKey).mp hlt with hgreater | ⟨hsame, hlater⟩
      · have hbeyond := lt_of_le_of_lt (not_lt.mp hkey) hgreater
        exact ⟨hbeyond.not_gt, fun h => absurd h hbeyond.ne'⟩
      · rw [← hsame]
        exact ⟨hkey, fun h hle => hid h (hlater.le.trans hle)⟩
    rw [decide_eq_true hlt, wanted, passes, hmarker]
    rfl
  · rw [decide_eq_false hlt]
    rfl

/-- Reading on until a page is not truncated ends, with all the uploads that are wanted. -/
theorem uploadPages_wanted (hbucket : requireBucket rows bucket = .ok ())
    (hrows : Indexed rows bucket (rows.scan (Keys.uploadByKeyPrefix bucket)) uploads)
    (hmax : request.maxUploads ≠ 0) :
    ∃ pages,
      (∀ fuel, (uploads.filter (wanted request)).length < fuel →
        uploadPages rows bucket fuel request = .ok (some pages)) ∧
      pages.flatMap ListUploadsResult.uploads = uploads.filter (wanted request) := by
  have hsize : 0 < request.maxUploads.toNat :=
    Nat.pos_of_ne_zero fun hzero => hmax (UInt32.toNat_inj.mp hzero)
  induction hlength : (uploads.filter (wanted request)).length using Nat.strong_induction_on
    generalizing request with
  | _ length ih =>
      obtain ⟨page, hpage, hfills⟩ := listUploads_spec hbucket hrows hmax
      by_cases hmore : page.truncated = true
      · have hfull : (page.uploads).length = request.maxUploads.toNat := hfills.full hmore
        have hindex : request.maxUploads.toNat - 1 < (uploads.filter (wanted request)).length := by
          rw [hfills.uploads, List.length_take] at hfull
          omega
        have hlast : page.uploads.getLast? =
            some (uploads.filter (wanted request))[request.maxUploads.toNat - 1] := by
          rw [hfills.uploads, List.getLast?_take, if_neg (by omega), List.getElem?_eq_getElem hindex,
            Option.some_or]
        generalize hname : (uploads.filter (wanted request))[request.maxUploads.toNat - 1] =
          last at hlast
        have hmem : last ∈ uploads.filter (wanted request) := hname ▸ List.getElem_mem hindex
        obtain ⟨hlastMem, hlastWanted⟩ := List.mem_filter.mp hmem
        obtain ⟨row, -, hrow⟩ := hrows.exists_row hlastMem
        have hmarkers : { request with
            keyMarker := page.nextKeyMarker, uploadIdMarker := page.nextUploadIdMarker } =
            after request last := by
          obtain ⟨hkey, hid⟩ := hfills.marked hmore last hlast
          rw [after, hkey, hid]
        have hnext : uploads.filter (wanted (after request last)) =
            (uploads.filter (wanted request)).drop request.maxUploads.toNat := by
          have hdrop := filter_lt_eq_drop (rowKey bucket)
            ((Indexed.ascending (scan_ascending _ _) hrows).filter _) hindex
          rw [Nat.sub_add_cancel hsize, hname, List.filter_filter] at hdrop
          rw [← hdrop]
          refine List.filter_congr fun upload hupload => ?_
          obtain ⟨otherRow, -, hotherRow⟩ := hrows.exists_row hupload
          exact wanted_after hrow hotherRow hlastWanted
        have hfewer : (uploads.filter (wanted (after request last))).length < length := by
          rw [hnext, List.length_drop]
          omega
        obtain ⟨pages, hpages, hall⟩ := @ih _ hfewer (after request last) hmax hsize rfl
        refine ⟨page :: pages, fun fuel hfuel => ?_, ?_⟩
        · obtain ⟨fuel, rfl⟩ : ∃ less, fuel = less + 1 := ⟨fuel - 1, by omega⟩
          rw [uploadPages, hpage]
          refine Except.bind_eq_ok_iff.mpr ⟨page, rfl, ?_⟩
          rw [if_pos hmore, hmarkers]
          exact Except.bind_eq_ok_iff.mpr ⟨some pages, hpages fuel (by omega), rfl⟩
        · rw [List.flatMap_cons, hall, hnext, hfills.uploads, List.take_append_drop]
      · refine ⟨[page], fun fuel hfuel => ?_, ?_⟩
        · obtain ⟨fuel, rfl⟩ : ∃ less, fuel = less + 1 := ⟨fuel - 1, by omega⟩
          rw [uploadPages, hpage]
          refine Except.bind_eq_ok_iff.mpr ⟨page, rfl, ?_⟩
          rw [if_neg hmore]
          rfl
        · have hfits := not_lt.mp (mt hfills.truncated hmore)
          simp [hfills.uploads, List.take_of_length_le hfits]

/-- Without a prefix, what is wanted is what is behind the marker. -/
theorem uploadPages_spec (hbucket : requireBucket rows bucket = .ok ())
    (hrows : List.Forall₂ (UploadRow rows bucket) (rows.scan (Keys.uploadByKeyPrefix bucket)) uploads)
    (hmax : request.maxUploads ≠ 0) (hunprefixed : request.keyPrefix = [])
    (hmarker : Keys.separator ∉ request.keyMarker) :
    ∃ pages,
      (∀ fuel, (uploads.filter (behind bucket request)).length < fuel →
        uploadPages rows bucket fuel request = .ok (some pages)) ∧
      pages.flatMap ListUploadsResult.uploads = uploads.filter (behind bucket request) := by
  have hsame : uploads.filter (behind bucket request) = uploads.filter (wanted request) := by
    refine List.filter_congr fun upload hupload => ?_
    obtain ⟨row, -, hrow⟩ := exists_row hrows hupload
    rw [wanted, passes, beforeMarker_eq_not_behind bucket hrow.plainKey hmarker, hunprefixed]
    simp
  rw [hsame]
  exact uploadPages_wanted hbucket (Indexed.of_rows hrows) hmax

end UploadPages

end MonoBucket

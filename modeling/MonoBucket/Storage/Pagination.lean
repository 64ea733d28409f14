/-
Reading a listing page by page

The pages a client gets are the listing of the bucket's keys cut at every
`maxKeys`-th name, with what the resume point passes over left out. They are the
whole listing exactly when no cut falls behind an object whose key ends with the
delimiter and in front of a name that starts with that key.
-/

import MonoBucket.Storage.Listing

namespace MonoBucket.Listing

open Codec

variable {rows : Rows} {bucket : Bytes} {request : ListObjectsRequest}

/-! ### Where a page goes on -/

theorem scanPrefix_le_resumePoint (tablePrefix : Bytes) (request : ListObjectsRequest) :
    scanPrefix tablePrefix request ≤ resumePoint tablePrefix request := by
  rw [resumePoint, scanPrefix]
  by_cases hstart : request.startAfter = [] ∨ request.startAfter < request.keyPrefix
  · rw [if_pos hstart]
  · have hlater : request.keyPrefix ≤ request.startAfter :=
      not_lt.mp fun hlt => hstart (Or.inr hlt)
    have hmarker : tablePrefix ++ request.keyPrefix ≤ tablePrefix ++ request.startAfter :=
      (List.append_le_append_left_iff _).mpr hlater
    have hsuccessor := hmarker.trans (List.lt_concat _ Keys.separator).le
    rw [if_neg hstart]
    by_cases hends : request.delimiter ≠ [] ∧ request.delimiter <:+ request.startAfter
    · rw [if_pos hends]
      cases hnext : Keys.upperBound (tablePrefix ++ request.startAfter) with
      | none => exact hsuccessor
      | some next =>
          have hgroup := (Keys.isPrefix_iff_upperBound (tablePrefix ++ request.startAfter) _).mp
            (List.prefix_refl _)
          exact hmarker.trans (hgroup.2 next hnext).le
    · rw [if_neg hends]
      exact hsuccessor

/-- A row is at or behind the point a page resumes at when its key is behind the
marker and is not passed over. -/
theorem resumePoint_le_iff {key : Bytes} (hstart : request.startAfter ≠ [])
    (hfront : request.keyPrefix <+: request.startAfter) :
    resumePoint (Keys.objectPrefix bucket) request ≤ Keys.objectPrefix bucket ++ key ↔
      request.startAfter < key ∧ ¬ RollUp.Skips request.delimiter request.startAfter key := by
  have hbehind : ¬ (request.startAfter = [] ∨ request.startAfter < request.keyPrefix) := by
    rintro (hempty | hlt)
    · exact hstart hempty
    · exact absurd hlt (not_lt.mpr (List.le_of_isPrefix hfront))
  rw [resumePoint, if_neg hbehind]
  by_cases hends : request.delimiter ≠ [] ∧ request.delimiter <:+ request.startAfter
  · obtain ⟨next, hnext⟩ := exists_upperBound_objectPrefix bucket request.startAfter
    rw [if_pos hends, hnext]
    dsimp only
    have hgroup := Keys.isPrefix_iff_upperBound (Keys.objectPrefix bucket ++ request.startAfter)
      (Keys.objectPrefix bucket ++ key)
    rw [List.prefix_append_right_inj, List.append_le_append_left_iff, hnext] at hgroup
    have hmarker : Keys.objectPrefix bucket ++ request.startAfter < next :=
      ((Keys.isPrefix_iff_upperBound _ _).mp (List.prefix_refl _)).2 next hnext
    constructor
    · intro hle
      refine ⟨?_, fun hskips => absurd ((hgroup.mp hskips.2.2).2 next rfl) (not_lt.mpr hle)⟩
      exact (List.append_lt_append_left_iff _).mp (hmarker.trans_le hle)
    · rintro ⟨hlt, hkept⟩
      by_contra hnot
      apply hkept
      refine ⟨hends.1, hends.2, hgroup.mpr ⟨hlt.le, fun bound hbound => ?_⟩⟩
      cases hbound
      exact not_le.mp hnot
  · have hnext : request.startAfter < key ↔ request.startAfter ++ [Keys.separator] ≤ key :=
      List.lt_iff_concat_le UInt8.zero_isBot
    rw [if_neg hends, List.append_assoc, List.append_le_append_left_iff, ← hnext]
    constructor
    · exact fun hlt => ⟨hlt, fun hskips => hends ⟨hskips.1, hskips.2.1⟩⟩
    · exact And.left

variable (rows bucket request) in
/-- The keys of the bucket that start with the request's prefix. -/
def keysUnder : List Bytes :=
  (scanned rows (Keys.objectPrefix bucket) request).map (keyOf bucket)

variable (rows bucket request) in
/-- The whole listing. -/
def grouping : List Bytes :=
  RollUp.listing request.keyPrefix request.delimiter (keysUnder rows bucket request)

variable (rows bucket request) in
/-- What a request's page starts from. -/
def namesLeft : List Bytes :=
  namesAt bucket request
    (seekTo rows (Keys.objectPrefix bucket) request
      (resumePoint (Keys.objectPrefix bucket) request))

theorem grouping_ascending : (grouping rows bucket request).Pairwise (· < ·) :=
  RollUp.listing_ascending (keys_ascending (List.Sublist.refl _))

/-- A first page starts from the whole listing. -/
theorem namesLeft_of_startAfter_eq_nil (h : request.startAfter = []) :
    namesLeft rows bucket request = grouping rows bucket request := by
  have hall : behindKey (scanned rows (Keys.objectPrefix bucket) request)
      (scanPrefix (Keys.objectPrefix bucket) request) =
      scanned rows (Keys.objectPrefix bucket) request := by
    apply List.filter_eq_self.mpr
    intro row hrow
    exact decide_eq_true (List.le_of_isPrefix (of_decide_eq_true (List.mem_filter.mp hrow).2))
  have hpoint : resumePoint (Keys.objectPrefix bucket) request =
      scanPrefix (Keys.objectPrefix bucket) request := by
    rw [resumePoint, if_pos (Or.inl h), scanPrefix]
  rw [namesLeft, hpoint, seekTo_eq_behindKey le_rfl, hall, namesAt, grouping, keysUnder]

/-- A page with a marker starts from the names behind it that it does not pass over, whether
or not the marker is among the names. -/
theorem namesLeft_of_marker {last : Bytes} (hfront : request.keyPrefix <+: last)
    (hself : RollUp.shown request.keyPrefix request.delimiter last = last) (hne : last ≠ []) :
    namesLeft rows bucket { request with startAfter := last } =
      (grouping rows bucket request).filter fun name =>
        last < name ∧ ¬ RollUp.Skips request.delimiter last name := by
  have hkeys : (keysUnder rows bucket request).Pairwise (· < ·) :=
    keys_ascending (List.Sublist.refl _)
  rw [grouping, ← RollUp.listing_after hkeys hself, namesLeft,
    seekTo_eq_behindKey (scanPrefix_le_resumePoint _ _), namesAt]
  congr 1
  rw [keysUnder, List.filter_map]
  congr 1
  apply List.filter_congr
  intro other hother
  rw [Function.comp_apply, Bool.eq_iff_iff, decide_eq_true_eq, decide_eq_true_eq,
    (eq_keyOf hother).1]
  exact resumePoint_le_iff hne hfront

/-- A name of the listing starts with the prefix and stands for itself. -/
theorem shown_of_mem_grouping {name : Bytes} (h : name ∈ grouping rows bucket request) :
    request.keyPrefix <+: name ∧ RollUp.shown request.keyPrefix request.delimiter name = name := by
  obtain ⟨key, hkey, rfl⟩ := RollUp.mem_listing.mp h
  obtain ⟨row, hrow, rfl⟩ := List.mem_map.mp hkey
  exact ⟨RollUp.front_isPrefix_shown (eq_keyOf hrow).2, RollUp.shown_shown _⟩

/-- Every other page starts from the names behind its marker that the marker does
not pass over. -/
theorem namesLeft_of_startAfter {last : Bytes} (hlast : last ∈ grouping rows bucket request)
    (hne : last ≠ []) :
    namesLeft rows bucket { request with startAfter := last } =
      (grouping rows bucket request).filter fun name =>
        last < name ∧ ¬ RollUp.Skips request.delimiter last name := by
  obtain ⟨hfront, hself⟩ := shown_of_mem_grouping hlast
  exact namesLeft_of_marker hfront hself hne

/-! ### The pages of a listing -/

/-- A page shows these names: the ones that stand for themselves as objects, the
others as common prefixes. -/
structure Shows (front delimiter : Bytes) (page : ListObjectsResult) (names : List Bytes) :
    Prop where
  objects : page.objects.map ObjectRecord.key =
    names.filter fun name => RollUp.common? front delimiter name = none
  commonPrefixes : page.commonPrefixes =
    names.filter fun name => RollUp.common? front delimiter name ≠ none

/-- One page shows the first `maxKeys` names it starts from, and is truncated with
the last of them as its marker when there are more. -/
theorem listObjects_spec (hbucket : requireBucket rows bucket = .ok ())
    (hreadable : Readable rows bucket request) (hmax : request.maxKeys ≠ 0) :
    ∃ page, listObjects rows bucket request = .ok page ∧
      Shows request.keyPrefix request.delimiter page
        ((namesLeft rows bucket request).take request.maxKeys.toNat) ∧
      (page.truncated ↔ request.maxKeys.toNat < (namesLeft rows bucket request).length) ∧
      (page.truncated → page.nextStartAfter =
        ((namesLeft rows bucket request).take request.maxKeys.toNat).getLast?.getD []) := by
  have hstart : ListState.position
        { position := seekTo rows (Keys.objectPrefix bucket) request
            (resumePoint (Keys.objectPrefix bucket) request) } =
      behindKey (scanned rows (Keys.objectPrefix bucket) request)
        (resumePoint (Keys.objectPrefix bucket) request) :=
    seekTo_eq_behindKey (scanPrefix_le_resumePoint (Keys.objectPrefix bucket) request)
  obtain ⟨final, hfinal, hemits, ⟨later, hlater⟩, hdone⟩ :=
    listLoop_spec hreadable request.maxKeys.toNat hstart
  have htruncated : (pageOf (Keys.objectPrefix bucket) request final).truncated ↔
      final.position ≠ [] := by
    rw [pageOf]
    cases hposition : final.position with
    | nil => simp
    | cons row rest =>
        have hrow : row ∈ scanned rows (Keys.objectPrefix bucket) request := by
          have hmem : row ∈ final.position := hposition ▸ List.mem_cons_self ..
          rw [hlater] at hmem
          exact (List.mem_filter.mp hmem).1
        have hunder := of_decide_eq_true (List.mem_filter.mp hrow).2
        simp [hunder]
  refine ⟨pageOf (Keys.objectPrefix bucket) request final, ?_, ⟨?_, ?_⟩, ?_, ?_⟩
  · rw [listObjects, hbucket, Except.bind_eq_ok_iff.mpr ⟨(), rfl, ?_⟩]
    rw [if_neg hmax, hfinal]
    rfl
  · exact hemits.objects
  · exact hemits.commonPrefixes
  · rw [htruncated, Ne, hdone, not_le]
    rfl
  · intro htrue
    rw [pageOf] at htrue ⊢
    dsimp only at htrue ⊢
    rw [if_pos htrue]
    exact hemits.lastEmitted

/-- Whether going on from a name leaves another out. -/
def skipped (request : ListObjectsRequest) (last name : Bytes) : Bool :=
  RollUp.Skips request.delimiter last name

/-- Names a page can start from: the end of the listing from some name on. -/
structure FromSome (names listed : List Bytes) : Prop where
  among : ∀ name ∈ names, name ∈ listed
  onwards : ∀ name ∈ names, ∀ later ∈ listed, name ≤ later → later ∈ names

/-- The names behind a page, of the whole listing, are those behind it of what the
page started from. -/
theorem filter_behind_eq {names listed : List Bytes} (hnames : names.Pairwise (· < ·))
    (hlisted : listed.Pairwise (· < ·)) (hfrom : FromSome names listed) {size : Nat}
    (hlast : size - 1 < names.length) (hsize : 0 < size) (keep : Bytes → Bool) :
    (listed.filter fun name => names[size - 1] < name && keep name) =
      (names.drop size).filter keep := by
  have hsplit : ∀ name, name ∈ names.drop size ↔ name ∈ names ∧ names[size - 1] < name := by
    intro name
    rw [List.mem_drop_iff_getElem, List.mem_iff_getElem]
    have hordered := List.pairwise_iff_getElem.mp hnames
    constructor
    · rintro ⟨index, hindex, rfl⟩
      exact ⟨⟨_, _, rfl⟩, hordered _ _ hlast (by omega) (by omega)⟩
    · rintro ⟨⟨index, hindex, rfl⟩, hlt⟩
      have hlater : size - 1 < index := by
        by_contra hnot
        rcases Nat.lt_or_eq_of_le (not_lt.mp hnot) with hbefore | heq
        · exact lt_asymm hlt (hordered _ _ hindex hlast hbefore)
        · subst heq
          exact lt_irrefl _ hlt
      refine ⟨index - size, by omega, ?_⟩
      congr 1
      omega
  apply (hlisted.filter _).eq_of_mem_iff ((hnames.sublist (List.drop_sublist _ _)).filter _)
  intro name
  rw [List.mem_filter, List.mem_filter, Bool.and_eq_true, decide_eq_true_eq, hsplit]
  constructor
  · rintro ⟨hmem, hlt, hkeep⟩
    exact ⟨⟨hfrom.onwards _ (List.getElem_mem hlast) name hmem hlt.le, hlt⟩, hkeep⟩
  · rintro ⟨⟨hmem, hlt⟩, hkeep⟩
    exact ⟨hfrom.among name hmem, hlt, hkeep⟩

/-- What a marker leaves of the listing is its end from some name on. -/
theorem fromSome_behind (listed : List Bytes) (last : Bytes) :
    FromSome (listed.filter fun name =>
      last < name ∧ ¬ RollUp.Skips request.delimiter last name) listed := by
  refine ⟨fun name hname => (List.mem_filter.mp hname).1, ?_⟩
  intro name hname later hlater hle
  obtain ⟨hlt, hkept⟩ := of_decide_eq_true (List.mem_filter.mp hname).2
  refine List.mem_filter.mpr ⟨hlater, decide_eq_true ⟨hlt.trans_le hle, ?_⟩⟩
  rintro ⟨hempty, hends, hstarts⟩
  exact hkept ⟨hempty, hends, List.isPrefix_of_le_of_le hlt.le hle hstarts⟩

/-- Reading on until a page is not truncated ends, with the pages of the names it
starts from. -/
theorem listPages_spec (hbucket : requireBucket rows bucket = .ok ())
    (hreadable : Readable rows bucket request) (hmax : request.maxKeys ≠ 0)
    (hnames : ∀ name ∈ grouping rows bucket request, name ≠ []) (marker : Bytes)
    (hfrom : FromSome (namesLeft rows bucket { request with startAfter := marker })
      (grouping rows bucket request)) :
    ∃ pages,
      (∀ fuel, (namesLeft rows bucket { request with startAfter := marker }).length < fuel →
        listPages rows bucket fuel { request with startAfter := marker } = .ok (some pages)) ∧
      List.Forall₂ (Shows request.keyPrefix request.delimiter) pages
        (RollUp.cut request.maxKeys.toNat (skipped request)
          (namesLeft rows bucket { request with startAfter := marker })) := by
  have hsize : 0 < request.maxKeys.toNat :=
    Nat.pos_of_ne_zero fun hzero => hmax (UInt32.toNat_inj.mp hzero)
  induction hlength : (namesLeft rows bucket { request with startAfter := marker }).length
    using Nat.strong_induction_on generalizing marker with
  | _ length ih =>
      have hmarked : Readable rows bucket { request with startAfter := marker } := hreadable
      obtain ⟨page, hpage, hshows, htruncated, hnext⟩ := listObjects_spec hbucket hmarked hmax
      generalize hleft : namesLeft rows bucket { request with startAfter := marker } = names at *
      dsimp only at hshows htruncated hnext
      by_cases hmore : request.maxKeys.toNat < names.length
      · have htrue := htruncated.mpr hmore
        have hlast : request.maxKeys.toNat - 1 < names.length := by omega
        have hmarker : page.nextStartAfter = names[request.maxKeys.toNat - 1] := by
          rw [hnext htrue, List.getLast?_take, if_neg (by omega),
            List.getElem?_eq_getElem hlast, Option.some_or, Option.getD_some]
        have hmem := hfrom.among _ (List.getElem_mem hlast)
        have hbehind := namesLeft_of_startAfter hmem (hnames _ hmem)
        have hascending : names.Pairwise (· < ·) := by
          rw [← hleft]
          apply RollUp.listing_ascending
          rw [seekTo_eq_behindKey (scanPrefix_le_resumePoint _ _)]
          exact keys_ascending List.filter_sublist
        have hrest := filter_behind_eq hascending grouping_ascending hfrom hlast hsize
          fun name => !skipped request names[request.maxKeys.toNat - 1] name
        have hsame : namesLeft rows bucket
              { request with startAfter := names[request.maxKeys.toNat - 1] } =
            (names.drop request.maxKeys.toNat).filter fun name =>
              !skipped request names[request.maxKeys.toNat - 1] name := by
          rw [hbehind, ← hrest]
          apply List.filter_congr
          intro name _
          simp [skipped]
        have hfewer : ((names.drop request.maxKeys.toNat).filter fun name =>
            !skipped request names[request.maxKeys.toNat - 1] name).length < names.length := by
          have hle := List.length_filter_le
            (fun name => !skipped request names[request.maxKeys.toNat - 1] name)
            (names.drop request.maxKeys.toNat)
          rw [List.length_drop] at hle
          omega
        obtain ⟨pages, hpages, hchunks⟩ := ih _ (by rw [hsame]; omega)
          names[request.maxKeys.toNat - 1] (by rw [hbehind]; exact fromSome_behind _ _) rfl
        refine ⟨page :: pages, fun fuel hfuel => ?_, ?_⟩
        · obtain ⟨fuel, rfl⟩ : ∃ less, fuel = less + 1 := ⟨fuel - 1, by omega⟩
          rw [listPages, hpage]
          apply Except.bind_eq_ok_iff.mpr
          refine ⟨page, rfl, ?_⟩
          rw [if_pos htrue]
          apply Except.bind_eq_ok_iff.mpr
          refine ⟨some pages, ?_, rfl⟩
          rw [hmarker]
          exact hpages fuel (by rw [hsame]; omega)
        · rw [RollUp.cut_of_lt_length hsize hmore hlast, ← hsame]
          exact List.Forall₂.cons hshows hchunks
      · have hfalse : page.truncated ≠ true := htruncated.not.mpr hmore
        refine ⟨[page], fun fuel hfuel => ?_, ?_⟩
        · obtain ⟨fuel, rfl⟩ : ∃ less, fuel = less + 1 := ⟨fuel - 1, by omega⟩
          rw [listPages, hpage]
          apply Except.bind_eq_ok_iff.mpr
          refine ⟨page, rfl, ?_⟩
          rw [if_neg hfalse]
          rfl
        · rw [RollUp.cut_of_length_le (not_lt.mp hmore)]
          rw [List.take_of_length_le (not_lt.mp hmore)] at hshows
          exact List.Forall₂.cons hshows List.Forall₂.nil

/-! ### What the pages hold -/

/-- A bucket whose objects were stored by `putObject`, which takes no empty key. -/
structure StoredBucket (rows : Rows) (bucket : Bytes) : Prop where
  row : requireBucket rows bucket = .ok ()
  objects : ∀ key stored, rows.find? (Keys.object bucket key) = some stored →
    key ≠ [] ∧ ∃ record, stored = encodeObject record

/-- The bucket has an object under the key. -/
def Stored (rows : Rows) (bucket key : Bytes) : Prop :=
  ∃ stored, rows.find? (Keys.object bucket key) = some stored

theorem mem_scanned_iff {row : Bytes × Bytes} :
    row ∈ scanned rows (Keys.objectPrefix bucket) request ↔
      ∃ key, row.1 = Keys.object bucket key ∧ request.keyPrefix <+: key ∧
        rows.find? (Keys.object bucket key) = some row.2 := by
  constructor
  · intro hrow
    have hkey := eq_keyOf hrow
    have hobject : row.1 = Keys.object bucket (keyOf bucket row) := hkey.1
    refine ⟨keyOf bucket row, hobject, hkey.2, ?_⟩
    rw [← hobject]
    exact (OrderedMap.find?_eq_some_iff _).mpr (List.mem_filter.mp hrow).1
  · rintro ⟨key, hobject, hfront, hfind⟩
    refine List.mem_filter.mpr ⟨?_, decide_eq_true ?_⟩
    · rw [← hobject] at hfind
      exact (OrderedMap.find?_eq_some_iff _).mp hfind
    · rw [hobject, Keys.object, scanPrefix, List.prefix_append_right_inj]
      exact hfront

theorem keyOf_of_eq {row : Bytes × Bytes} {key : Bytes} (h : row.1 = Keys.object bucket key) :
    keyOf bucket row = key := by
  rw [keyOf, h, Keys.object, List.drop_left]

theorem mem_keysUnder {key : Bytes} :
    key ∈ keysUnder rows bucket request ↔ Stored rows bucket key ∧ request.keyPrefix <+: key := by
  rw [keysUnder, List.mem_map]
  constructor
  · rintro ⟨row, hrow, rfl⟩
    obtain ⟨key, hobject, hfront, hfind⟩ := mem_scanned_iff.mp hrow
    rw [keyOf_of_eq hobject]
    exact ⟨⟨row.2, hfind⟩, hfront⟩
  · rintro ⟨⟨stored, hfind⟩, hfront⟩
    exact ⟨(Keys.object bucket key, stored), mem_scanned_iff.mpr ⟨key, rfl, hfront, hfind⟩,
      keyOf_of_eq rfl⟩

theorem StoredBucket.readable (h : StoredBucket rows bucket) : Readable rows bucket request := by
  intro row hrow
  obtain ⟨key, hobject, -, hfind⟩ := mem_scanned_iff.mp hrow
  obtain ⟨-, record, hrecord⟩ := h.objects key row.2 hfind
  refine ⟨{ record with key := keyOf bucket row }, ?_, rfl⟩
  rw [hrecord]
  exact decodeObject_encodeObject { record with key := keyOf bucket row }

theorem StoredBucket.ne_nil_of_mem_grouping (h : StoredBucket rows bucket) {name : Bytes}
    (hname : name ∈ grouping rows bucket request) : name ≠ [] := by
  obtain ⟨key, hkey, rfl⟩ := RollUp.mem_listing.mp hname
  obtain ⟨⟨stored, hfind⟩, -⟩ := mem_keysUnder.mp hkey
  cases hcommon : RollUp.common? request.keyPrefix request.delimiter key with
  | none =>
      rw [RollUp.shown_of_none hcommon]
      exact (h.objects key stored hfind).1
  | some common =>
      rw [RollUp.shown_of_some hcommon]
      intro hempty
      have hends := RollUp.delimiter_isSuffix_common hcommon
      rw [hempty] at hends
      exact (RollUp.common?_eq_some_iff.mp hcommon).1 (List.suffix_nil.mp hends)

/-- All a page lists. -/
def entries (page : ListObjectsResult) : List Bytes :=
  page.objects.map ObjectRecord.key ++ page.commonPrefixes

/-- The pages of a listing, put together, are its unpaginated grouping: every key
under the prefix without a delimiter behind it, and every rolled-up part of the
others, once, ascending, and no more than `maxKeys` on a page. -/
structure Complete (rows : Rows) (bucket : Bytes) (request : ListObjectsRequest)
    (pages : List ListObjectsResult) : Prop where
  objects : ∀ key, (∃ page ∈ pages, key ∈ page.objects.map ObjectRecord.key) ↔
    Stored rows bucket key ∧ request.keyPrefix <+: key ∧
      RollUp.common? request.keyPrefix request.delimiter key = none
  commonPrefixes : ∀ name, (∃ page ∈ pages, name ∈ page.commonPrefixes) ↔
    ∃ key, Stored rows bucket key ∧ request.keyPrefix <+: key ∧
      RollUp.common? request.keyPrefix request.delimiter key = some name
  ascendingWithin : ∀ page ∈ pages, (page.objects.map ObjectRecord.key).Pairwise (· < ·) ∧
    page.commonPrefixes.Pairwise (· < ·)
  ascendingAcross : pages.Pairwise fun earlier later =>
    ∀ first ∈ entries earlier, ∀ second ∈ entries later, first < second
  bounded : ∀ page ∈ pages, (entries page).length ≤ request.maxKeys.toNat

section Shown

variable {front delimiter : Bytes} {pages : List ListObjectsResult} {chunks : List (List Bytes)}

theorem Shows.mem_entries {page : ListObjectsResult} {names : List Bytes}
    (h : Shows front delimiter page names) {name : Bytes} : name ∈ entries page ↔ name ∈ names := by
  rw [entries, h.objects, h.commonPrefixes, List.mem_append, List.mem_filter, List.mem_filter,
    ← and_or_left]
  simp [em]

theorem Shows.length_entries {page : ListObjectsResult} {names : List Bytes}
    (h : Shows front delimiter page names) : (entries page).length = names.length := by
  have hsplit := List.length_eq_length_filter_add (l := names)
    fun name => RollUp.common? front delimiter name = none
  rw [entries, h.objects, h.commonPrefixes, List.length_append, hsplit]
  simp

theorem mem_objects_iff (h : List.Forall₂ (Shows front delimiter) pages chunks) (name : Bytes) :
    (∃ page ∈ pages, name ∈ page.objects.map ObjectRecord.key) ↔
      name ∈ chunks.flatten ∧ RollUp.common? front delimiter name = none := by
  induction h with
  | nil => simp
  | cons hpage _ ih =>
      rw [List.exists_mem_cons_iff, ih, hpage.objects, List.flatten_cons, List.mem_append,
        List.mem_filter, decide_eq_true_eq, or_and_right]

theorem mem_commonPrefixes_iff (h : List.Forall₂ (Shows front delimiter) pages chunks)
    (name : Bytes) :
    (∃ page ∈ pages, name ∈ page.commonPrefixes) ↔
      name ∈ chunks.flatten ∧ RollUp.common? front delimiter name ≠ none := by
  induction h with
  | nil => simp
  | cons hpage _ ih =>
      rw [List.exists_mem_cons_iff, ih, hpage.commonPrefixes, List.flatten_cons, List.mem_append,
        List.mem_filter, decide_eq_true_eq, or_and_right]

theorem ascending_of_shows (h : List.Forall₂ (Shows front delimiter) pages chunks)
    (hchunks : chunks.flatten.Pairwise (· < ·)) :
    (∀ page ∈ pages, (page.objects.map ObjectRecord.key).Pairwise (· < ·) ∧
      page.commonPrefixes.Pairwise (· < ·)) ∧
    pages.Pairwise fun earlier later =>
      ∀ first ∈ entries earlier, ∀ second ∈ entries later, first < second := by
  induction h with
  | nil => simp
  | cons hpage hrest ih =>
      rw [List.flatten_cons, List.pairwise_append] at hchunks
      obtain ⟨hhead, htail, hacross⟩ := hchunks
      obtain ⟨hwithin, hlater⟩ := ih htail
      refine ⟨List.forall_mem_cons.mpr ⟨⟨?_, ?_⟩, hwithin⟩,
        List.pairwise_cons.mpr ⟨fun later hmem first hfirst second hsecond => ?_, hlater⟩⟩
      · rw [hpage.objects]
        exact hhead.filter _
      · rw [hpage.commonPrefixes]
        exact hhead.filter _
      · apply hacross first (hpage.mem_entries.mp hfirst) second
        rw [entries, List.mem_append] at hsecond
        rcases hsecond with hobject | hcommon
        · exact ((mem_objects_iff hrest second).mp ⟨later, hmem, hobject⟩).1
        · exact ((mem_commonPrefixes_iff hrest second).mp ⟨later, hmem, hcommon⟩).1

theorem bounded_of_shows (h : List.Forall₂ (Shows front delimiter) pages chunks) {size : Nat}
    (hchunks : ∀ chunk ∈ chunks, chunk.length ≤ size) :
    ∀ page ∈ pages, (entries page).length ≤ size := by
  induction h with
  | nil => simp
  | cons hpage _ ih =>
      obtain ⟨hhead, htail⟩ := List.forall_mem_cons.mp hchunks
      exact List.forall_mem_cons.mpr ⟨hpage.length_entries ▸ hhead, ih htail⟩

end Shown

/-- A name of the listing that stands for itself is a stored key. -/
theorem mem_grouping_of_none {name : Bytes}
    (h : RollUp.common? request.keyPrefix request.delimiter name = none) :
    name ∈ grouping rows bucket request ↔
      Stored rows bucket name ∧ request.keyPrefix <+: name := by
  rw [← mem_keysUnder, grouping, RollUp.mem_listing]
  constructor
  · rintro ⟨key, hkey, rfl⟩
    rw [RollUp.common?_shown] at h
    rwa [RollUp.shown_of_none h]
  · exact fun hkey => ⟨name, hkey, RollUp.shown_of_none h⟩

/-- Any other name of the listing is a rolled-up part of a stored key. -/
theorem mem_grouping_of_some {name : Bytes} :
    (name ∈ grouping rows bucket request ∧
        RollUp.common? request.keyPrefix request.delimiter name ≠ none) ↔
      ∃ key, Stored rows bucket key ∧ request.keyPrefix <+: key ∧
        RollUp.common? request.keyPrefix request.delimiter key = some name := by
  rw [grouping, RollUp.mem_listing]
  constructor
  · rintro ⟨⟨key, hkey, rfl⟩, hsome⟩
    rw [RollUp.common?_shown] at hsome
    obtain ⟨common, hcommon⟩ := Option.ne_none_iff_exists'.mp hsome
    obtain ⟨hstored, hfront⟩ := mem_keysUnder.mp hkey
    exact ⟨key, hstored, hfront, by rw [RollUp.shown_of_some hcommon, hcommon]⟩
  · rintro ⟨key, hstored, hfront, hcommon⟩
    refine ⟨⟨key, mem_keysUnder.mpr ⟨hstored, hfront⟩, RollUp.shown_of_some hcommon⟩, ?_⟩
    rw [RollUp.common?_of_isPrefix hcommon (List.prefix_refl _)]
    exact Option.some_ne_none _

/-- Pages that show the names of chunks of the listing are complete exactly when
the chunks are all of it. -/
theorem complete_iff_flatten_eq {pages : List ListObjectsResult} {chunks : List (List Bytes)}
    (hshows : List.Forall₂ (Shows request.keyPrefix request.delimiter) pages chunks)
    (hchunks : chunks.flatten.Sublist (grouping rows bucket request))
    (hbounded : ∀ chunk ∈ chunks, chunk.length ≤ request.maxKeys.toNat) :
    Complete rows bucket request pages ↔ chunks.flatten = grouping rows bucket request := by
  have hordered := grouping_ascending.sublist hchunks
  constructor
  · intro hcomplete
    apply hordered.eq_of_mem_iff grouping_ascending
    intro name
    refine ⟨fun hmem => hchunks.subset hmem, fun hmem => ?_⟩
    by_cases hnone : RollUp.common? request.keyPrefix request.delimiter name = none
    · obtain ⟨hstored, hfront⟩ := (mem_grouping_of_none hnone).mp hmem
      have hlisted := (hcomplete.objects name).mpr ⟨hstored, hfront, hnone⟩
      exact ((mem_objects_iff hshows name).mp hlisted).1
    · have hlisted := (hcomplete.commonPrefixes name).mpr (mem_grouping_of_some.mp ⟨hmem, hnone⟩)
      exact ((mem_commonPrefixes_iff hshows name).mp hlisted).1
  · intro hall
    obtain ⟨hwithin, hacross⟩ := ascending_of_shows hshows hordered
    refine ⟨fun key => ?_, fun name => ?_, hwithin, hacross, bounded_of_shows hshows hbounded⟩
    · rw [mem_objects_iff hshows, hall, ← and_assoc]
      exact and_congr_left fun hnone => mem_grouping_of_none hnone
    · rw [mem_commonPrefixes_iff hshows, hall, mem_grouping_of_some]

/-- What a marker passes over of the names behind it comes first. -/
theorem skipped_of_skipped {names : List Bytes} (hnames : names.Pairwise (· < ·))
    {last first second : Bytes} (h : [last, first, second].Sublist names)
    (hskips : skipped request last second) : skipped request last first := by
  have hordered := hnames.sublist h
  have hbehind : last < first := List.rel_of_pairwise_cons hordered (List.mem_cons_self ..)
  have hbefore : first < second :=
    List.rel_of_pairwise_cons hordered.of_cons (List.mem_cons_self ..)
  obtain ⟨hempty, hends, hstarts⟩ := of_decide_eq_true hskips
  exact decide_eq_true
    ⟨hempty, hends, List.isPrefix_of_le_of_le hbehind.le hbefore.le hstarts⟩

/-- Reading a listing to its end gives complete pages exactly when no page ends
with an object whose key ends with the delimiter and starts the next name of the
listing: the next page goes on behind everything that starts with such a key. -/
theorem pages_complete_iff (hstored : StoredBucket rows bucket) (hmax : request.maxKeys ≠ 0)
    (hstart : request.startAfter = []) :
    ∃ pages,
      (∃ enough, ∀ fuel, enough ≤ fuel → listPages rows bucket fuel request = .ok (some pages)) ∧
      (Complete rows bucket request pages ↔
        ∀ last next,
          RollUp.Boundary request.maxKeys.toNat (grouping rows bucket request) last next →
            ¬ RollUp.Skips request.delimiter last next) := by
  have hsize : 0 < request.maxKeys.toNat :=
    Nat.pos_of_ne_zero fun hzero => hmax (UInt32.toNat_inj.mp hzero)
  have hfirst : { request with startAfter := [] } = request := by
    rw [← hstart]
  have hnames : namesLeft rows bucket request = grouping rows bucket request :=
    namesLeft_of_startAfter_eq_nil hstart
  have hfrom : FromSome (namesLeft rows bucket { request with startAfter := [] })
      (grouping rows bucket request) := by
    rw [hfirst, hnames]
    exact ⟨fun _ hmem => hmem, fun _ _ _ hlater _ => hlater⟩
  obtain ⟨pages, hpages, hshows⟩ := listPages_spec hstored.row hstored.readable hmax
    (fun name => hstored.ne_nil_of_mem_grouping) [] hfrom
  rw [hfirst, hnames] at hpages hshows
  refine ⟨pages, ⟨(grouping rows bucket request).length + 1, hpages⟩, ?_⟩
  have hskip : ∀ last first second,
      [last, first, second].Sublist (grouping rows bucket request) →
        skipped request last second → skipped request last first :=
    fun last first second => skipped_of_skipped grouping_ascending
  have hcut := RollUp.flatten_cut_eq_iff hsize hskip
  rw [complete_iff_flatten_eq hshows (RollUp.flatten_cut_sublist hsize)
    fun chunk hchunk => RollUp.length_le_of_mem_cut hsize hchunk, hcut]
  simp only [skipped, decide_eq_false_iff_not]

/-! ### Two buckets -/

/-- A bucket of empty objects. -/
def storeOf (bucket : Bytes) (keys : List Bytes) : Rows :=
  Rows.write .empty
    (.put (Keys.bucket bucket) [] ::
      keys.map fun key => .put (Keys.object bucket key) (encodeObject { key := key, blobId := .empty }))

theorem storedBucket_storeOf {keys : List Bytes}
    (hrow : requireBucket (storeOf bucket keys) bucket = .ok ()) (hkeys : ∀ key ∈ keys, key ≠ []) : StoredBucket (storeOf bucket keys) bucket := by
  refine ⟨hrow, fun key stored hfind => ?_⟩
  rcases Rows.mem_entries_write ((OrderedMap.find?_eq_some_iff _).mp hfind) with hold | hput
  · cases hold
  · rcases List.mem_cons.mp hput with hbucket | hobject
    · have htag := congrArg List.head? (RowOp.put.inj hbucket).1
      exact absurd (Option.some.inj htag) (by decide)
    · obtain ⟨other, hother, heq⟩ := List.mem_map.mp hobject
      obtain ⟨hkey, hvalue⟩ := RowOp.put.inj heq
      obtain rfl : other = key := List.append_cancel_left hkey
      exact ⟨hkeys other hother, _, hvalue.symm⟩

def photos : Bytes := ascii "photos"

/-- Pages of two, over a bucket with a group in the middle. -/
def pagedByTwo : ListObjectsRequest := { delimiter := ascii "/", maxKeys := 2 }

def grouped : Rows := storeOf photos ([ "a", "b/1", "b/2", "c" ].map ascii)

theorem pages_complete_iff_grouped :
    ∃ pages,
      (∃ enough, ∀ fuel, enough ≤ fuel →
        listPages grouped photos fuel pagedByTwo = .ok (some pages)) ∧
      (Complete grouped photos pagedByTwo pages ↔
        ∀ last next,
          RollUp.Boundary pagedByTwo.maxKeys.toNat (grouping grouped photos pagedByTwo) last next →
            ¬ RollUp.Skips pagedByTwo.delimiter last next) :=
  pages_complete_iff (storedBucket_storeOf (by decide +kernel) (by decide +kernel))
    (by decide) rfl

/-- A folder with a marker object of its own name, read one entry at a time. -/
def underMarker : ListObjectsRequest :=
  { keyPrefix := ascii "2024/", delimiter := ascii "/", maxKeys := 1 }

def marked : Rows := storeOf photos ([ "2024/", "2024/cat" ].map ascii)

/-- The marker object ends the first page, and the second page goes on behind
everything in its folder: `2024/cat` is on no page. -/
theorem marker_object_hides_folder :
    StoredBucket marked photos ∧
      ∃ pages, listPages marked photos 2 underMarker = .ok (some pages) ∧
        ¬ Complete marked photos underMarker pages := by
  refine ⟨storedBucket_storeOf (by decide +kernel) (by decide +kernel),
    [ { objects := [{ key := ascii "2024/", blobId := .empty }], truncated := true, nextStartAfter := ascii "2024/" },
      {} ], by decide +kernel, fun hcomplete => ?_⟩
  have hstored : Stored marked photos (ascii "2024/cat") :=
    Option.isSome_iff_exists.mp (by decide +kernel)
  obtain ⟨page, hpage, hlisted⟩ :=
    (hcomplete.objects (ascii "2024/cat")).mpr ⟨hstored, by decide +kernel, by decide +kernel⟩
  revert page
  decide +kernel

end MonoBucket.Listing

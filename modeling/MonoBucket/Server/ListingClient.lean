/-
A client reading a bucket over S3

A client asks for the pages of a listing one after the other, as its SDK does: each request
is a query string that the listener takes apart, each answer a document that the client takes
apart, and the next request goes on from what the answer says. Between two pages anything may
be written. The pages are read over the rows as they are at each of them.
-/

import MonoBucket.Lib.Paging
import MonoBucket.Server.DeleteObjects
import MonoBucket.Server.ListingPages

namespace MonoBucket.FrontDoors

open S3 Codec Xml Listing

/-! ### The client -/

/-- What a client wants listed, and how it asks. -/
structure Wanted where
  keyPrefix : Bytes := []
  delimiter : Bytes := []
  maxKeys : Nat := 1000
  version2 : Bool := true
  urlEncode : Bool := true

def parameter (name : String) (value : Bytes) : QueryParam :=
  { name := ascii name, value := value, hasValue := true }

def resumeParameter (version2 : Bool) (text : Bytes) : QueryParam :=
  if version2 then parameter "continuation-token" text else parameter "marker" text

/-- The parameters of the request for a page, the first one or one behind another. -/
def Wanted.params (wanted : Wanted) (next : Option Bytes) : List QueryParam :=
  (if wanted.version2 then [parameter "list-type" (ascii "2")] else []) ++
  (if wanted.urlEncode then [parameter "encoding-type" (ascii "url")] else []) ++
  [parameter "prefix" wanted.keyPrefix, parameter "delimiter" wanted.delimiter,
    parameter "max-keys" (decimal wanted.maxKeys)] ++
  next.toList.map (resumeParameter wanted.version2)

/-- The parameters on the wire. -/
def rawQuery (params : List QueryParam) : Bytes :=
  [letter '&'].intercalate (params.map fun param => fieldText (encodedField param))

/-- The server as it is when a page is asked for. -/
structure Moment where
  server : Server
  ticks : Int64 := 0
  requestId : Bytes := []

def Moment.rows (moment : Moment) : Rows := moment.server.engine.metadata.rows

section Client

variable (config : ServerConfig) (account : Account) (bucket : Bytes) (wanted : Wanted)

/-- Whether a request is for a listing, and in which version. -/
def listingVersion (request : S3Request) : Option Bool :=
  match (classify request).1 with
  | .listObjectsV1 => some false
  | .listObjectsV2 => some true
  | _ => none

/-- What the client makes of an answer. -/
def readAnswer : Except HandlerError (HttpResponse × Bytes) → Option ClientPage
  | .error _ => none
  | .ok (_, document) => readListing wanted.version2 wanted.urlEncode document

/-- One page: nothing when the server refuses it or the client cannot read it. -/
def fetchPage (moment : Moment) (next : Option Bytes) : Option ClientPage :=
  let request := parseRequest (ascii "GET") (slash :: bucket) (rawQuery (wanted.params next)) []
  (listingVersion request).bind fun version2 =>
    readAnswer wanted (handleListObjects config moment.ticks account moment.server request
      moment.requestId version2).2

/-- Page after page until one is not truncated, each over the server as it then is. -/
def readAll : List Moment → Option Bytes → Option (List ClientPage)
  | [], _ => none
  | moment :: later, next =>
    (fetchPage config account bucket wanted moment next).bind fun page =>
      match page.next with
      | none => some [page]
      | some resume => (readAll later (some resume)).map fun pages => page :: pages

end Client

/-! ### The request as the listener reads it -/

section Requests

variable {bucket : Bytes} {wanted : Wanted} {next : Option Bytes}

theorem hasValue_of_mem_params : ∀ param ∈ wanted.params next, param.hasValue := by
  intro param hparam
  simp only [Wanted.params, List.mem_append] at hparam
  rcases hparam with ((htype | hencoding) | hplain) | hnext
  · split_ifs at htype
    · rw [List.mem_singleton.mp htype]
      rfl
    · cases htype
  · split_ifs at hencoding
    · rw [List.mem_singleton.mp hencoding]
      rfl
    · cases hencoding
  · simp only [List.mem_cons, List.not_mem_nil, or_false] at hplain
    rcases hplain with rfl | rfl | rfl <;> rfl
  · obtain ⟨text, -, rfl⟩ := List.mem_map.mp hnext
    rw [resumeParameter]
    split_ifs <;> rfl

/-- The listener gets the parameters the client wrote. -/
theorem parseQuery_rawQuery {params : List QueryParam} (h : ∀ param ∈ params, param.hasValue) :
    parseQuery (rawQuery params) = params := by
  have hfields := @parseQuery_fields (params.map encodedField) (by
    intro field hfield
    obtain ⟨param, -, rfl⟩ := List.mem_map.mp hfield
    exact ⟨param.name, param.value, rfl⟩)
  rw [List.map_map, List.map_map] at hfields
  rw [rawQuery]
  refine hfields.trans ?_
  conv_rhs => rw [← List.map_id params]
  apply List.map_congr_left
  intro param hparam
  rw [Function.comp_apply, decodedField_encodedField, ← h param hparam]
  rfl

/-- The request the listener makes of the client's. -/
def pageRequest (bucket : Bytes) (wanted : Wanted) (next : Option Bytes) : S3Request where
  method := ascii "GET"
  bucket := bucket
  query := wanted.params next
  resource := slash :: bucket

theorem parseRequest_eq (hslash : slash ∉ bucket) :
    parseRequest (ascii "GET") (slash :: bucket) (rawQuery (wanted.params next)) [] =
      pageRequest bucket wanted next := by
  have hpath : (slash :: bucket).head? = some (letter '/') := rfl
  have hwhole : splitAtFirst (letter '/') bucket = none := splitAtFirst_of_not_mem hslash
  rw [parseRequest, parseQuery_rawQuery hasValue_of_mem_params]
  dsimp only
  rw [if_neg (not_not.mpr rfl), if_pos hpath, List.tail_cons, hwhole]
  rfl

theorem listingVersion_pageRequest (hbucket : bucket ≠ []) :
    listingVersion (pageRequest bucket wanted next) = some wanted.version2 := by
  have hsubresource : firstSubresource (pageRequest bucket wanted next) = [] := by
    obtain ⟨keyPrefix, delimiter, maxKeys, version2, urlEncode⟩ := wanted
    cases version2 <;> cases urlEncode <;> cases next <;> rfl
  have hclass : classifyBucket (pageRequest bucket wanted next) =
      if wanted.version2 then .listObjectsV2 else .listObjectsV1 := by
    obtain ⟨keyPrefix, delimiter, maxKeys, version2, urlEncode⟩ := wanted
    cases version2 <;> cases urlEncode <;> cases next <;> rfl
  have hmethod : (pageRequest bucket wanted next).method ≠ ascii "OPTIONS" :=
    (by decide : ascii "GET" ≠ ascii "OPTIONS")
  have hplace : (pageRequest bucket wanted next).bucket ≠ [] := hbucket
  have hkey : (pageRequest bucket wanted next).key = [] := rfl
  rw [listingVersion, classify, if_neg hmethod]
  dsimp only
  rw [hsubresource, if_neg (not_not.mpr rfl), if_neg hplace, if_pos hkey, hclass]
  cases wanted.version2 <;> rfl

/-- What the engine is asked for the page behind a marker. -/
def Wanted.query (wanted : Wanted) (marker : Option Bytes) : ListObjectsRequest where
  keyPrefix := wanted.keyPrefix
  delimiter := wanted.delimiter
  startAfter := marker.getD []
  maxKeys := UInt32.ofNat (min wanted.maxKeys kMaxMaxKeys.toNat)

theorem fromChars_decimal {value : Nat} (h : value < 2 ^ 64) : fromChars (decimal value) = some value := by
  rw [fromChars, digitsValue_decimal,
    if_pos ⟨decimal_ne_nil value, fun byte hbyte => isDigit_of_mem_decimal byte hbyte, h⟩]

theorem resumesFrom_pageRequest {marker : Option Bytes} (hmarker : ∀ last ∈ marker, last ≠ []) :
    resumesFrom (pageRequest bucket wanted (marker.map (resumption wanted.version2)))
      wanted.version2 = .ok (marker.getD []) := by
  obtain ⟨keyPrefix, delimiter, maxKeys, version2, urlEncode⟩ := wanted
  cases marker with
  | none => cases version2 <;> cases urlEncode <;> rfl
  | some last =>
      have hlast := hmarker last rfl
      cases version2 with
      | false => cases urlEncode <;> rfl
      | true =>
          have htoken : queryOr (pageRequest bucket ⟨keyPrefix, delimiter, maxKeys, true, urlEncode⟩
              (some (encodeContinuation last))) (ascii "continuation-token") =
              encodeContinuation last := by
            cases urlEncode <;> rfl
          have hsome : encodeContinuation last ≠ [] := base64Encode_ne_nil hlast
          show resumesFrom (pageRequest bucket _ (some (encodeContinuation last))) true = _
          rw [resumesFrom, if_pos rfl, htoken, if_neg hsome,
            decodeContinuation, encodeContinuation, base64Decode_base64Encode hlast]
          rfl

/-- The engine is asked for the page the client wants. -/
theorem listingQuery_pageRequest (hfits : wanted.maxKeys < 2 ^ 64) {marker : Option Bytes}
    (hmarker : ∀ last ∈ marker, last ≠ []) :
    listingQuery (pageRequest bucket wanted (marker.map (resumption wanted.version2)))
      wanted.version2 = .ok (wanted.query marker, wanted.urlEncode) := by
  have hencoding : ∀ next, wantsUrlEncoding (pageRequest bucket wanted next) =
      .ok wanted.urlEncode := by
    intro next
    obtain ⟨keyPrefix, delimiter, maxKeys, version2, urlEncode⟩ := wanted
    cases version2 <;> cases urlEncode <;> cases next <;> rfl
  have hshared : ∀ next, queryOr (pageRequest bucket wanted next) (ascii "prefix") =
      wanted.keyPrefix := by
    intro next
    obtain ⟨keyPrefix, delimiter, maxKeys, version2, urlEncode⟩ := wanted
    cases version2 <;> cases urlEncode <;> rfl
  have hdelimiter : ∀ next, queryOr (pageRequest bucket wanted next) (ascii "delimiter") =
      wanted.delimiter := by
    intro next
    obtain ⟨keyPrefix, delimiter, maxKeys, version2, urlEncode⟩ := wanted
    cases version2 <;> cases urlEncode <;> rfl
  have hmost : ∀ next, queryOr (pageRequest bucket wanted next) (ascii "max-keys") =
      decimal wanted.maxKeys := by
    intro next
    obtain ⟨keyPrefix, delimiter, maxKeys, version2, urlEncode⟩ := wanted
    cases version2 <;> cases urlEncode <;> rfl
  have hmaxKeys : ∀ next, parseMaxKeys (pageRequest bucket wanted next) =
      .ok (UInt32.ofNat (min wanted.maxKeys kMaxMaxKeys.toNat)) := by
    intro next
    rw [parseMaxKeys, hmost, if_neg (decimal_ne_nil _), fromChars_decimal hfits]
  rw [listingQuery, hencoding, hmaxKeys, resumesFrom_pageRequest hmarker, hshared, hdelimiter]
  rfl

end Requests

/-! ### One page -/

/-- A bucket that can be listed: it is there and read, and its objects were stored under
keys a listing can say. -/
structure Listable (bucket : Bytes) (wanted : Wanted) (moment : Moment) : Prop where
  found : ∃ record, loadBucket moment.rows bucket = .ok (some record)
  objects : ∀ key stored, moment.rows.find? (Keys.object bucket key) = some stored →
    key ≠ [] ∧ ∃ record, stored = encodeObject record
  carried : wanted.urlEncode ∨
    ∀ key, Listing.Stored moment.rows bucket key → ∀ byte ∈ key, isCarried byte

/-- A name a page can end with. -/
structure Resumable (wanted : Wanted) (last : Bytes) : Prop where
  ne_nil : last ≠ []
  front : wanted.keyPrefix <+: last
  shown : RollUp.shown wanted.keyPrefix wanted.delimiter last = last

section Pages

variable {config : ServerConfig} {account : Account} {bucket : Bytes} {wanted : Wanted}
variable {moment : Moment} {marker : Option Bytes}

/-- The names of the whole listing, as it is at a moment. -/
def listed (bucket : Bytes) (wanted : Wanted) (moment : Moment) : List Bytes :=
  grouping moment.rows bucket (wanted.query none)

def passesOver (wanted : Wanted) (last name : Bytes) : Bool := RollUp.Skips wanted.delimiter last name

/-- How many names a page takes. -/
def Wanted.room (wanted : Wanted) : Nat := min wanted.maxKeys 1000

/-- The names of a page as a client sees them. -/
structure ShowsNames (wanted : Wanted) (page : ClientPage) (names : List Bytes) : Prop where
  keys : page.keys = names.filter fun name =>
    RollUp.common? wanted.keyPrefix wanted.delimiter name = none
  commonPrefixes : page.commonPrefixes = names.filter fun name =>
    RollUp.common? wanted.keyPrefix wanted.delimiter name ≠ none

theorem toNat_maxKeys (wanted : Wanted) (marker : Option Bytes) :
    (wanted.query marker).maxKeys.toNat = wanted.room := by
  have hmost : min wanted.maxKeys 1000 < 2 ^ 32 := by omega
  show (UInt32.ofNat (min wanted.maxKeys 1000)).toNat = min wanted.maxKeys 1000
  rw [UInt32.toNat_ofNat', Nat.mod_eq_of_lt hmost]

theorem Listable.storedBucket (h : Listable bucket wanted moment) : StoredBucket moment.rows bucket := by
  obtain ⟨record, hrecord⟩ := h.found
  exact ⟨present_of_loadBucket hrecord, h.objects⟩

theorem Listable.resumable (h : Listable bucket wanted moment) {name : Bytes}
    (hname : name ∈ listed bucket wanted moment) : Resumable wanted name where
  ne_nil := h.storedBucket.ne_nil_of_mem_grouping hname
  front := (shown_of_mem_grouping hname).1
  shown := (shown_of_mem_grouping hname).2

theorem Listable.conveyed (h : Listable bucket wanted moment) {name : Bytes}
    (hname : name ∈ listed bucket wanted moment) : conveyed wanted.urlEncode name = name := by
  apply conveyed_eq_self
  refine h.carried.imp_right fun hcarried byte hbyte => ?_
  obtain ⟨key, hkey, rfl⟩ := RollUp.mem_listing.mp hname
  exact hcarried key (mem_keysUnder.mp hkey).1 byte ((RollUp.shown_isPrefix key).subset hbyte)

/-- A page is asked for with the names that are left of the listing. -/
theorem namesLeft_query (hmarker : ∀ last ∈ marker, Resumable wanted last) :
    namesLeft moment.rows bucket (wanted.query marker) =
      Paging.left (passesOver wanted) (listed bucket wanted moment) marker := by
  -- the order on byte strings is decided in two ways
  have hdecided : ∀ (p : Prop) (d : Decidable p), @decide p d = true ↔ p :=
    fun _ _ => decide_eq_true_iff
  cases marker with
  | none => exact namesLeft_of_startAfter_eq_nil rfl
  | some last =>
      obtain ⟨hne, hfront, hshown⟩ := hmarker last rfl
      have hbehind : namesLeft moment.rows bucket (wanted.query (some last)) = _ :=
        @namesLeft_of_marker moment.rows bucket (wanted.query none) last hfront hshown hne
      rw [hbehind, Paging.left, listed]
      apply List.filter_congr
      intro name _
      rw [Bool.eq_iff_iff, hdecided, Bool.and_eq_true, hdecided, passesOver, Bool.not_eq_true',
        decide_eq_false_iff_not]
      rfl

/-- What the client gets for a page is the names of the page, and where the next goes on. -/
theorem fetchPage_spec (hname : isValidBucketName bucket = true) (hsome : 0 < wanted.maxKeys)
    (hfits : wanted.maxKeys < 2 ^ 64) (hmoment : Listable bucket wanted moment)
    (hmarker : ∀ last ∈ marker, Resumable wanted last) :
    ∃ page, fetchPage config account bucket wanted moment
        (marker.map (resumption wanted.version2)) = some page ∧
      ShowsNames wanted page ((Paging.left (passesOver wanted) (listed bucket wanted moment)
        marker).take wanted.room) ∧
      page.next =
        if (Paging.left (passesOver wanted) (listed bucket wanted moment) marker).length ≤ wanted.room
        then none
        else ((Paging.left (passesOver wanted) (listed bucket wanted moment) marker).take
          wanted.room).getLast?.map (resumption wanted.version2) := by
  have hslash : slash ∉ bucket := not_mem_of_isValidBucketName hname (by decide)
  have hbucket : bucket ≠ [] := ne_nil_of_isValidBucketName hname
  obtain ⟨record, hrecord⟩ := hmoment.found
  obtain ⟨cache, found, hfound⟩ :=
    @requireBucket_finds config moment.ticks moment.server bucket hname record hrecord
  have hroom : wanted.room ≠ 0 := by
    rw [Wanted.room]
    omega
  have hmax : (wanted.query marker).maxKeys ≠ 0 := by
    intro hzero
    have htoNat := toNat_maxKeys wanted marker
    rw [hzero] at htoNat
    exact hroom htoNat.symm
  have hclamped : min (wanted.query marker).maxKeys kMaxMaxKeys = (wanted.query marker).maxKeys := by
    have hle : (wanted.query marker).maxKeys ≤ kMaxMaxKeys := by
      rw [UInt32.le_iff_toNat_le, toNat_maxKeys]
      exact min_le_right _ _
    exact if_pos hle
  obtain ⟨result, hresult, hshows, htruncated, hnext⟩ :=
    @listObjects_spec _ _ (wanted.query marker) hmoment.storedBucket.row
      hmoment.storedBucket.readable hmax
  rw [toNat_maxKeys, namesLeft_query hmarker] at hshows htruncated hnext
  generalize hleft : Paging.left (passesOver wanted) (listed bucket wanted moment) marker = names at *
  have hamong : ∀ name ∈ names.take wanted.room, name ∈ listed bucket wanted moment := by
    intro name hmem
    have hsublist := Paging.left_sublist (passesOver wanted) (listed bucket wanted moment) marker
    rw [hleft] at hsublist
    exact hsublist.subset (List.mem_of_mem_take hmem)
  have hentries : ∀ name ∈ Listing.entries result, conveyed wanted.urlEncode name = name :=
    fun name hmem => hmoment.conveyed (hamong name (hshows.mem_entries.mp hmem))
  have hcount : result.objects.length + result.commonPrefixes.length ≤ 1000 := by
    have hlength := hshows.length_entries
    rw [Listing.entries, List.length_append, List.length_map, List.length_take] at hlength
    have hleast : wanted.room ≤ 1000 := min_le_right _ _
    omega
  have hread := readListing_listingDocument account
    (pageRequest bucket wanted (marker.map (resumption wanted.version2))) wanted.version2
    (wanted.query marker) hcount
    (fun object hobject => hentries _ (List.mem_append_left _ (List.mem_map_of_mem hobject)))
    (fun name hmem => hentries _ (List.mem_append_right _ hmem))
    (fun htrue => by
      rw [hnext htrue]
      cases hlast : (names.take wanted.room).getLast? with
      | none => cases wanted.urlEncode <;> rfl
      | some last => exact hmoment.conveyed (hamong last (List.mem_of_getLast? hlast)))
  have hquery := @listingQuery_pageRequest bucket wanted hfits marker fun last hlast =>
    (hmarker last hlast).ne_nil
  have hanswer : answerListing account moment.rows
      (pageRequest bucket wanted (marker.map (resumption wanted.version2))) moment.requestId
      wanted.version2 = .ok (xmlResponse (listingDocument account
        (pageRequest bucket wanted (marker.map (resumption wanted.version2))) wanted.version2
        wanted.urlEncode (wanted.query marker) result) moment.requestId) := by
    have hengine : engineListObjects moment.rows bucket (wanted.query marker) = .ok result := by
      rw [engineListObjects, hclamped]
      exact hresult
    rw [answerListing, hquery]
    show (if (wanted.query marker).maxKeys = 0 then _ else _) = _
    rw [if_neg hmax]
    show (engineListObjects moment.rows bucket (wanted.query marker)).mapError HandlerError.storage >>= _ = _
    rw [hengine]
    rfl
  have hhandled : (handleListObjects config moment.ticks account moment.server
      (pageRequest bucket wanted (marker.map (resumption wanted.version2))) moment.requestId
      wanted.version2).2 = answerListing account moment.rows
        (pageRequest bucket wanted (marker.map (resumption wanted.version2))) moment.requestId
        wanted.version2 := by
    rw [handleListObjects, pageRequest, hfound]
    rfl
  refine ⟨_, ?_, (⟨hshows.objects, hshows.commonPrefixes⟩ : ShowsNames wanted
    { keys := result.objects.map ObjectRecord.key
      commonPrefixes := result.commonPrefixes
      next := if result.truncated then some (resumption wanted.version2 result.nextStartAfter) else none }
    _), ?_⟩
  · rw [fetchPage, parseRequest_eq hslash, listingVersion_pageRequest hbucket, Option.bind_some, hhandled, hanswer,
      xmlResponse, readAnswer, hread]
  · dsimp only
    by_cases hmore : names.length ≤ wanted.room
    · rw [if_pos hmore, if_neg (htruncated.not.mpr (not_lt.mpr hmore))]
    · have htrue := htruncated.mpr (not_le.mp hmore)
      have hsome : names.take wanted.room ≠ [] := by
        rw [ne_eq, List.take_eq_nil_iff, not_or]
        exact ⟨hroom, fun hnil => hmore (hnil ▸ Nat.zero_le _)⟩
      rw [if_neg hmore, if_pos htrue, hnext htrue, List.getLast?_eq_some_getLast hsome]
      rfl

/-! ### All pages -/

variable {moments : List Moment} {pages : List ClientPage}

/-- What the client reads over the wire is the pages of the names, as they are at each
moment. -/
theorem readAll_spec (hname : isValidBucketName bucket = true) (hsome : 0 < wanted.maxKeys)
    (hfits : wanted.maxKeys < 2 ^ 64) (hmoments : ∀ moment ∈ moments, Listable bucket wanted moment)
    (hmarker : ∀ last ∈ marker, Resumable wanted last) :
    Option.Rel (List.Forall₂ (ShowsNames wanted))
      (readAll config account bucket wanted moments (marker.map (resumption wanted.version2)))
      (Paging.readPages (passesOver wanted) wanted.room (moments.map (listed bucket wanted)) marker) := by
  have hroom : 0 < wanted.room := lt_min hsome (by decide)
  induction moments generalizing marker with
  | nil => exact .none
  | cons moment moments ih =>
      obtain ⟨hmoment, hmoments⟩ := List.forall_mem_cons.mp hmoments
      obtain ⟨page, hpage, hshows, hnext⟩ :=
        @fetchPage_spec config account bucket wanted moment marker hname hsome hfits hmoment hmarker
      have hsublist := Paging.left_sublist (passesOver wanted) (listed bucket wanted moment) marker
      rw [readAll, hpage, Option.bind_some, List.map_cons, Paging.readPages]
      by_cases hshort : (Paging.left (passesOver wanted) (listed bucket wanted moment) marker).length ≤
          wanted.room
      · rw [if_pos hshort] at hnext
        rw [List.take_of_length_le hshort] at hshows
        rw [if_pos hshort, hnext]
        exact .some (.cons hshows .nil)
      · have hascending : (listed bucket wanted moment).Pairwise (· < ·) := grouping_ascending
        obtain ⟨last, hlast, hmem, -, -⟩ := Paging.exists_last hroom (not_le.mp hshort)
          (hascending.sublist hsublist)
        rw [if_neg hshort, hlast] at hnext
        rw [if_neg hshort, hnext, hlast]
        have hrest := @ih (some last) hmoments (fun other hother => by
          obtain rfl := Option.mem_some_iff.mp hother
          exact hmoment.resumable (hsublist.subset hmem))
        rw [Option.map_some] at hrest
        rw [Option.map_some]
        dsimp only
        generalize readAll config account bucket wanted moments
          (some (resumption wanted.version2 last)) = pages at hrest ⊢
        generalize Paging.readPages (passesOver wanted) wanted.room
          (moments.map (listed bucket wanted)) (some last) = chunks at hrest ⊢
        cases hrest with
        | none => exact .none
        | some hpages => exact .some (.cons hshows hpages)

/-- The keys a listing read to its end is of, over the rows at each page: in order and so
once, each there when its page was, and each key that is there all along on a page, itself or
by its common prefix, unless an object whose key ends with the delimiter hides what starts
with it. -/
structure ReadsThrough (bucket : Bytes) (wanted : Wanted) (moments : List Moment)
    (pages : List ClientPage) : Prop where
  keys : (pages.flatMap ClientPage.keys).Pairwise (· < ·)
  commonPrefixes : (pages.flatMap ClientPage.commonPrefixes).Pairwise (· < ·)
  sound : ∃ read, read <+: moments ∧ List.Forall₂ (fun moment page =>
    page.keys.length + page.commonPrefixes.length ≤ wanted.room ∧
    (∀ key ∈ page.keys, Listing.Stored moment.rows bucket key ∧ wanted.keyPrefix <+: key) ∧
    ∀ name ∈ page.commonPrefixes, ∃ key, Listing.Stored moment.rows bucket key ∧
      wanted.keyPrefix <+: key ∧
      RollUp.common? wanted.keyPrefix wanted.delimiter key = some name) read pages
  complete : ∀ key, wanted.keyPrefix <+: key →
    (∀ moment ∈ moments, Listing.Stored moment.rows bucket key) →
      key ∈ pages.flatMap ClientPage.keys ∨
      (∃ name ∈ pages.flatMap ClientPage.commonPrefixes,
        RollUp.common? wanted.keyPrefix wanted.delimiter key = some name) ∨
      ∃ folder ∈ pages.flatMap ClientPage.keys, wanted.delimiter ≠ [] ∧
        wanted.delimiter <:+ folder ∧ folder <+: key ∧ folder ≠ key

theorem mem_listed_iff {name : Bytes} :
    name ∈ listed bucket wanted moment ↔ ∃ key, Listing.Stored moment.rows bucket key ∧
      wanted.keyPrefix <+: key ∧ RollUp.shown wanted.keyPrefix wanted.delimiter key = name := by
  rw [listed, grouping, RollUp.mem_listing]
  constructor
  · rintro ⟨key, hkey, hshown⟩
    obtain ⟨hstored, hfront⟩ := mem_keysUnder.mp hkey
    exact ⟨key, hstored, hfront, hshown⟩
  · rintro ⟨key, hstored, hfront, hshown⟩
    exact ⟨key, mem_keysUnder.mpr ⟨hstored, hfront⟩, hshown⟩

/-- The names on all pages that stand for themselves, and those that stand for a group. -/
theorem flatMap_of_showsNames {chunks : List (List Bytes)}
    (h : List.Forall₂ (ShowsNames wanted) pages chunks) :
    pages.flatMap ClientPage.keys = (chunks.flatten.filter fun name =>
        RollUp.common? wanted.keyPrefix wanted.delimiter name = none) ∧
      pages.flatMap ClientPage.commonPrefixes = chunks.flatten.filter fun name =>
        RollUp.common? wanted.keyPrefix wanted.delimiter name ≠ none := by
  induction h with
  | nil => exact ⟨rfl, rfl⟩
  | cons hpage _ ih =>
      rw [List.flatMap_cons, List.flatMap_cons, List.flatten_cons, List.filter_append,
        List.filter_append, ih.1, ih.2, hpage.keys, hpage.commonPrefixes]
      exact ⟨rfl, rfl⟩

/-- A page that shows some of the names listed at a moment is sound. -/
theorem ShowsNames.sound {page : ClientPage} {names : List Bytes} (h : ShowsNames wanted page names)
    (hnames : names.Sublist (listed bucket wanted moment)) :
    (∀ key ∈ page.keys, Listing.Stored moment.rows bucket key ∧ wanted.keyPrefix <+: key) ∧
      ∀ name ∈ page.commonPrefixes, ∃ key, Listing.Stored moment.rows bucket key ∧
        wanted.keyPrefix <+: key ∧
        RollUp.common? wanted.keyPrefix wanted.delimiter key = some name := by
  constructor
  · intro name hname
    rw [h.keys, List.mem_filter, decide_eq_true_eq] at hname
    exact (mem_grouping_of_none hname.2).mp (hnames.subset hname.1)
  · intro name hname
    rw [h.commonPrefixes, List.mem_filter, decide_eq_true_eq] at hname
    exact mem_grouping_of_some.mp ⟨hnames.subset hname.1, hname.2⟩

theorem ShowsNames.length {page : ClientPage} {names : List Bytes} (h : ShowsNames wanted page names) :
    page.keys.length + page.commonPrefixes.length = names.length := by
  have hsplit := List.length_eq_length_filter_add (l := names)
    fun name => RollUp.common? wanted.keyPrefix wanted.delimiter name = none
  rw [h.keys, h.commonPrefixes, hsplit]
  simp

theorem sound_of_showsNames {read : List Moment} {chunks : List (List Bytes)}
    (hread : List.Forall₂ (fun moment names => names.Sublist (listed bucket wanted moment) ∧
      names.length ≤ wanted.room) read chunks)
    (hshows : List.Forall₂ (ShowsNames wanted) pages chunks) :
    List.Forall₂ (fun moment page => page.keys.length + page.commonPrefixes.length ≤ wanted.room ∧
      (∀ key ∈ page.keys, Listing.Stored moment.rows bucket key ∧ wanted.keyPrefix <+: key) ∧
      ∀ name ∈ page.commonPrefixes, ∃ key, Listing.Stored moment.rows bucket key ∧
        wanted.keyPrefix <+: key ∧
        RollUp.common? wanted.keyPrefix wanted.delimiter key = some name) read pages := by
  induction hread generalizing pages with
  | nil =>
      cases hshows
      exact .nil
  | cons hnames _ ih =>
      cases hshows with
      | cons hpage hpages => exact .cons ⟨hpage.length.trans_le hnames.2, hpage.sound hnames.1⟩ (ih hpages)

/-- What a page was read off: the rows as they were. -/
theorem exists_read {chunks : List (List Bytes)}
    (hchunks : Paging.readPages (passesOver wanted) wanted.room
      (moments.map (listed bucket wanted)) marker = some chunks) :
    ∃ read, read <+: moments ∧
      List.Forall₂ (fun moment names => names.Sublist (listed bucket wanted moment) ∧
        names.length ≤ wanted.room) read chunks := by
  obtain ⟨names, hnames, hpages⟩ := Paging.readPages_sound hchunks
  obtain hshared := List.prefix_iff_eq_take.mp hnames
  rw [← List.map_take] at hshared
  rw [hshared, List.forall₂_map_left_iff] at hpages
  exact ⟨_, List.take_prefix _ _, hpages⟩

theorem exists_listed {read : List Moment} {chunks : List (List Bytes)}
    (hread : List.Forall₂ (fun moment names => names.Sublist (listed bucket wanted moment) ∧
      names.length ≤ wanted.room) read chunks) :
    ∀ names ∈ chunks, ∃ moment, names.Sublist (listed bucket wanted moment) := by
  induction hread with
  | nil => exact fun _ h => absurd h List.not_mem_nil
  | cons hnames _ ih => exact List.forall_mem_cons.mpr ⟨⟨_, hnames.1⟩, ih⟩

/-- A name that hides another one behind it is that of an object. -/
theorem common?_eq_none_of_passesOver {last key : Bytes}
    (hself : RollUp.shown wanted.keyPrefix wanted.delimiter last = last)
    (hlt : last < RollUp.shown wanted.keyPrefix wanted.delimiter key) (hstarts : last <+: key) :
    RollUp.common? wanted.keyPrefix wanted.delimiter last = none := by
  cases hcommon : RollUp.common? wanted.keyPrefix wanted.delimiter last with
  | none => rfl
  | some common =>
      obtain rfl : common = last := by
        rw [← RollUp.shown_of_some hcommon]
        exact hself
      rw [RollUp.shown_of_some (RollUp.common?_of_isPrefix hcommon hstarts)] at hlt
      exact absurd hlt (lt_irrefl _)

end Pages

section Fixed

/-- A server with a bucket of empty objects. -/
def serverOf (keys : List Bytes) : Server :=
  { coldServer with
    engine :=
      { coldServer.engine with
        metadata :=
          { rows := Rows.write (storeOf photos keys)
              [.put (Keys.bucket photos) (encodeBucket { name := photos })] } } }

theorem listable_serverOf {wanted : Wanted} {keys : List Bytes} (hencoded : wanted.urlEncode = true)
    (hkeys : ∀ key ∈ keys, key ≠ [])
    (hbucket : (loadBucket (serverOf keys).engine.metadata.rows photos).toOption.any Option.isSome)
    (hrow : requireBucket (storeOf photos keys) photos = .ok ()) :
    Listable photos wanted { server := serverOf keys } where
  found := by
    show ∃ record, loadBucket (serverOf keys).engine.metadata.rows photos = _
    cases hload : loadBucket (serverOf keys).engine.metadata.rows photos with
    | error error =>
        rw [hload] at hbucket
        cases hbucket
    | ok found =>
        cases found with
        | none =>
            rw [hload] at hbucket
            cases hbucket
        | some record => exact ⟨record, rfl⟩
  objects := by
    intro key stored hfind
    rcases Rows.mem_entries_write ((OrderedMap.find?_eq_some_iff _).mp hfind) with hold | hput
    · exact (storedBucket_storeOf hrow hkeys).objects key stored
        ((OrderedMap.find?_eq_some_iff _).mpr hold)
    · have htag := congrArg List.head? (RowOp.put.inj (List.mem_singleton.mp hput)).1
      exact absurd (Option.some.inj htag) (by decide)
  carried := .inl hencoded

def rootAccount : Account where
  rootAccessKey := ascii "monobucket"
  sha256Hex _ := ascii "5888ce436b0f936557741d1c6d10dce99a1fdd0e17876729c804b7adb086b558"

/-- Pages of two, with folders rolled up. -/
def twoAtATime : Wanted := { delimiter := ascii "/", maxKeys := 2 }

/-- Behind the first page one of its keys goes, and one comes in front of it. -/
def changing : List Moment :=
  [{ server := serverOf ([ "a", "b/1", "b/2", "c" ].map ascii) },
    { server := serverOf ([ "A", "b/1", "b/2", "c", "d" ].map ascii) }]

end Fixed

end MonoBucket.FrontDoors

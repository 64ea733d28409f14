/-
The headers of a response

What a request's own headers are kept as, and what an object's record and a query
are answered with. `Unbroken` is the text that can stand on a header's line. A
content header is checked when it is stored; the value a query names instead of it
is not checked at all.
-/

import MonoBucket.S3.ByteRange
import MonoBucket.S3.Chunked
import MonoBucket.S3.Decimal
import MonoBucket.S3.Presign
import MonoBucket.S3.Request
import MonoBucket.S3.SigV4
import MonoBucket.Storage.Records

namespace MonoBucket.S3

/-- The name and the value of a header. -/
abbrev Header := Bytes × Bytes

/-- A request's headers as the HTTP library gives them, their names in lower case. -/
abbrev HttpHeaders := List Header

/-- A header's value, empty when it is absent. -/
def HttpHeaders.getHeader (http : HttpHeaders) (name : Bytes) : Bytes :=
  ((http.find? fun header => header.1 = name).map Prod.snd).getD []

/-! ### What is stored of a request -/

def kMaxUserMetadataBytes : Nat := 2048

def kMaxContentHeaderLength : Nat := 1024

def octetStream : Bytes := ascii "application/octet-stream"

def isStorableHeaderValue (value : Bytes) : Bool :=
  value.length ≤ kMaxContentHeaderLength ∧ value.all fun byte => ¬ (byte < 0x20 ∨ byte = 0x7F)

def contentTypeOf (http : HttpHeaders) : Bytes :=
  let value := http.getHeader (ascii "content-type")
  if value = [] then octetStream
  else if value = ascii "application/x-www-form-urlencoded" then octetStream
  else value

def userMetadataPrefix : Bytes := ascii "x-amz-meta-"

def userMetadataKey (headerName : Bytes) : Bytes :=
  let lowered := toLowerText headerName
  if userMetadataPrefix <+: lowered then lowered.drop userMetadataPrefix.length else []

/-- The loop of `collectUserMetadata`, with the bytes counted so far. -/
def collectMetadata : HttpHeaders → Nat → OrderedMap Bytes Bytes →
    Except S3Exception (OrderedMap Bytes Bytes)
  | [], _, metadata => .ok metadata
  | (name, value) :: rest, bytes, metadata =>
    let key := userMetadataKey name
    if key = [] then collectMetadata rest bytes metadata
    else
      let bytes := bytes + (key.length + value.length)
      if kMaxUserMetadataBytes < bytes then
        invalidArgument (ascii "Your metadata headers exceed the maximum allowed metadata size.")
      else collectMetadata rest bytes (metadata.emplace key value)

def collectUserMetadata (http : HttpHeaders) : Except S3Exception (OrderedMap Bytes Bytes) :=
  collectMetadata http 0 .empty

/-- The framing token dropped from a Content-Encoding. -/
def withoutAwsChunked (contentEncoding : Bytes) : Bytes :=
  joined (letter ',') (((contentEncoding.splitOn (letter ',')).map trim).filter fun token =>
    ¬ (token = [] ∨ token = ascii "aws-chunked"))

/-- A content header as it is stored, empty when the request has none. -/
def storedHeader (http : HttpHeaders) (name : Bytes) : Except S3Exception Bytes :=
  let value := http.getHeader name
  if value = [] then .ok []
  else if isStorableHeaderValue value then .ok value
  else
    invalidArgument (ascii "The " ++ name ++
      ascii " header contains characters that cannot be stored.")

/-- The five content headers of a request, as they are stored. -/
structure CollectedHeaders where
  cacheControl : Bytes
  contentDisposition : Bytes
  contentEncoding : Bytes
  contentLanguage : Bytes
  expires : Bytes

def collectContentHeaders (http : HttpHeaders) : Except S3Exception CollectedHeaders := do
  let cacheControl ← storedHeader http (ascii "cache-control")
  let contentDisposition ← storedHeader http (ascii "content-disposition")
  let contentEncoding ← storedHeader http (ascii "content-encoding")
  let contentLanguage ← storedHeader http (ascii "content-language")
  let expires ← storedHeader http (ascii "expires")
  pure
    { cacheControl := cacheControl
      contentDisposition := contentDisposition
      contentEncoding := withoutAwsChunked contentEncoding
      contentLanguage := contentLanguage
      expires := expires }

/-! ### What is written on a response -/

structure HttpResponse where
  status : Nat
  contentType : Bytes := []
  headers : List Header := []

/-- The values with the separator between them. -/
def join (values : List Bytes) (separator : Bytes) : Bytes :=
  values.foldl (fun out value => (if out = [] then [] else out ++ separator) ++ value) []

/-- A number at least so wide, as `%0*d` writes it. -/
def padded (width : Nat) (value : Int) : Bytes :=
  let sign := if value < 0 then [letter '-'] else []
  let digits := decimal value.natAbs
  sign ++ List.replicate (width - (sign.length + digits.length)) (letter '0') ++ digits

def kDays : List Bytes :=
  [ascii "Sun", ascii "Mon", ascii "Tue", ascii "Wed", ascii "Thu", ascii "Fri", ascii "Sat"]

def kMonths : List Bytes :=
  [ascii "Jan", ascii "Feb", ascii "Mar", ascii "Apr", ascii "May", ascii "Jun", ascii "Jul",
    ascii "Aug", ascii "Sep", ascii "Oct", ascii "Nov", ascii "Dec"]

/-- The seconds of a timestamp are cut towards zero, its days downwards. -/
def toHttpDate (epochMs : TimestampMs) : Bytes :=
  let stamp := epochMs.toInt.tdiv 1000
  let days := stamp / 86400
  let second := stamp % 86400
  let date := civilFromDays days
  kDays.getD ((days + 4) % 7).toNat [] ++ ascii ", " ++ padded 2 date.2.2 ++ ascii " " ++
    kMonths.getD (date.2.1 - 1).toNat [] ++ ascii " " ++ padded 4 date.1 ++ ascii " " ++
    padded 2 (second / 3600) ++ ascii ":" ++ padded 2 (second / 60 % 60) ++ ascii ":" ++
    padded 2 (second % 60) ++ ascii " GMT"

def quoteETag (etag : Bytes) : Bytes := [letter '"'] ++ etag ++ [letter '"']

/-- Without the weak-comparison marker and the quotes. -/
def unquoteETag (etag : Bytes) : Bytes :=
  let strong := if ascii "W/" <+: etag then etag.drop 2 else etag
  if 2 ≤ strong.length ∧ strong.head? = some (letter '"') ∧ strong.getLast? = some (letter '"') then
    (strong.drop 1).dropLast
  else strong

def etagMatches (header etag : Bytes) : Bool :=
  header = ascii "*" ∨ (header.splitOn (letter ',')).any fun candidate =>
    unquoteETag ((candidate.dropWhile (· = 0x20)).rdropWhile (· = 0x20)) = etag

/-- What the preconditions of a read come to. -/
inductive Precondition
  | proceed
  | notModified
  | failed
  deriving DecidableEq

/-- The C library's reading of a date is a parameter. -/
def evaluatePreconditions (parseHttpDate : Bytes → Option TimestampMs) (http : HttpHeaders)
    (record : ObjectRecord) : Precondition :=
  let ifMatch := http.getHeader (ascii "if-match")
  let ifNoneMatch := http.getHeader (ascii "if-none-match")
  let ifModified := http.getHeader (ascii "if-modified-since")
  let ifUnmodified := http.getHeader (ascii "if-unmodified-since")
  let changed :=
    if ifMatch ≠ [] then !etagMatches ifMatch record.etag.items
    else if ifUnmodified ≠ [] then
      match parseHttpDate ifUnmodified with
      | some since => decide (since / 1000 < record.lastModified / 1000)
      | none => false
    else false
  let same :=
    if ifNoneMatch ≠ [] then etagMatches ifNoneMatch record.etag.items
    else if ifModified ≠ [] then
      match parseHttpDate ifModified with
      | some since => decide (record.lastModified / 1000 ≤ since / 1000)
      | none => false
    else false
  if changed then .failed else if same then .notModified else .proceed

/-- The content headers in the order they are written: the name, the parameter that
overrides the value, and the value that was stored. -/
def contentEntries (stored : ContentHeaders) : List (Bytes × Bytes × Bytes) :=
  [(ascii "Cache-Control", ascii "response-cache-control", stored.cacheControl.items),
    (ascii "Content-Disposition", ascii "response-content-disposition",
      stored.contentDisposition.items),
    (ascii "Content-Encoding", ascii "response-content-encoding", stored.contentEncoding.items),
    (ascii "Content-Language", ascii "response-content-language", stored.contentLanguage.items),
    (ascii "Expires", ascii "response-expires", stored.expires.items)]

/-- A parameter that is there and not blank; any other is no override. -/
def overrideOf (query : List QueryParam) (parameter : Bytes) : Option Bytes :=
  (findQuery query parameter).filter fun value => value ≠ []

/-- A header is left out when there is nothing to say. -/
def resolveContentHeaders (stored : ContentHeaders) (query : List QueryParam) : List Header :=
  (contentEntries stored).filterMap fun entry =>
    let value := (overrideOf query entry.2.1).getD entry.2.2
    if value = [] then none else some (entry.1, value)

/-- The stored metadata under its prefix. -/
def metadataHeaders (record : ObjectRecord) : List Header :=
  record.userMetadata.bindings.entries.map fun entry =>
    (userMetadataPrefix ++ entry.1.items, entry.2.items)

def objectHeaders (record : ObjectRecord) (query : List QueryParam) : List Header :=
  [(ascii "ETag", quoteETag record.etag.items),
    (ascii "Last-Modified", toHttpDate record.lastModified), (ascii "Accept-Ranges", ascii "bytes")] ++
    resolveContentHeaders record.content query ++ metadataHeaders record

/-- The digits of a random number. -/
def newRequestId (value : UInt64) : Bytes :=
  (List.range 16).map fun index =>
    upperHexDigit ((value >>> (4 * (15 - index)).toUInt64).toUInt8 &&& 0x0F)

def commonHeaders (requestId : Bytes) : List Header :=
  [(ascii "x-amz-request-id", requestId), (ascii "x-amz-id-2", requestId)]

/-! ### Checksums -/

def kAlphabet : Bytes :=
  ascii "ABCDEFGHIJKLMNOPQRSTUVWXYZabcdefghijklmnopqrstuvwxyz0123456789+/"

/-- Six bits as a letter. -/
def sextet (bits : UInt32) : UInt8 := kAlphabet.getD (bits &&& 0x3F).toNat (letter 'A')

def base64Encode : Bytes → Bytes
  | first :: second :: third :: rest =>
    let triple := (first.toUInt32 <<< 16) ||| (second.toUInt32 <<< 8) ||| third.toUInt32
    [sextet (triple >>> 18), sextet (triple >>> 12), sextet (triple >>> 6), sextet triple] ++
      base64Encode rest
  | [first, second] =>
    let triple := (first.toUInt32 <<< 16) ||| (second.toUInt32 <<< 8)
    [sextet (triple >>> 18), sextet (triple >>> 12), sextet (triple >>> 6), letter '=']
  | [first] =>
    let triple := first.toUInt32 <<< 16
    [sextet (triple >>> 18), sextet (triple >>> 12), letter '=', letter '=']
  | [] => []

/-- `toString(algorithm)`. -/
def checksumName : ChecksumAlgorithm → Bytes
  | .crc32 => ascii "CRC32"
  | .crc32c => ascii "CRC32C"
  | .crc64Nvme => ascii "CRC64NVME"
  | .sha1 => ascii "SHA1"
  | .sha256 => ascii "SHA256"

/-- `encodeChecksum` of a checksum that is there. -/
def checksumText (checksum : Checksum) : Bytes :=
  base64Encode checksum.value.items ++
    (if checksum.parts = 0 then [] else [letter '-'] ++ decimal checksum.parts.toNat)

/-- The two headers of a stored checksum; none is written when there is none. -/
def checksumHeaders (checksum : Checksum) : List Header :=
  match checksum.algorithm with
  | none => []
  | some algorithm =>
    [(ascii "x-amz-checksum-" ++ toLowerText (checksumName algorithm), checksumText checksum),
      (ascii "x-amz-checksum-type",
        if checksum.parts = 0 then ascii "FULL_OBJECT" else ascii "COMPOSITE")]

/-- `x-amz-checksum-mode: ENABLED`. -/
def checksumModeEnabled (http : HttpHeaders) : Bool :=
  toLowerText (http.getHeader (ascii "x-amz-checksum-mode")) = ascii "enabled"

/-! ### Text on one line -/

/-- No byte that ends a header. -/
def Unbroken (text : Bytes) : Prop := ∀ byte ∈ text, byte ≠ 0x0D ∧ byte ≠ 0x0A ∧ byte ≠ 0x00

instance (text : Bytes) : Decidable (Unbroken text) :=
  inferInstanceAs (Decidable (∀ byte ∈ text, _ ∧ _ ∧ _))

/-- Headers none of which can be split. -/
def HeadersUnbroken (headers : List Header) : Prop :=
  ∀ header ∈ headers, Unbroken header.1 ∧ Unbroken header.2

structure HttpResponse.Unbroken (response : HttpResponse) : Prop where
  contentType : S3.Unbroken response.contentType
  headers : HeadersUnbroken response.headers

theorem headersUnbroken_nil : HeadersUnbroken [] := fun _ h => nomatch h

theorem headersUnbroken_cons {name value : Bytes} {rest : List Header} :
    HeadersUnbroken ((name, value) :: rest) ↔
      (Unbroken name ∧ Unbroken value) ∧ HeadersUnbroken rest := List.forall_mem_cons

theorem headersUnbroken_append {first second : List Header} :
    HeadersUnbroken (first ++ second) ↔ HeadersUnbroken first ∧ HeadersUnbroken second :=
  List.forall_mem_append

section Unbroken

variable {first second text : Bytes}

@[simp]
theorem unbroken_nil : Unbroken [] := fun _ h => nomatch h

@[simp]
theorem unbroken_append : Unbroken (first ++ second) ↔ Unbroken first ∧ Unbroken second :=
  List.forall_mem_append

theorem Unbroken.of_subset (h : Unbroken text) (hsubset : first ⊆ text) : Unbroken first :=
  fun byte hbyte => h byte (hsubset hbyte)

/-- A byte that can be seen ends nothing. -/
theorem unbroken_of_visible (h : ∀ byte ∈ text, (0x20 : UInt8) ≤ byte) : Unbroken text := by
  intro byte hbyte
  have hvisible := h byte hbyte
  refine ⟨?_, ?_, ?_⟩
  · rintro rfl
    exact absurd hvisible (by decide)
  · rintro rfl
    exact absurd hvisible (by decide)
  · rintro rfl
    exact absurd hvisible (by decide)

theorem unbroken_of_isStorableHeaderValue (h : isStorableHeaderValue text = true) :
    Unbroken text := by
  simp only [isStorableHeaderValue, Bool.decide_and, Bool.and_eq_true, decide_eq_true_eq,
    List.all_eq_true, not_or, not_lt] at h
  exact unbroken_of_visible fun byte hbyte => (h.2 byte hbyte).1

theorem Unbroken.map {f : UInt8 → UInt8} (h : Unbroken text)
    (hf : ∀ byte, f byte = byte ∨ (0x20 : UInt8) ≤ f byte) : Unbroken (text.map f) := by
  intro byte hbyte
  obtain ⟨source, hsource, rfl⟩ := List.mem_map.mp hbyte
  rcases hf source with hsame | hvisible
  · rw [hsame]
    exact h source hsource
  · have hself : ∀ byte ∈ [f source], (0x20 : UInt8) ≤ byte := by
      intro byte hmem
      rwa [List.mem_singleton.mp hmem]
    exact unbroken_of_visible hself (f source) List.mem_cons_self

theorem Unbroken.toLowerText (h : Unbroken text) : Unbroken (toLowerText text) := by
  refine h.map fun byte => ?_
  rw [toLower]
  split_ifs with hletter
  · right
    simp only [UInt8.le_iff_toNat_le, UInt8.toNat_add, UInt8.toNat_ofNat] at hletter ⊢
    omega
  · exact .inl rfl

theorem Unbroken.dropWhile {p : UInt8 → Bool} (h : Unbroken text) : Unbroken (text.dropWhile p) :=
  h.of_subset (List.dropWhile_sublist p).subset

theorem Unbroken.rdropWhile {p : UInt8 → Bool} (h : Unbroken text) :
    Unbroken (text.rdropWhile p) :=
  h.of_subset (List.rdropWhile_prefix p text).subset

theorem Unbroken.splitOn (h : Unbroken text) {separator : UInt8} :
    ∀ piece ∈ text.splitOn separator, Unbroken piece := by
  induction text with
  | nil =>
      intro piece hpiece
      rw [List.splitOn_nil, List.mem_singleton] at hpiece
      rw [hpiece]
      exact unbroken_nil
  | cons byte rest ih =>
      have hrest := ih (h.of_subset (List.subset_cons_self byte rest))
      rw [List.splitOn_cons_eq_if_modifyHead]
      split_ifs with hseparator
      · exact List.forall_mem_cons.mpr ⟨unbroken_nil, hrest⟩
      · cases hsplit : rest.splitOn separator with
        | nil => exact fun _ h => nomatch h
        | cons piece others =>
            rw [hsplit] at hrest
            obtain ⟨hpiece, hothers⟩ := List.forall_mem_cons.mp hrest
            refine List.forall_mem_cons.mpr ⟨?_, hothers⟩
            exact List.forall_mem_cons.mpr ⟨h byte List.mem_cons_self, hpiece⟩

theorem unbroken_join {separator : Bytes} {items : List Bytes} (hseparator : Unbroken separator)
    (h : ∀ item ∈ items, Unbroken item) : Unbroken (join items separator) := by
  have hloop : ∀ out : Bytes, Unbroken out → Unbroken (items.foldl
      (fun out item => (if out = [] then [] else out ++ separator) ++ item) out) := by
    induction items with
    | nil => exact fun _ hout => hout
    | cons item rest ih =>
        intro out hout
        refine ih (fun other hother => h other (List.mem_cons_of_mem _ hother)) _ ?_
        refine unbroken_append.mpr ⟨?_, h item List.mem_cons_self⟩
        split_ifs
        · exact unbroken_nil
        · exact unbroken_append.mpr ⟨hout, hseparator⟩
  exact hloop [] unbroken_nil

theorem unbroken_decimal (value : Nat) : Unbroken (decimal value) := by
  refine unbroken_of_visible fun byte hbyte => ?_
  have hdigit := of_decide_eq_true (isDigit_of_mem_decimal byte hbyte)
  exact le_trans (by decide) hdigit.1

theorem unbroken_of_mem_kAlphabet {byte : UInt8} (h : byte ∈ kAlphabet) : Unbroken [byte] := by
  have hall : Unbroken kAlphabet := by decide
  exact hall.of_subset fun other hother => by rwa [List.mem_singleton.mp hother]

theorem unbroken_sextet (bits : UInt32) : Unbroken [sextet bits] := by
  rw [sextet, List.getD_eq_getElem?_getD]
  cases hletter : kAlphabet[(bits &&& 0x3F).toNat]? with
  | none => exact (by decide : Unbroken [letter 'A'])
  | some byte => exact unbroken_of_mem_kAlphabet (List.mem_of_getElem? hletter)

theorem unbroken_base64Encode (data : Bytes) : Unbroken (base64Encode data) := by
  have hcons : ∀ {byte : UInt8} {rest : Bytes}, Unbroken [byte] → Unbroken rest →
      Unbroken (byte :: rest) := fun hbyte hrest => unbroken_append.mpr ⟨hbyte, hrest⟩
  have hpadding : Unbroken [letter '='] := by decide
  induction data using base64Encode.induct with
  | case1 first second third rest ih =>
      exact hcons (unbroken_sextet _) (hcons (unbroken_sextet _) (hcons (unbroken_sextet _)
        (hcons (unbroken_sextet _) ih)))
  | case2 first second =>
      exact hcons (unbroken_sextet _) (hcons (unbroken_sextet _) (hcons (unbroken_sextet _) hpadding))
  | case3 first =>
      exact hcons (unbroken_sextet _) (hcons (unbroken_sextet _) (hcons hpadding hpadding))
  | case4 => exact unbroken_nil

theorem unbroken_padded (width : Nat) (value : Int) : Unbroken (padded width value) := by
  rw [padded]
  refine unbroken_append.mpr ⟨unbroken_append.mpr ⟨?_, ?_⟩, unbroken_decimal _⟩
  · split_ifs
    · decide
    · exact unbroken_nil
  · intro byte hbyte
    obtain ⟨-, rfl⟩ := List.mem_replicate.mp hbyte
    decide

/-- A name out of a table, or nothing. -/
theorem unbroken_getD {names : List Bytes} (h : ∀ name ∈ names, Unbroken name) (index : Nat) :
    Unbroken (names.getD index []) := by
  rw [List.getD_eq_getElem?_getD]
  cases hname : names[index]? with
  | none => exact unbroken_nil
  | some name => exact h name (List.mem_of_getElem? hname)

theorem unbroken_toHttpDate (epochMs : TimestampMs) : Unbroken (toHttpDate epochMs) := by
  have hdays : ∀ name ∈ kDays, Unbroken name := by decide
  have hmonths : ∀ name ∈ kMonths, Unbroken name := by decide
  have hpunctuation : Unbroken (ascii ", ") ∧ Unbroken (ascii " ") ∧ Unbroken (ascii ":") ∧
      Unbroken (ascii " GMT") := by decide
  simp only [toHttpDate, unbroken_append, unbroken_padded, unbroken_getD hdays,
    unbroken_getD hmonths, hpunctuation, and_self]

theorem unbroken_quoteETag (h : Unbroken text) : Unbroken (quoteETag text) := by
  have hquote : Unbroken [letter '"'] := by decide
  exact unbroken_append.mpr ⟨unbroken_append.mpr ⟨hquote, h⟩, hquote⟩

theorem unbroken_of_isUnreserved (h : ∀ byte ∈ text, isUnreserved byte = true) : Unbroken text := by
  refine unbroken_of_visible fun byte hbyte => ?_
  have hall := forall_byte_of_fin
    (P := fun byte => isUnreserved byte = true → (0x20 : UInt8) ≤ byte) (by decide +kernel) byte
  exact hall (h byte hbyte)

theorem unbroken_toHex (bytes : Bytes) : Unbroken (toHex bytes) :=
  unbroken_of_isUnreserved fun _ hbyte => isUnreserved_of_mem_toHex hbyte

theorem unbroken_newRequestId (value : UInt64) : Unbroken (newRequestId value) := by
  refine unbroken_of_isUnreserved fun byte hbyte => ?_
  obtain ⟨index, -, rfl⟩ := List.mem_map.mp hbyte
  exact isUnreserved_low _

theorem Unbroken.trim (h : Unbroken text) : Unbroken (trim text) := h.dropWhile.rdropWhile

theorem Unbroken.withoutAwsChunked (h : Unbroken text) : Unbroken (S3.withoutAwsChunked text) := by
  have hjoin : S3.withoutAwsChunked text = join (((text.splitOn (letter ',')).map S3.trim).filter fun token =>
      ¬ (token = [] ∨ token = ascii "aws-chunked")) [letter ','] := rfl
  rw [hjoin]
  refine unbroken_join (by decide) fun item hitem => ?_
  obtain ⟨piece, hpiece, rfl⟩ := List.mem_map.mp (List.mem_of_mem_filter hitem)
  exact (h.splitOn piece hpiece).trim

end Unbroken

/-! ### What a request is described by -/

/-- What is kept of the headers of a request that stores an object or begins an upload. -/
structure Description where
  contentType : Text
  userMetadata : UserMetadata
  content : ContentHeaders

def Description.ofObject (record : ObjectRecord) : Description where
  contentType := record.contentType
  userMetadata := record.userMetadata
  content := record.content

def Description.ofUpload (record : UploadRecord) : Description where
  contentType := record.contentType
  userMetadata := record.userMetadata
  content := record.content

namespace Description

/-- The content headers are those the request carries, each checked. -/
structure ContentFrom (http : HttpHeaders) (content : ContentHeaders) (collected : CollectedHeaders) :
    Prop where
  collects : collectContentHeaders http = .ok collected
  cacheControl : content.cacheControl.items = collected.cacheControl
  contentDisposition : content.contentDisposition.items = collected.contentDisposition
  contentEncoding : content.contentEncoding.items = collected.contentEncoding
  contentLanguage : content.contentLanguage.items = collected.contentLanguage
  expires : content.expires.items = collected.expires

/-- As `PutObject` and `CreateMultipartUpload` take it from a request. -/
structure ReadFrom (http : HttpHeaders) (description : Description) : Prop where
  contentType : description.contentType.items = contentTypeOf http
  userMetadata : ∃ metadata, collectUserMetadata http = .ok metadata ∧
    description.userMetadata.bindings.entries.map (fun entry => (entry.1.items, entry.2.items)) =
      metadata.entries
  content : ∃ collected, ContentFrom http description.content collected

/-- As the console's upload takes it: the type as it was sent, and no metadata. -/
structure ConsoleReadFrom (http : HttpHeaders) (description : Description) : Prop where
  contentType : description.contentType.items =
    if http.getHeader (ascii "content-type") = [] then octetStream
    else http.getHeader (ascii "content-type")
  userMetadata : description.userMetadata = .empty
  content : ∃ collected, ContentFrom http description.content collected

/-- Nothing in it can split a header. -/
structure Unbroken (description : Description) : Prop where
  contentType : S3.Unbroken description.contentType.items
  userMetadata : ∀ entry ∈ description.userMetadata.bindings.entries,
    S3.Unbroken entry.1.items ∧ S3.Unbroken entry.2.items
  content : ∀ entry ∈ contentEntries description.content, S3.Unbroken entry.2.2

end Description

section Reading

variable {http : HttpHeaders}

theorem unbroken_getHeader (h : HeadersUnbroken http) (name : Bytes) : Unbroken (http.getHeader name) := by
  rw [HttpHeaders.getHeader]
  cases hfind : http.find? fun header => header.1 = name with
  | none => exact unbroken_nil
  | some header => exact (h header (List.mem_of_find?_eq_some hfind)).2

theorem unbroken_octetStream : Unbroken octetStream := by decide

theorem unbroken_contentTypeOf (h : HeadersUnbroken http) : Unbroken (contentTypeOf http) := by
  rw [contentTypeOf]
  split_ifs
  · exact unbroken_octetStream
  · exact unbroken_octetStream
  · exact unbroken_getHeader h _

theorem unbroken_userMetadataKey {name : Bytes} (h : Unbroken name) :
    Unbroken (userMetadataKey name) := by
  rw [userMetadataKey]
  split_ifs
  · exact h.toLowerText.of_subset (List.drop_subset _ _)
  · exact unbroken_nil

/-- What is emplaced came from a header, or was there before. -/
theorem unbroken_collectMetadata {bytes : Nat} {metadata collected : OrderedMap Bytes Bytes}
    (h : HeadersUnbroken http) (hmetadata : HeadersUnbroken metadata.entries)
    (hcollect : collectMetadata http bytes metadata = .ok collected) :
    HeadersUnbroken collected.entries := by
  induction http generalizing bytes metadata with
  | nil =>
      obtain rfl := Except.ok.inj hcollect
      exact hmetadata
  | cons header rest ih =>
      obtain ⟨hheader, hrest⟩ := List.forall_mem_cons.mp h
      rw [collectMetadata] at hcollect
      dsimp only at hcollect
      split_ifs at hcollect with hempty hlong
      · exact ih hrest hmetadata hcollect
      · cases hcollect
      · refine ih hrest ?_ hcollect
        intro entry hentry
        rcases OrderedMap.mem_emplace hentry with rfl | hold
        · exact ⟨unbroken_userMetadataKey hheader.1, hheader.2⟩
        · exact hmetadata entry hold

theorem unbroken_storedHeader {name value : Bytes} (h : storedHeader http name = .ok value) :
    Unbroken value := by
  rw [storedHeader] at h
  split_ifs at h with hempty hstorable
  · obtain rfl := Except.ok.inj h
    exact unbroken_nil
  · obtain rfl := Except.ok.inj h
    exact unbroken_of_isStorableHeaderValue hstorable
  · cases h

/-- Whatever the request carries, the content headers it is allowed to store are safe. -/
theorem Description.ContentFrom.unbroken {content : ContentHeaders} {collected : CollectedHeaders}
    (h : Description.ContentFrom http content collected) :
    ∀ entry ∈ contentEntries content, S3.Unbroken entry.2.2 := by
  obtain ⟨cacheControl, hcacheControl, hrest⟩ := Except.bind_eq_ok_iff.mp h.collects
  obtain ⟨contentDisposition, hcontentDisposition, hrest⟩ := Except.bind_eq_ok_iff.mp hrest
  obtain ⟨contentEncoding, hcontentEncoding, hrest⟩ := Except.bind_eq_ok_iff.mp hrest
  obtain ⟨contentLanguage, hcontentLanguage, hrest⟩ := Except.bind_eq_ok_iff.mp hrest
  obtain ⟨expires, hexpires, hrest⟩ := Except.bind_eq_ok_iff.mp hrest
  obtain rfl := Except.pure_eq_ok_iff.mp hrest
  simp only [contentEntries, List.forall_mem_cons, List.not_mem_nil, false_implies, implies_true,
    and_true, h.cacheControl, h.contentDisposition, h.contentEncoding, h.contentLanguage, h.expires]
  exact ⟨unbroken_storedHeader hcacheControl, unbroken_storedHeader hcontentDisposition,
    (unbroken_storedHeader hcontentEncoding).withoutAwsChunked,
    unbroken_storedHeader hcontentLanguage, unbroken_storedHeader hexpires⟩

/-- What an S3 request stores is as safe as the request's own headers. -/
theorem Description.ReadFrom.unbroken {description : Description} (hhttp : HeadersUnbroken http)
    (h : description.ReadFrom http) : description.Unbroken where
  contentType := by
    rw [h.contentType]
    exact unbroken_contentTypeOf hhttp
  userMetadata := by
    obtain ⟨metadata, hcollect, hentries⟩ := h.userMetadata
    have hmetadata : HeadersUnbroken metadata.entries :=
      unbroken_collectMetadata hhttp headersUnbroken_nil hcollect
    intro entry hentry
    refine hmetadata (entry.1.items, entry.2.items) ?_
    rw [← hentries]
    exact List.mem_map_of_mem hentry
  content := by
    obtain ⟨collected, hcontent⟩ := h.content
    exact hcontent.unbroken

theorem Description.ConsoleReadFrom.unbroken {description : Description}
    (hhttp : HeadersUnbroken http) (h : description.ConsoleReadFrom http) :
    description.Unbroken where
  contentType := by
    rw [h.contentType]
    split_ifs
    · exact unbroken_octetStream
    · exact unbroken_getHeader hhttp _
  userMetadata := by
    rw [h.userMetadata]
    exact List.forall_mem_nil _
  content := by
    obtain ⟨collected, hcontent⟩ := h.content
    exact hcontent.unbroken

end Reading

/-! ### What a record and a query are answered with -/

section Writing

variable {record : ObjectRecord} {query : List QueryParam}

/-- An object's record none of whose text can split a header. -/
structure RecordUnbroken (record : ObjectRecord) : Prop where
  etag : Unbroken record.etag.items
  description : (Description.ofObject record).Unbroken

/-- The parameters that override a content header. -/
def contentParameters : List Bytes := (contentEntries {}).map fun entry => entry.2.1

/-- The overrides a query carries can stand on a header's line. -/
def OverridesUnbroken (query : List QueryParam) (parameters : List Bytes) : Prop :=
  ∀ parameter ∈ parameters, ∀ value ∈ overrideOf query parameter, Unbroken value

theorem resolveContentHeaders_unbroken_iff {stored : ContentHeaders}
    (hstored : ∀ entry ∈ contentEntries stored, Unbroken entry.2.2) :
    HeadersUnbroken (resolveContentHeaders stored query) ↔
      OverridesUnbroken query contentParameters := by
  have hnames : ∀ entry ∈ contentEntries stored, Unbroken entry.1 := by
    simp only [contentEntries, List.forall_mem_cons, List.not_mem_nil, false_implies, implies_true,
      and_true]
    decide
  have hparameters : contentParameters = (contentEntries stored).map fun entry => entry.2.1 := rfl
  rw [OverridesUnbroken, hparameters, List.forall_mem_map]
  constructor
  · intro h entry hentry value hvalue
    have hfilled : value ≠ [] := by
      have := (Option.mem_filter_iff.mp hvalue).2
      exact of_decide_eq_true this
    refine (h (entry.1, value) (List.mem_filterMap.mpr ⟨entry, hentry, ?_⟩)).2
    rw [Option.mem_def.mp hvalue]
    exact if_neg hfilled
  · intro h header hheader
    obtain ⟨entry, hentry, hresolved⟩ := List.mem_filterMap.mp hheader
    dsimp only at hresolved
    split_ifs at hresolved with hempty
    obtain rfl := Option.some.inj hresolved
    refine ⟨hnames entry hentry, ?_⟩
    cases hoverride : overrideOf query entry.2.1 with
    | none => exact hstored entry hentry
    | some value => exact h entry hentry value hoverride

theorem unbroken_metadataHeaders (h : (Description.ofObject record).Unbroken) :
    HeadersUnbroken (metadataHeaders record) := by
  intro header hheader
  obtain ⟨entry, hentry, rfl⟩ := List.mem_map.mp hheader
  obtain ⟨hname, hvalue⟩ := h.userMetadata entry hentry
  exact ⟨unbroken_append.mpr ⟨by decide, hname⟩, hvalue⟩

theorem unbroken_commonHeaders (value : UInt64) : HeadersUnbroken (commonHeaders (newRequestId value)) := by
  have hid := unbroken_newRequestId value
  exact headersUnbroken_cons.mpr ⟨⟨by decide, hid⟩,
    headersUnbroken_cons.mpr ⟨⟨by decide, hid⟩, headersUnbroken_nil⟩⟩

theorem unbroken_checksumHeaders (checksum : Checksum) : HeadersUnbroken (checksumHeaders checksum) := by
  rw [checksumHeaders]
  split
  · exact fun _ h => nomatch h
  · rename_i algorithm _
    have htext : Unbroken (checksumText checksum) := by
      rw [checksumText]
      refine unbroken_append.mpr ⟨unbroken_base64Encode _, ?_⟩
      split_ifs
      · exact unbroken_nil
      · exact unbroken_append.mpr ⟨by decide, unbroken_decimal _⟩
    have hname : Unbroken (ascii "x-amz-checksum-" ++ toLowerText (checksumName algorithm)) := by
      cases algorithm <;> decide
    refine headersUnbroken_cons.mpr ⟨⟨hname, htext⟩,
      headersUnbroken_cons.mpr ⟨⟨by decide, ?_⟩, headersUnbroken_nil⟩⟩
    split_ifs
    · decide
    · decide

theorem objectHeaders_unbroken_iff (h : RecordUnbroken record) :
    HeadersUnbroken (objectHeaders record query) ↔ OverridesUnbroken query contentParameters := by
  have hfront : HeadersUnbroken [(ascii "ETag", quoteETag record.etag.items),
      (ascii "Last-Modified", toHttpDate record.lastModified),
      (ascii "Accept-Ranges", ascii "bytes")] :=
    headersUnbroken_cons.mpr ⟨⟨by decide, unbroken_quoteETag h.etag⟩,
      headersUnbroken_cons.mpr ⟨⟨by decide, unbroken_toHttpDate _⟩,
        headersUnbroken_cons.mpr ⟨⟨by decide, by decide⟩, headersUnbroken_nil⟩⟩⟩
  have hcontent : HeadersUnbroken (resolveContentHeaders record.content query) ↔
      OverridesUnbroken query contentParameters :=
    resolveContentHeaders_unbroken_iff h.description.content
  rw [objectHeaders, headersUnbroken_append, headersUnbroken_append, hcontent]
  exact ⟨fun hall => hall.1.2, fun hoverrides =>
    ⟨⟨hfront, hoverrides⟩, unbroken_metadataHeaders h.description⟩⟩

end Writing

end MonoBucket.S3

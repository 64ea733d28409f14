/-
Checksums verified during an upload

The payload is checksummed in the pass that writes it, and compared with what the client
said before anything is committed. What is compared is one value at most: that of a value
header, or of the first trailing header of the announced name, and neither when it is
empty.
-/

import MonoBucket.S3.Body
import MonoBucket.S3.Checksum
import MonoBucket.Storage.Quota

namespace MonoBucket.S3

/-! ### Reading the payload -/

/-- A request's headers as the HTTP library hands them out: each name once, in lower case. -/
structure RequestHeaders where
  entries : HttpHeaders
  lowered : ∀ header ∈ entries, toLowerText header.1 = header.1 := by decide
  distinct : (entries.map Prod.fst).Nodup := by decide

/-- What the payload of an upload came to. -/
structure Received where
  checksum : Checksum := {}
  /-- All the bytes the blob writer was handed. -/
  written : Bytes
  /-- The name and the text of what `verifyChecksum` was called with. -/
  compared : List Header := []
  deriving DecidableEq

section Reading

variable (crypto : Crypto) (evp : Evp)

def checkContentMd5 (header actualHex : Bytes) : Except S3Exception Unit :=
  match base64Decode header with
  | none => throwCode .invalidDigest
  | some expected =>
    if expected.length ≠ 16 then throwCode .invalidDigest
    else if secureEquals actualHex (toHex expected) then .ok ()
    else throwCode .badDigest

/-- The sink of an upload: every chunk is written unless it takes the total past the limit. -/
def sinkChunks (limit others : UInt64) (tooLarge : Bytes) : UInt64 → List Bytes →
    Except S3Exception Unit
  | _, [] => .ok ()
  | written, chunk :: rest =>
    let written := written + chunk.length.toUInt64
    if limit < others + written then .error ⟨.entityTooLarge, tooLarge⟩
    else sinkChunks limit others tooLarge written rest

/-- `body.streamTo` into a sink that may throw. -/
def streamInto (body : S3Body) (sink : List Bytes → Except S3Exception Unit) :
    Except S3Exception (List Bytes × Trailers) := do
  let delivery := body.streamTo crypto
  sink delivery.delivered
  let trailers ← delivery.outcome
  pure (delivery.delivered, trailers)

/-- The value to be compared with, wherever the client put it. -/
def expectedValue (wanted : ChecksumRequest) (trailers : Trailers) : Except S3Exception Bytes :=
  if wanted.inTrailer then
    match trailers.find? wanted.trailerName with
    | none =>
      refuseChecksum (ascii "x-amz-trailer announced " ++ wanted.trailerName ++
        ascii ", but the body ended without it.")
    | some found => .ok found
  else .ok wanted.expected

/-- `verifiedChecksum` behind the stream. -/
def compareChecksum (wanted : ChecksumRequest) (chunks : List Bytes) (trailers : Trailers) :
    Except S3Exception Received :=
  match wanted.algorithm with
  | none => .ok { written := chunks.flatten }
  | some algorithm => do
    let value := (chunks.foldl ChecksumComputer.update { algorithm := algorithm }).finish evp
    let computed : Checksum := { algorithm := some algorithm, value := value }
    let expected ← expectedValue wanted trailers
    if expected = [] then pure { checksum := computed, written := chunks.flatten }
    else do
      verifyChecksum algorithm expected value.items
      pure
        { checksum := computed
          written := chunks.flatten
          compared := [(checksumHeaderName algorithm, expected)] }

def verifiedChecksum (http : RequestHeaders) (wanted : ChecksumRequest) (body : S3Body)
    (sink : List Bytes → Except S3Exception Unit) : Except S3Exception Received := do
  let contentMd5 := http.entries.getHeader (ascii "content-md5")
  let (chunks, trailers) ← streamInto crypto body sink
  if contentMd5 ≠ [] then checkContentMd5 contentMd5 (evp.md5Hex chunks.flatten)
  compareChecksum evp wanted chunks trailers

end Reading

/-! ### The handlers -/

/-- What the storage engine answers a handler with. -/
structure UploadStorage where
  /-- The checks of the bucket, the key and the upload. -/
  found : Except HandlerError Unit
  maxUploadBytes : UInt64
  uploadedPartBytes : UInt64 := 0
  reserveSpace : UInt64 → Except HandlerError Unit
  /-- `finishWrite` or `finishPart`, which keep the checksum in the record. -/
  finish : Received → Except HandlerError Unit

/-- What was handed to be committed, if anything, and the checksum header of the answer. -/
structure UploadOutcome where
  committed : Option Received
  answer : Except HandlerError (List Header)

def applyChecksumHeader (checksum : Checksum) : List Header :=
  match checksum.algorithm with
  | none => []
  | some algorithm =>
    if checksum.value.items = [] then []
    else [(checksumHeaderName algorithm, checksumText checksum)]

section Handlers

variable (crypto : Crypto) (evp : Evp) (storage : UploadStorage) (http : RequestHeaders)
  (body : S3Body)

/-- A plain body's length is that of what arrived. -/
def S3Body.declared : UInt64 := if body.chunked then body.decodedLength else body.raw.length.toUInt64

/-- What either handler does with what it received. -/
def commitUpload (received : Except HandlerError Received) : UploadOutcome :=
  match received with
  | .error error => ⟨none, .error error⟩
  | .ok received =>
    ⟨some received, (storage.finish received).map fun _ => applyChecksumHeader received.checksum⟩

def sizePhrase (size limit : UInt64) : Bytes :=
  decimal size.toNat ++ ascii " bytes, over this instance\x27s maximum upload size of " ++
    decimal limit.toNat ++ ascii " bytes."

/-- A copy is a different operation. -/
def refuseCopy : Except HandlerError Unit :=
  if http.entries.getHeader (ascii "x-amz-copy-source") ≠ [] then
    .error (.s3 ⟨.notImplemented,
      ascii "CopyObject is not implemented; upload the object directly."⟩)
  else .ok ()

/-- Refused on what the client declared. -/
def requireDeclared (size limit : UInt64) (phrase : Bytes) : Except HandlerError Unit :=
  if limit < size then .error (.s3 ⟨.entityTooLarge, phrase ++ sizePhrase size limit⟩) else .ok ()

/-- `handlePutObject` up to the commit. -/
def receiveObject : Except HandlerError Received := do
  storage.found
  refuseCopy http
  let _ ← (collectUserMetadata http.entries).mapError .s3
  let _ ← (collectContentHeaders http.entries).mapError .s3
  let wanted ← (resolveChecksumRequest (checksumHeadersOf http.entries)).mapError .s3
  requireDeclared body.declared storage.maxUploadBytes (ascii "The object is ")
  storage.reserveSpace body.declared
  (verifiedChecksum crypto evp http wanted body
    (sinkChunks storage.maxUploadBytes 0
      (ascii "The object exceeds this instance\x27s maximum upload size of " ++
        decimal storage.maxUploadBytes.toNat ++ ascii " bytes.") 0)).mapError .s3

def handlePutObject : UploadOutcome :=
  commitUpload storage (receiveObject crypto evp storage http body)

/-- A part is hashed under what its upload declared, and may not name anything else. -/
def underUpload (declared : Option ChecksumAlgorithm) (wanted : ChecksumRequest) :
    Except S3Exception ChecksumRequest :=
  match declared with
  | none => .ok wanted
  | some declared =>
    match wanted.algorithm with
    | none => .ok { wanted with algorithm := some declared }
    | some algorithm =>
      if algorithm ≠ declared then
        refuseChecksum (ascii "This upload was begun under " ++ checksumName declared ++
          ascii ", so a part cannot carry a " ++ checksumName algorithm ++ ascii " checksum.")
      else .ok wanted

/-- `handleUploadPart` up to the commit. -/
def receivePart (declared : Option ChecksumAlgorithm) : Except HandlerError Received := do
  storage.found
  let wanted ← (resolveChecksumRequest (checksumHeadersOf http.entries)).mapError .s3
  let wanted ← (underUpload declared wanted).mapError .s3
  requireDeclared (storage.uploadedPartBytes + body.declared) storage.maxUploadBytes
    (ascii "This part would bring the upload to ")
  storage.reserveSpace body.declared
  (verifiedChecksum crypto evp http wanted body
    (sinkChunks storage.maxUploadBytes storage.uploadedPartBytes
      (ascii "This part takes the upload over this instance\x27s maximum upload size of " ++
        decimal storage.maxUploadBytes.toNat ++ ascii " bytes.") 0)).mapError .s3

def handleUploadPart (declared : Option ChecksumAlgorithm) : UploadOutcome :=
  commitUpload storage (receivePart crypto evp storage http body declared)

end Handlers

/-! ### What the client said -/

/-- All the trailing headers of a body, repeated ones included. -/
def trailingLines : Nat → Bytes → List Header
  | fuel + 1, byte :: bytes =>
    match takeLine kMaxChunkHeaderBytes (byte :: bytes) with
    | .error _ => []
    | .ok (line, rest) =>
      if line = [] then []
      else
        match splitAtFirst (letter ':') line with
        | none => []
        | some (nameField, valueField) =>
          let name := toLowerText (trim nameField)
          if name = ascii "x-amz-trailer-signature" then trailingLines fuel rest
          else (name, trim valueField) :: trailingLines fuel rest
  | _, _ => []

def S3Body.trailing (crypto : Crypto) (body : S3Body) : List Header :=
  if body.chunked then
    match (decodeChunks crypto body.chunkedOptions kMaxChunks 0 body.auth.signature body.raw).outcome with
    | .ok read => trailingLines read.rest.length read.rest
    | .error _ => []
  else []

/-- The name `x-amz-trailer` announces. -/
def RequestHeaders.announced (http : RequestHeaders) : Option Bytes :=
  (http.entries.find? fun header => header.1 = ascii "x-amz-trailer").map fun header =>
    toLowerText header.2

/-- Every checksum value a client supplied: in a value header, or under the name announced
for the trailing header. -/
def supplied (crypto : Crypto) (http : RequestHeaders) (body : S3Body) : List Header :=
  (http.entries.filter fun header => namesChecksum header.1) ++
    (body.trailing crypto).filter fun header =>
      http.announced = some header.1 ∧ namesChecksum header.1

/-- What was stored and answered is the checksum of what was written, and every value the
client supplied was compared with it and is it. -/
structure Verified (crypto : Crypto) (evp : Evp) (http : RequestHeaders) (body : S3Body)
    (received : Received) (answer : Except HandlerError (List Header)) : Prop where
  stored : ∀ algorithm ∈ received.checksum.algorithm,
    received.checksum.value = checksumOf evp algorithm received.written
  answered : ∀ headers, answer = .ok headers → headers = applyChecksumHeader received.checksum
  equal : ∀ header ∈ received.compared, ∃ algorithm, header.1 = checksumHeaderName algorithm ∧
    decodeChecksum algorithm header.2 = some ((checksumOf evp algorithm received.written).items, 0)
  compared : ∀ header ∈ supplied crypto http body, header ∈ received.compared

/-- No value is empty, and all of them are one value under one name. -/
def AgreeNonempty (headers : List Header) : Prop :=
  ∀ header ∈ headers, header.2 ≠ [] ∧ ∀ other ∈ headers, other = header

section Trailers

variable {crypto : Crypto} {body : S3Body} {delivered : List Bytes} {trailers : Trailers}

theorem trailers_readTrailers {fuel : Nat} {text : Bytes} {block final : TrailerBlock}
    (h : readTrailers fuel text block = .ok final) :
    final.trailers = block.trailers.emplaceAll (trailingLines fuel text) := by
  induction fuel generalizing text block with
  | zero =>
      cases text with
      | nil =>
          obtain rfl := Except.ok.inj h
          rfl
      | cons byte bytes =>
          obtain rfl := Except.ok.inj h
          rfl
  | succ fuel ih =>
      cases text with
      | nil =>
          obtain rfl := Except.ok.inj h
          rfl
      | cons byte bytes =>
          rw [readTrailers] at h
          obtain ⟨⟨line, rest⟩, hline, h⟩ := Except.bind_eq_ok_iff.mp h
          rw [trailingLines, hline]
          simp only at h ⊢
          split_ifs at h ⊢ with hempty hroom
          · obtain rfl := Except.ok.inj h
            rfl
          · cases h
          · cases hsplit : splitAtFirst (letter ':') line with
            | none =>
                rw [hsplit] at h
                cases h
            | some fields =>
                obtain ⟨nameField, valueField⟩ := fields
                simp only [hsplit] at h ⊢
                split_ifs at h ⊢
                · rw [ih h]
                · rw [ih h]
                  rfl

theorem find?_trailers (h : body.streamTo crypto = ⟨delivered, .ok trailers⟩) (name : Bytes) :
    trailers.find? name =
      ((body.trailing crypto).find? fun header => header.1 = name).map Prod.snd := by
  rw [S3Body.streamTo] at h
  rw [S3Body.trailing]
  split_ifs at h ⊢
  · have houtcome := congrArg Delivery.outcome h
    simp only [decode] at houtcome
    obtain ⟨read, hread, hfinish⟩ := Except.bind_eq_ok_iff.mp houtcome
    rw [finishDecode] at hfinish
    obtain ⟨block, hblock, hfinish⟩ := Except.bind_eq_ok_iff.mp hfinish
    obtain ⟨-, -, hfinish⟩ := Except.bind_eq_ok_iff.mp hfinish
    have hsame : block.trailers = trailers := by
      split_ifs at hfinish
      · cases hfinish
      · exact Except.ok.inj hfinish
    have hread : (decodeChunks crypto body.chunkedOptions kMaxChunks 0 body.auth.signature
        body.raw).outcome = .ok read := hread
    rw [hread, ← hsame, trailers_readTrailers hblock, OrderedMap.find?_emplaceAll]
    rfl
  · cases congrArg Delivery.outcome h
  · obtain rfl := Except.ok.inj (congrArg Delivery.outcome h)
    rfl

end Trailers

/-! ### What is resolved -/

section Resolved

theorem algorithmFromHeaderName_eq_ok {name : Bytes} {found : Option ChecksumAlgorithm}
    (h : algorithmFromHeaderName name = .ok found) :
    (namesChecksum name = false ∧ found = none) ∨ ∃ algorithm, namesChecksum name ∧
      checksumAlgorithmFromString (name.drop kChecksumPrefix.length) = some algorithm ∧
        found = some algorithm := by
  rw [algorithmFromHeaderName] at h
  split_ifs at h with hnames
  · split at h
    · rename_i algorithm halgorithm
      exact Or.inr ⟨algorithm, hnames, halgorithm, (Except.ok.inj h).symm⟩
    · cases h
  · exact Or.inl ⟨by simpa using hnames, (Except.ok.inj h).symm⟩

theorem toLowerText_map_toUpper (text : Bytes) : toLowerText (text.map toUpper) = toLowerText text := by
  rw [toLowerText, List.map_map]
  exact List.map_congr_left fun byte _ => toLower_toUpper byte

theorem checksumAlgorithmFromString_name {name : Bytes} {algorithm : ChecksumAlgorithm}
    (h : checksumAlgorithmFromString name = some algorithm) :
    name.map toUpper = checksumName algorithm := by
  rw [checksumAlgorithmFromString] at h
  split_ifs at h with hcrc32 hcrc32c hcrc64 hsha1 hsha256
  · obtain rfl := Option.some.inj h
    exact hcrc32
  · obtain rfl := Option.some.inj h
    exact hcrc32c
  · obtain rfl := Option.some.inj h
    exact hcrc64
  · obtain rfl := Option.some.inj h
    exact hsha1
  · obtain rfl := Option.some.inj h
    exact hsha256

/-- In lower case a value header has the name of its algorithm. -/
theorem eq_checksumHeaderName {name : Bytes} {algorithm : ChecksumAlgorithm}
    (hlowered : toLowerText name = name) (hnames : namesChecksum name)
    (h : checksumAlgorithmFromString (name.drop kChecksumPrefix.length) = some algorithm) :
    name = checksumHeaderName algorithm := by
  have hprefix : kChecksumPrefix <+: name := by
    rw [namesChecksum] at hnames
    simp only [decide_eq_true_eq] at hnames
    exact List.isPrefixOf_iff_prefix.mp hnames.1
  obtain ⟨suffix, rfl⟩ := hprefix
  rw [List.drop_left] at h
  have hsuffix : toLowerText suffix = suffix := by
    rw [toLowerText, List.map_append] at hlowered
    exact (List.append_inj hlowered (by simp)).2
  rw [checksumHeaderName, ← checksumAlgorithmFromString_name h, toLowerText_map_toUpper, hsuffix]

/-- After a value was chosen no other is anything but empty. -/
theorem chooseValue_of_some {headers : List Header} {wanted final : ChecksumRequest}
    (hwanted : wanted.algorithm.isSome) (h : chooseValue headers wanted = .ok final) :
    final = wanted ∧ ∀ header ∈ headers, namesChecksum header.1 → header.2 = [] := by
  induction headers with
  | nil => exact ⟨(Except.ok.inj h).symm, fun _ hheader => nomatch hheader⟩
  | cons header headers ih =>
      obtain ⟨name, value⟩ := header
      rw [chooseValue] at h
      obtain ⟨found, hfound, h⟩ := Except.bind_eq_ok_iff.mp h
      rcases algorithmFromHeaderName_eq_ok hfound with ⟨hnot, rfl⟩ | ⟨algorithm, -, -, rfl⟩
      · obtain ⟨hfinal, hrest⟩ := ih h
        refine ⟨hfinal, fun other hother hnames => ?_⟩
        rcases List.mem_cons.mp hother with rfl | hother
        · rw [hnot] at hnames
          cases hnames
        · exact hrest other hother hnames
      · simp only at h
        split_ifs at h with hempty
        · obtain ⟨hfinal, hrest⟩ := ih h
          refine ⟨hfinal, fun other hother hnames => ?_⟩
          rcases List.mem_cons.mp hother with rfl | hother
          · exact hempty
          · exact hrest other hother hnames
        · obtain ⟨chosen, hchosen⟩ := Option.isSome_iff_exists.mp hwanted
          rw [hchosen] at h
          cases h

/-- The value headers choose the only one that is not empty, if there is one. -/
theorem chooseValue_eq_ok {headers : List Header} {final : ChecksumRequest}
    (h : chooseValue headers {} = .ok final) :
    (final = {} ∧ ∀ header ∈ headers, namesChecksum header.1 → header.2 = []) ∨
      ∃ header ∈ headers, ∃ algorithm, namesChecksum header.1 ∧ header.2 ≠ [] ∧
        checksumAlgorithmFromString (header.1.drop kChecksumPrefix.length) = some algorithm ∧
          final = { algorithm := some algorithm, expected := header.2 } := by
  induction headers with
  | nil => exact Or.inl ⟨(Except.ok.inj h).symm, fun _ hheader => nomatch hheader⟩
  | cons header headers ih =>
      obtain ⟨name, value⟩ := header
      rw [chooseValue] at h
      obtain ⟨found, hfound, h⟩ := Except.bind_eq_ok_iff.mp h
      rcases algorithmFromHeaderName_eq_ok hfound with ⟨hnot, rfl⟩ | ⟨algorithm, hnames, halgorithm, rfl⟩
      · rcases ih h with ⟨hfinal, hrest⟩ | ⟨header, hheader, hchosen⟩
        · refine Or.inl ⟨hfinal, fun other hother hnames => ?_⟩
          rcases List.mem_cons.mp hother with rfl | hother
          · rw [hnot] at hnames
            cases hnames
          · exact hrest other hother hnames
        · exact Or.inr ⟨header, List.mem_cons_of_mem _ hheader, hchosen⟩
      · simp only at h
        split_ifs at h with hempty
        · rcases ih h with ⟨hfinal, hrest⟩ | ⟨header, hheader, hchosen⟩
          · refine Or.inl ⟨hfinal, fun other hother hnames => ?_⟩
            rcases List.mem_cons.mp hother with rfl | hother
            · exact hempty
            · exact hrest other hother hnames
          · exact Or.inr ⟨header, List.mem_cons_of_mem _ hheader, hchosen⟩
        · obtain ⟨rfl, -⟩ := chooseValue_of_some rfl h
          exact Or.inr ⟨_, List.mem_cons_self, algorithm, hnames, hempty, halgorithm, rfl⟩

variable {http : RequestHeaders} {wanted : ChecksumRequest}

theorem checksumHeadersOf_eq (http : RequestHeaders) : checksumHeadersOf http.entries =
    OrderedMap.empty.emplaceAll (http.entries.filter fun header => bearsChecksum header.1) := by
  have hlowered : (http.entries.map fun header => (toLowerText header.1, header.2)) = http.entries := by
    conv_rhs => rw [← List.map_id http.entries]
    refine List.map_congr_left fun header hheader => ?_
    rw [http.lowered header hheader]
    rfl
  rw [checksumHeadersOf, hlowered]

theorem find?_checksumHeadersOf (http : RequestHeaders) (name : Bytes) (hbears : bearsChecksum name) :
    (checksumHeadersOf http.entries).find? name =
      (http.entries.find? fun header => header.1 = name).map Prod.snd := by
  rw [checksumHeadersOf_eq, OrderedMap.find?_emplaceAll, OrderedMap.find?_empty, Option.none_or,
    List.find?_filter]
  congr 2
  funext header
  by_cases hname : header.1 = name
  · simp [hname, hbears]
  · simp [hname]

theorem mem_entries_of_mem_checksumHeadersOf {header : Header}
    (h : header ∈ (checksumHeadersOf http.entries).entries) : header ∈ http.entries := by
  obtain ⟨name, value⟩ := header
  have hfind := (OrderedMap.find?_eq_some_iff _).mpr h
  rw [checksumHeadersOf_eq, OrderedMap.find?_emplaceAll, OrderedMap.find?_empty, Option.none_or] at hfind
  obtain ⟨⟨found, text⟩, hfound, rfl⟩ := Option.map_eq_some_iff.mp hfind
  have hname : found = name := by simpa using List.find?_some hfound
  rw [← hname]
  exact (List.mem_filter.mp (List.mem_of_find?_eq_some hfound)).1

theorem bearsChecksum_of_namesChecksum {name : Bytes} (h : namesChecksum name) : bearsChecksum name := by
  rw [namesChecksum] at h
  simp only [decide_eq_true_eq] at h
  rw [bearsChecksum]
  simp [h.1]

theorem mem_checksumHeadersOf {header : Header} (h : header ∈ http.entries)
    (hnames : namesChecksum header.1) : header ∈ (checksumHeadersOf http.entries).entries := by
  refine (OrderedMap.find?_eq_some_iff _).mp ?_
  rw [find?_checksumHeadersOf http _ (bearsChecksum_of_namesChecksum hnames)]
  obtain ⟨front, back, hsplit⟩ := List.append_of_mem h
  have hdistinct := http.distinct
  rw [hsplit, List.map_append, List.map_cons, List.nodup_append] at hdistinct
  have hfront : front.find? (fun other => other.1 = header.1) = none := by
    refine List.find?_eq_none.mpr fun other hother => ?_
    simpa using hdistinct.2.2 _ (List.mem_map_of_mem hother) _ List.mem_cons_self
  rw [hsplit, List.find?_append, hfront, Option.none_or, List.find?_cons]
  simp

/-- What a request's headers resolve to: the value of one header, the name of the trailing
header to come, or at most an algorithm. -/
inductive Resolution (http : RequestHeaders) : ChecksumRequest → Prop
  | value {header : Header} {algorithm : ChecksumAlgorithm} (hmem : header ∈ http.entries)
      (hnames : namesChecksum header.1) (hvalue : header.2 ≠ [])
      (hname : header.1 = checksumHeaderName algorithm) :
      Resolution http { algorithm := some algorithm, expected := header.2 }
  | trailer {name : Bytes} {algorithm : ChecksumAlgorithm}
      (hempty : ∀ header ∈ http.entries, namesChecksum header.1 → header.2 = [])
      (hannounced : http.announced = some name) (hnames : namesChecksum name)
      (hname : name = checksumHeaderName algorithm) :
      Resolution http { algorithm := some algorithm, inTrailer := true, trailerName := name }
  | neither (algorithm : Option ChecksumAlgorithm)
      (hempty : ∀ header ∈ http.entries, namesChecksum header.1 → header.2 = [])
      (hannounced : http.announced = none) : Resolution http { algorithm := algorithm }

theorem namedAlgorithm_eq_ok {headers : ChecksumHeaders} {names : List Bytes}
    (h : namedAlgorithm headers names = .ok wanted) : ∃ algorithm, wanted = { algorithm := algorithm } := by
  induction names with
  | nil => exact ⟨none, (Except.ok.inj h).symm⟩
  | cons name names ih =>
      rw [namedAlgorithm] at h
      split at h
      · exact ih h
      · exact ih h
      · split at h
        · rename_i algorithm _
          exact ⟨some algorithm, (Except.ok.inj h).symm⟩
        · cases h

theorem resolution_of_resolve
    (h : resolveChecksumRequest (checksumHeadersOf http.entries) = .ok wanted) :
    Resolution http wanted := by
  rw [resolveChecksumRequest] at h
  obtain ⟨chosen, hchosen, h⟩ := Except.bind_eq_ok_iff.mp h
  rcases chooseValue_eq_ok hchosen with ⟨rfl, hempty⟩ | ⟨header, hheader, algorithm, hnames, hvalue, hname, rfl⟩
  · have hempty : ∀ header ∈ http.entries, namesChecksum header.1 → header.2 = [] :=
      fun header hheader hnames => hempty header (mem_checksumHeadersOf hheader hnames) hnames
    rw [find?_checksumHeadersOf http _ (by decide)] at h
    simp only [Option.isSome_none, Bool.false_eq_true, if_false] at h
    cases hfind : http.entries.find? fun header => header.1 = ascii "x-amz-trailer" with
    | none =>
        rw [hfind] at h
        obtain ⟨algorithm, rfl⟩ := namedAlgorithm_eq_ok h
        refine .neither algorithm hempty ?_
        rw [RequestHeaders.announced, hfind]
        rfl
    | some announced =>
        rw [hfind] at h
        simp only [Option.map_some, announcedTrailer] at h
        split_ifs at h
        · cases h
        · obtain ⟨found, hfound, h⟩ := Except.bind_eq_ok_iff.mp h
          rcases algorithmFromHeaderName_eq_ok hfound with ⟨-, rfl⟩ | ⟨algorithm, hnames, hname, rfl⟩
          · cases h
          · obtain rfl := Except.ok.inj h
            have hlowered : toLowerText (toLowerText announced.2) = toLowerText announced.2 := by
              rw [toLowerText, toLowerText, List.map_map]
              exact List.map_congr_left fun byte _ => toLower_toLower byte
            refine .trailer hempty ?_ hnames (eq_checksumHeaderName hlowered hnames hname)
            rw [RequestHeaders.announced, hfind]
            rfl
  · obtain rfl := Except.ok.inj h
    have hmem := mem_entries_of_mem_checksumHeadersOf hheader
    exact .value hmem hnames hvalue (eq_checksumHeaderName (http.lowered _ hmem) hnames hname)

/-- What a part's upload declared leaves the headers' value or trailing header as it is. -/
theorem Resolution.underUpload {declared : Option ChecksumAlgorithm} {final : ChecksumRequest}
    (h : Resolution http wanted) (hunder : underUpload declared wanted = .ok final) :
    Resolution http final := by
  simp only [S3.underUpload] at hunder
  split at hunder
  · obtain rfl := Except.ok.inj hunder
    exact h
  · split at hunder
    · rename_i hnone
      obtain rfl := Except.ok.inj hunder
      cases h with
      | value hmem hnames hvalue hname => cases hnone
      | trailer hempty hannounced hnames hname => cases hnone
      | neither algorithm hempty hannounced => exact .neither _ hempty hannounced
    · split_ifs at hunder
      · cases hunder
      · obtain rfl := Except.ok.inj hunder
        exact h

end Resolved

/-! ### What is verified -/

section Verified

variable {crypto : Crypto} {evp : Evp} {http : RequestHeaders} {wanted : ChecksumRequest}
  {body : S3Body} {sink : List Bytes → Except S3Exception Unit} {received : Received}

theorem decodeChecksum_of_verifyChecksum {algorithm : ChecksumAlgorithm} {expected actualRaw : Bytes}
    (h : verifyChecksum algorithm expected actualRaw = .ok ()) :
    decodeChecksum algorithm expected = some (actualRaw, 0) := by
  rw [verifyChecksum] at h
  split at h
  · rename_i value hdecoded
    split_ifs at h with hequal
    rw [hdecoded, (secureEquals_iff _ _).mp hequal]
  · cases h

theorem finish_foldl (evp : Evp) (algorithm : ChecksumAlgorithm) (chunks : List Bytes) :
    (chunks.foldl ChecksumComputer.update { algorithm := algorithm }).finish evp =
      checksumOf evp algorithm chunks.flatten := by
  rw [ChecksumComputer.foldl_update, checksumOf]

/-- What an upload that is let through stores and was compared with. -/
inductive Reading (evp : Evp) (wanted : ChecksumRequest) (trailers : Trailers) :
    Received → Prop
  | unwanted {written : Bytes} (hnone : wanted.algorithm = none) :
      Reading evp wanted trailers { written := written }
  | uncompared {written : Bytes} {algorithm : ChecksumAlgorithm}
      (hwanted : wanted.algorithm = some algorithm) (hexpected : expectedValue wanted trailers = .ok []) :
      Reading evp wanted trailers
        { checksum := { algorithm := some algorithm, value := checksumOf evp algorithm written }
          written := written }
  | compared {written expected : Bytes} {algorithm : ChecksumAlgorithm}
      (hwanted : wanted.algorithm = some algorithm)
      (hexpected : expectedValue wanted trailers = .ok expected) (hvalue : expected ≠ [])
      (hequal : decodeChecksum algorithm expected =
        some ((checksumOf evp algorithm written).items, 0)) :
      Reading evp wanted trailers
        { checksum := { algorithm := some algorithm, value := checksumOf evp algorithm written }
          written := written
          compared := [(checksumHeaderName algorithm, expected)] }

theorem reading_of_compareChecksum {chunks : List Bytes} {trailers : Trailers}
    (h : compareChecksum evp wanted chunks trailers = .ok received) :
    Reading evp wanted trailers received := by
  simp only [compareChecksum, finish_foldl] at h
  split at h
  · rename_i hnone
    obtain rfl := Except.ok.inj h
    exact .unwanted hnone
  · rename_i algorithm hwanted
    obtain ⟨expected, hexpected, h⟩ := Except.bind_eq_ok_iff.mp h
    split_ifs at h with hempty
    · obtain rfl := Except.ok.inj h
      rw [hempty] at hexpected
      exact .uncompared hwanted hexpected
    · obtain ⟨⟨⟩, hverify, h⟩ := Except.bind_eq_ok_iff.mp h
      obtain rfl := Except.ok.inj h
      exact .compared hwanted hexpected hempty (decodeChecksum_of_verifyChecksum hverify)

theorem reading_of_verifiedChecksum
    (h : verifiedChecksum crypto evp http wanted body sink = .ok received) :
    ∃ chunks trailers, body.streamTo crypto = ⟨chunks, .ok trailers⟩ ∧
      Reading evp wanted trailers received := by
  rw [verifiedChecksum] at h
  obtain ⟨⟨chunks, trailers⟩, hstream, h⟩ := Except.bind_eq_ok_iff.mp h
  have hdelivery : body.streamTo crypto = ⟨chunks, .ok trailers⟩ := by
    rw [streamInto] at hstream
    obtain ⟨-, -, hstream⟩ := Except.bind_eq_ok_iff.mp hstream
    obtain ⟨outcome, houtcome, hstream⟩ := Except.bind_eq_ok_iff.mp hstream
    obtain ⟨rfl, rfl⟩ := Prod.mk.inj (Except.ok.inj hstream)
    rw [← houtcome]
  refine ⟨chunks, trailers, hdelivery, ?_⟩
  have hcompare : compareChecksum evp wanted chunks trailers = .ok received := by
    simp only at h
    split_ifs at h
    · obtain ⟨-, -, h⟩ := Except.bind_eq_ok_iff.mp h
      exact h
    · exact h
  exact reading_of_compareChecksum hcompare

/-- Where at most one supplied value was compared, and none only if one is empty, all were
compared just when they agree. -/
theorem compared_iff_agree {headers compared : List Header}
    (h : (∃ header ∈ headers, header.2 ≠ [] ∧ compared = [header]) ∨
      compared = [] ∧ (headers ≠ [] → ∃ header ∈ headers, header.2 = [])) :
    (∀ header ∈ headers, header ∈ compared) ↔ AgreeNonempty headers := by
  rcases h with ⟨chosen, hchosen, hvalue, rfl⟩ | ⟨rfl, hempty⟩
  · constructor
    · intro hall header hheader
      rw [List.mem_singleton.mp (hall header hheader)]
      exact ⟨hvalue, fun other hother => List.mem_singleton.mp (hall other hother)⟩
    · exact fun hagree header hheader => List.mem_singleton.mpr ((hagree chosen hchosen).2 header hheader)
  · constructor
    · exact fun hall header hheader => nomatch hall header hheader
    · intro hagree header hheader
      obtain ⟨other, hother, hnone⟩ := hempty (List.ne_nil_of_mem hheader)
      exact absurd hnone (hagree other hother).1

theorem supplied_eq_of_announced_none (h : http.announced = none) :
    supplied crypto http body = http.entries.filter fun header => namesChecksum header.1 := by
  rw [supplied, h]
  simp

theorem mem_supplied_of_header {header : Header} (hmem : header ∈ http.entries)
    (hnames : namesChecksum header.1) : header ∈ supplied crypto http body :=
  List.mem_append_left _ (List.mem_filter.mpr ⟨hmem, hnames⟩)

theorem one_compared {trailers : Trailers} {chunks : List Bytes} (hresolved : Resolution http wanted)
    (hstream : body.streamTo crypto = ⟨chunks, .ok trailers⟩)
    (hreading : Reading evp wanted trailers received) :
    (∃ header ∈ supplied crypto http body, header.2 ≠ [] ∧ received.compared = [header]) ∨
      received.compared = [] ∧
        (supplied crypto http body ≠ [] → ∃ header ∈ supplied crypto http body, header.2 = []) := by
  cases hresolved with
  | value hmem hnames hvalue hname =>
      have hsupplied := @mem_supplied_of_header crypto _ body _ hmem hnames
      cases hreading with
      | unwanted hnone => cases hnone
      | uncompared hwanted hexpected => exact absurd (Except.ok.inj hexpected) hvalue
      | compared hwanted hexpected hne hequal =>
          obtain rfl := Except.ok.inj hexpected
          obtain rfl := Option.some.inj hwanted
          rw [← hname]
          exact Or.inl ⟨_, hsupplied, hvalue, rfl⟩
  | @trailer name algorithm hempty hannounced hnames hname =>
      have hfound : ∀ found, expectedValue
          { algorithm := some algorithm, inTrailer := true, trailerName := name } trailers = .ok found →
            (name, found) ∈ supplied crypto http body := by
        intro found hexpected
        rw [expectedValue, if_pos rfl, find?_trailers hstream] at hexpected
        cases hfind : (body.trailing crypto).find? fun header => header.1 = name with
        | none =>
            rw [hfind] at hexpected
            cases hexpected
        | some header =>
            rw [hfind] at hexpected
            obtain rfl := Except.ok.inj hexpected
            have hsame : header.1 = name := by simpa using List.find?_some hfind
            refine List.mem_append_right _ (List.mem_filter.mpr ?_)
            rw [← hsame] at hannounced hnames ⊢
            exact ⟨List.mem_of_find?_eq_some hfind, decide_eq_true ⟨hannounced, hnames⟩⟩
      cases hreading with
      | unwanted hnone => cases hnone
      | uncompared hwanted hexpected =>
          exact Or.inr ⟨rfl, fun _ => ⟨_, hfound _ hexpected, rfl⟩⟩
      | compared hwanted hexpected hne hequal =>
          obtain rfl := Option.some.inj hwanted
          rw [← hname]
          exact Or.inl ⟨_, hfound _ hexpected, hne, rfl⟩
  | neither algorithm hempty hannounced =>
      have hnone : ∀ header ∈ supplied crypto http body, header.2 = [] := by
        intro header hheader
        rw [supplied_eq_of_announced_none hannounced] at hheader
        obtain ⟨hmem, hnames⟩ := List.mem_filter.mp hheader
        exact hempty header hmem hnames
      have huncompared : received.compared = [] := by
        cases hreading with
        | unwanted hnone => rfl
        | uncompared hwanted hexpected => rfl
        | compared hwanted hexpected hne hequal => exact absurd (Except.ok.inj hexpected).symm hne
      refine Or.inr ⟨huncompared, fun hne => ?_⟩
      obtain ⟨header, hheader⟩ := List.exists_mem_of_ne_nil _ hne
      exact ⟨header, hheader, hnone header hheader⟩

theorem verifiedChecksum_of_receiveObject {storage : UploadStorage}
    (h : receiveObject crypto evp storage http body = .ok received) :
    ∃ wanted sink, Resolution http wanted ∧
      verifiedChecksum crypto evp http wanted body sink = .ok received := by
  rw [receiveObject] at h
  obtain ⟨-, -, h⟩ := Except.bind_eq_ok_iff.mp h
  obtain ⟨-, -, h⟩ := Except.bind_eq_ok_iff.mp h
  obtain ⟨-, -, h⟩ := Except.bind_eq_ok_iff.mp h
  obtain ⟨-, -, h⟩ := Except.bind_eq_ok_iff.mp h
  obtain ⟨wanted, hwanted, h⟩ := Except.bind_eq_ok_iff.mp h
  obtain ⟨-, -, h⟩ := Except.bind_eq_ok_iff.mp h
  obtain ⟨-, -, h⟩ := Except.bind_eq_ok_iff.mp h
  exact ⟨wanted, _, resolution_of_resolve (Except.eq_ok_of_mapError hwanted), Except.eq_ok_of_mapError h⟩

theorem verifiedChecksum_of_receivePart {storage : UploadStorage} {declared : Option ChecksumAlgorithm}
    (h : receivePart crypto evp storage http body declared = .ok received) :
    ∃ wanted sink, Resolution http wanted ∧
      verifiedChecksum crypto evp http wanted body sink = .ok received := by
  rw [receivePart] at h
  obtain ⟨-, -, h⟩ := Except.bind_eq_ok_iff.mp h
  obtain ⟨resolved, hresolved, h⟩ := Except.bind_eq_ok_iff.mp h
  obtain ⟨wanted, hwanted, h⟩ := Except.bind_eq_ok_iff.mp h
  obtain ⟨-, -, h⟩ := Except.bind_eq_ok_iff.mp h
  obtain ⟨-, -, h⟩ := Except.bind_eq_ok_iff.mp h
  have hresolution := resolution_of_resolve (Except.eq_ok_of_mapError hresolved)
  exact ⟨wanted, _, hresolution.underUpload (Except.eq_ok_of_mapError hwanted), Except.eq_ok_of_mapError h⟩

theorem receive_of_committed {storage : UploadStorage} {result : Except HandlerError Received}
    (h : (commitUpload storage result).committed = some received) :
    result = .ok received ∧ ∀ headers, (commitUpload storage result).answer = .ok headers →
      headers = applyChecksumHeader received.checksum := by
  cases result with
  | error error => cases h
  | ok other =>
      obtain rfl := Option.some.inj h
      refine ⟨rfl, fun headers hheaders => ?_⟩
      rw [commitUpload] at hheaders
      cases hfinish : storage.finish other with
      | error error =>
          rw [hfinish] at hheaders
          cases hheaders
      | ok finished =>
          rw [hfinish] at hheaders
          exact (Except.ok.inj hheaders).symm

/-- What is handed to be committed, by a put of an object or by the upload of a part, was
verified just when no checksum value the client supplied is empty and all that it supplied
are one value under one name. -/
theorem verified_iff {storage : UploadStorage} {outcome : UploadOutcome}
    (hhandler : outcome = handlePutObject crypto evp storage http body ∨
      ∃ declared, outcome = handleUploadPart crypto evp storage http body declared)
    (hcommitted : outcome.committed = some received) :
    Verified crypto evp http body received outcome.answer ↔
      AgreeNonempty (supplied crypto http body) := by
  obtain ⟨wanted, sink, hresolved, hverified, hanswer⟩ : ∃ wanted sink, Resolution http wanted ∧
      verifiedChecksum crypto evp http wanted body sink = .ok received ∧
        ∀ headers, outcome.answer = .ok headers →
          headers = applyChecksumHeader received.checksum := by
    rcases hhandler with rfl | ⟨declared, rfl⟩
    · obtain ⟨hreceive, hanswer⟩ := receive_of_committed hcommitted
      obtain ⟨wanted, sink, hresolved, hverified⟩ := verifiedChecksum_of_receiveObject hreceive
      exact ⟨wanted, sink, hresolved, hverified, hanswer⟩
    · obtain ⟨hreceive, hanswer⟩ := receive_of_committed hcommitted
      obtain ⟨wanted, sink, hresolved, hverified⟩ := verifiedChecksum_of_receivePart hreceive
      exact ⟨wanted, sink, hresolved, hverified, hanswer⟩
  obtain ⟨chunks, trailers, hstream, hreading⟩ := reading_of_verifiedChecksum hverified
  have hone := one_compared hresolved hstream hreading
  rw [← compared_iff_agree hone]
  refine ⟨fun h => h.compared, fun h => ⟨?_, hanswer, ?_, h⟩⟩
  · cases hreading with
    | unwanted hnone => exact fun _ hnone => nomatch hnone
    | uncompared hwanted hexpected =>
        rintro algorithm ⟨⟩
        rfl
    | compared hwanted hexpected hne hequal =>
        rintro algorithm ⟨⟩
        rfl
  · cases hreading with
    | unwanted hnone => exact fun _ hnone => nomatch hnone
    | uncompared hwanted hexpected => exact fun _ hnone => nomatch hnone
    | compared hwanted hexpected hne hequal =>
        intro header hheader
        obtain rfl := List.mem_singleton.mp hheader
        exact ⟨_, rfl, hequal⟩

end Verified

/-! ### Uploads -/

/-- Digests of which nothing is asked. -/
def noDigests : Evp := ⟨fun _ => .empty, fun _ => .empty, fun _ => []⟩

def noCrypto : Crypto := ⟨fun _ => [], fun _ _ => []⟩

/-- A storage that takes everything. -/
def roomy : UploadStorage where
  found := .ok ()
  maxUploadBytes := 1024
  reserveSpace _ := .ok ()
  finish _ := .ok ()

/-- CRC32 of "abc" in a value header. -/
def plainHeaders : RequestHeaders where
  entries := [(ascii "x-amz-checksum-crc32", ascii "NSRBwg==")]

def plainBody : S3Body := S3Body.make (ascii "abc") {} [] 0

def crc32Received : Received where
  checksum := { algorithm := some .crc32, value := checksumOf noDigests .crc32 (ascii "abc") }
  written := ascii "abc"
  compared := [(ascii "x-amz-checksum-crc32", ascii "NSRBwg==")]

theorem verified_iff_plain :
    Verified noCrypto noDigests plainHeaders plainBody crc32Received
        (handlePutObject noCrypto noDigests roomy plainHeaders plainBody).answer ↔
      AgreeNonempty (supplied noCrypto plainHeaders plainBody) :=
  verified_iff (Or.inl rfl) (by rfl)

/-- The same value header, and a trailing header announced beside it. -/
def announcingHeaders : RequestHeaders where
  entries :=
    [(ascii "x-amz-checksum-crc32", ascii "NSRBwg=="), (ascii "x-amz-trailer", ascii "x-amz-checksum-crc32")]

/-- "abc" in a chunk, and a trailing header with a value of four zeros. -/
def trailedBody : S3Body :=
  S3Body.make (ascii "3" ++ crlf ++ ascii "abc" ++ crlf ++ ascii "0" ++ crlf ++
    ascii "x-amz-checksum-crc32:AAAAAA==" ++ crlf ++ crlf) { payload := .streamingUnsigned } [] 3

/-- The trailing value was supplied, is not the checksum of what is stored, and was not
compared with it. -/
theorem announced_trailer_ignored :
    (handlePutObject noCrypto noDigests roomy announcingHeaders trailedBody).committed =
        some crc32Received ∧
      (ascii "x-amz-checksum-crc32", ascii "AAAAAA==") ∈
        supplied noCrypto announcingHeaders trailedBody ∧
      (ascii "x-amz-checksum-crc32", ascii "AAAAAA==") ∉ crc32Received.compared ∧
      decodeChecksum .crc32 (ascii "AAAAAA==") ≠
        some ((checksumOf noDigests .crc32 crc32Received.written).items, 0) := by
  decide +kernel

end MonoBucket.S3

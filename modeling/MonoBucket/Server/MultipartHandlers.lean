/-
Multipart uploads over S3

What the multipart handlers read of a request: the numbers and ids of its query, the
description an upload is begun with, the manifest it is completed with. A completed object
is described by its upload and by the parts the manifest names: its ETag is a digest of
their digests, and its checksum one of their checksums.
-/

import MonoBucket.Server.BucketHandlers
import MonoBucket.Server.UploadChecksums
import MonoBucket.Storage.UploadListing

namespace MonoBucket.FrontDoors

open S3 Codec Xml

/-! ### The query -/

def parseUnsigned (raw name : Bytes) (maximum : UInt32) : Except S3Exception UInt32 :=
  match fromChars raw with
  | none => S3.invalidArgument (name ++ ascii " must be a non-negative number.")
  | some value =>
    if maximum.toNat < value then
      S3.invalidArgument (name ++ ascii " must be a non-negative number.")
    else .ok (UInt32.ofNat value)

def kMaxPartNumber : UInt32 := 10000

def parsePartNumber (request : S3Request) : Except S3Exception UInt32 := do
  let raw := queryOr request (ascii "partNumber")
  if raw = [] then S3.invalidArgument (ascii "partNumber is required.")
  let value ← parseUnsigned raw (ascii "partNumber") kMaxPartNumber
  if value = 0 then
    S3.invalidArgument (ascii "Part number must be between 1 and " ++ decimal kMaxPartNumber.toNat ++
      ascii ".")
  pure value

def requireUploadId (request : S3Request) : Except S3Exception Bytes :=
  let uploadId := queryOr request (ascii "uploadId")
  if uploadId = [] then throwCode .noSuchUpload else .ok uploadId

/-- A number of the query, when it is there. -/
def unsignedOr (request : S3Request) (name : Bytes) (absent : UInt32) : Except S3Exception UInt32 :=
  if queryOr request name = [] then .ok absent
  else parseUnsigned (queryOr request name) name (0 - 1)

/-! ### Beginning an upload -/

/-- What a request describes its object with. -/
def descriptionOf (http : HttpHeaders) : Except S3Exception Description := do
  let metadata ← collectUserMetadata http
  let collected ← collectContentHeaders http
  pure
    { contentType := sized (contentTypeOf http)
      userMetadata :=
        .ofEntries (sized (metadata.entries.map fun entry => (sized entry.1, sized entry.2)))
      content :=
        { cacheControl := sized collected.cacheControl
          contentDisposition := sized collected.contentDisposition
          contentEncoding := sized collected.contentEncoding
          contentLanguage := sized collected.contentLanguage
          expires := sized collected.expires } }

/-- Parts get a composite checksum, and no other can be asked for. -/
def requireComposite (http : HttpHeaders) : Except S3Exception Unit :=
  let type := http.getHeader (ascii "x-amz-checksum-type")
  if type = [] ∨ type = ascii "COMPOSITE" then .ok ()
  else
    .error ⟨.invalidRequest, ascii "MonoBucket computes COMPOSITE checksums for multipart uploads; " ++
      ascii "x-amz-checksum-type: " ++ type ++ ascii " is not supported."⟩

def requireUploadKey (key : Bytes) : Except S3Exception Unit :=
  if isValidObjectKey key then .ok ()
  else S3.invalidArgument (ascii "The object key is not valid.")

/-- The upload a request begins, under the id that was drawn. -/
def beginsUpload (request : S3Request) (http : HttpHeaders) (uploadId : Bytes) (now : TimestampMs) :
    Except S3Exception UploadRecord := do
  requireUploadKey request.key
  let description ← descriptionOf http
  let wanted ← resolveChecksumRequest (checksumHeadersOf http)
  requireComposite http
  pure
    { uploadId := uploadId
      bucket := sized request.bucket
      key := sized request.key
      contentType := description.contentType
      createdAt := now
      userMetadata := description.userMetadata
      content := description.content
      checksumAlgorithm := wanted.algorithm }

def beginningDocument (upload : UploadRecord) : Bytes :=
  written (ascii "InitiateMultipartUploadResult") XmlWriter.kS3Namespace
    [.element (ascii "Bucket") upload.bucket.items, .element (ascii "Key") upload.key.items,
      .element (ascii "UploadId") upload.uploadId]

def beginningHeaders (upload : UploadRecord) : List Header :=
  match upload.checksumAlgorithm with
  | none => []
  | some algorithm => [(ascii "x-amz-checksum-algorithm", checksumName algorithm)]

/-! ### Completing one -/

/-- The number of a manifest's entry, which comes after the one before it. -/
def manifestNumber (number : Bytes) (previous : UInt32) : Except Failure UInt32 :=
  match fromChars number with
  | none => .error (.handler (.s3 ⟨.malformedXML, ascii "PartNumber \x27" ++ number ++
      ascii "\x27 is not valid."⟩))
  | some value =>
    if value < 1 ∨ kMaxPartNumber.toNat < value then
      .error (.handler (.s3 ⟨.malformedXML, ascii "PartNumber \x27" ++ number ++
        ascii "\x27 is not valid."⟩))
    else if UInt32.ofNat value ≤ previous then .error .invalidPartOrder
    else .ok (UInt32.ofNat value)

/-- The loop over the entries, after the number of the last one. -/
def manifestParts (previous : UInt32) : List XmlNode → Except Failure (List StorageEngine.RequestedPart)
  | [] => .ok []
  | entry :: entries => do
    let number ← manifestNumber (entry.childText (ascii "PartNumber")) previous
    let etag := entry.childText (ascii "ETag")
    if etag = [] then
      .error (.handler (.s3 ⟨.malformedXML, ascii "Part " ++
        entry.childText (ascii "PartNumber") ++ ascii " carries no ETag."⟩))
    let others ← manifestParts number entries
    pure (⟨number, etag⟩ :: others)

/-- The parts a document asks to be assembled. -/
def readManifest (document : Bytes) : Except Failure (List StorageEngine.RequestedPart) := do
  let root ← (parseDocument document).mapError Failure.handler
  if root.name ≠ ascii "CompleteMultipartUpload" then
    .error (.handler (.s3 ⟨.malformedXML,
      ascii "The root element must be <CompleteMultipartUpload>."⟩))
  let manifest ← manifestParts 0 (root.childrenNamed (ascii "Part"))
  if manifest = [] then
    .error (.handler (.s3 ⟨.malformedXML, ascii "The manifest lists no parts."⟩))
  pure manifest

/-- The checksum the client says the finished object has, as raw bytes and a count. -/
def expectedComposite (http : HttpHeaders) :
    Except S3Exception (Option (ChecksumAlgorithm × Bytes × UInt32)) := do
  let wanted ← resolveChecksumRequest (checksumHeadersOf http)
  match wanted.algorithm with
  | none => pure none
  | some algorithm =>
    if wanted.expected = [] then pure none
    else
      match decodeChecksum algorithm wanted.expected with
      | none =>
        refuseChecksum (ascii "The " ++ checksumHeaderName algorithm ++
          ascii " value is not base64 of a " ++ checksumName algorithm ++ ascii " digest.")
      | some (value, parts) => pure (some (algorithm, value, parts))

section Assembled

variable (evp : Evp)

/-- A digest out of its letters, nothing when they are not 32 hexadecimal digits. -/
def digestBytes (text : Bytes) : Option Bytes :=
  if text.length ≠ 32 then none
  else
    (List.range 16).mapM fun index => do
      let high ← (text[index * 2]?).bind hexValue
      let low ← (text[index * 2 + 1]?).bind hexValue
      pure (high <<< 4 ||| low)

/-- `multipartETag`, nothing where it throws. -/
def multipartETag (etags : List Bytes) : Option Bytes :=
  (etags.mapM digestBytes).map fun digests =>
    evp.md5Hex digests.flatten ++ [letter '-'] ++ decimal etags.length

def Checksum.isPresent (checksum : Checksum) : Bool :=
  checksum.algorithm.isSome && checksum.value.items ≠ []

/-- The loop of `compositeAlgorithm`. -/
def sharedAlgorithm : Option ChecksumAlgorithm → List PartRecord → Option ChecksumAlgorithm
  | algorithm, [] => algorithm
  | algorithm, part :: parts =>
    if !Checksum.isPresent part.checksum then none
    else
      let algorithm := algorithm.or part.checksum.algorithm
      if part.checksum.algorithm ≠ algorithm then none else sharedAlgorithm algorithm parts

/-- The algorithm every part was hashed under. -/
def compositeAlgorithm (upload : UploadRecord) (parts : List PartRecord) :
    Option ChecksumAlgorithm := sharedAlgorithm upload.checksumAlgorithm parts

/-- `compositeChecksum`, nothing where it throws. -/
def compositeChecksum (algorithm : ChecksumAlgorithm) (values : List Bytes) : Option Checksum :=
  if values.any fun value => value.length ≠ checksumLength algorithm then none
  else
    some
      { algorithm := some algorithm
        value := (values.foldl ChecksumComputer.update { algorithm := algorithm }).finish evp
        parts := values.length.toUInt32 }

/-- The checksum of the object the parts make, if they carry one. -/
def compositeOf (upload : UploadRecord) (parts : List PartRecord) : Except Failure Checksum :=
  match compositeAlgorithm upload parts with
  | none => .ok {}
  | some algorithm =>
    match compositeChecksum evp algorithm (parts.map fun part => part.checksum.value.items) with
    | none => .error .unexpected
    | some composite => .ok composite

def checksumMismatch {α : Type} (what : Bytes) : Except Failure α :=
  .error (.handler (.storage (.storage .checksumMismatch what)))

/-- What the client expects is compared before anything is assembled. -/
def requireExpected (expected : Option (ChecksumAlgorithm × Bytes × UInt32)) (composite : Checksum) :
    Except Failure Unit :=
  match expected with
  | none => .ok ()
  | some (algorithm, value, parts) =>
    if value = [] then .ok ()
    else if !Checksum.isPresent composite ∨ composite.algorithm ≠ some algorithm then
      checksumMismatch (ascii "the completion supplied a checksum, but this upload\x27s parts carry " ++
        ascii "no checksum under that algorithm")
    else if value ≠ composite.value.items ∨ parts ≠ composite.parts then
      checksumMismatch (ascii "the checksum supplied for the completed object does not match the " ++
        ascii "checksums of the parts it names")
    else .ok ()

end Assembled

/-! ### Listings -/

section Listings

/-- What is shown of an upload's parts: after a marker, at most so many. -/
structure PartsQuery where
  marker : UInt32
  maxParts : UInt32

def partsQuery (request : S3Request) : Except S3Exception PartsQuery := do
  let marker ← unsignedOr request (ascii "part-number-marker") 0
  let maxParts ← unsignedOr request (ascii "max-parts") 1000
  pure ⟨marker, min maxParts 1000⟩

/-- The parts of a page, and whether there are more. -/
def partsPage (query : PartsQuery) (parts : List PartRecord) : List PartRecord × Bool :=
  let after := parts.filter fun part => ¬ part.partNumber ≤ query.marker
  (after.take query.maxParts.toNat, query.maxParts.toNat < after.length)

def writePart (part : PartRecord) : List WriterCall :=
  [.openElement (ascii "Part"),
    .element (ascii "PartNumber") (decimal part.partNumber.toNat),
    .element (ascii "LastModified") (toIso8601 part.uploadedAt),
    .element (ascii "ETag") (quoteETag part.etag.items),
    .element (ascii "Size") (decimal part.size.toNat)] ++
  (match part.checksum.algorithm with
    | none => []
    | some algorithm =>
      if part.checksum.value.items = [] then []
      else [.element (ascii "Checksum" ++ checksumName algorithm) (checksumText part.checksum)]) ++
  [.close]

/-- What a client goes on from. -/
def writeNextPart (page : List PartRecord × Bool) : List WriterCall :=
  match page with
  | (parts, true) =>
    match parts.getLast? with
    | none => []
    | some last => [.element (ascii "NextPartNumberMarker") (decimal last.partNumber.toNat)]
  | (_, false) => []

def writeParts (upload : UploadRecord) (uploadId : Bytes) (query : PartsQuery)
    (page : List PartRecord × Bool) : List WriterCall :=
  [.element (ascii "Bucket") upload.bucket.items, .element (ascii "Key") upload.key.items,
    .element (ascii "UploadId") uploadId,
    .element (ascii "PartNumberMarker") (decimal query.marker.toNat)] ++
  writeNextPart page ++
  [.element (ascii "MaxParts") (decimal query.maxParts.toNat),
    booleanElement (ascii "IsTruncated") page.2,
    .element (ascii "StorageClass") kStorageClass] ++
  (match upload.checksumAlgorithm with
    | none => []
    | some algorithm => [.element (ascii "ChecksumAlgorithm") (checksumName algorithm)]) ++
  page.1.flatMap writePart

def partsDocument (upload : UploadRecord) (uploadId : Bytes) (query : PartsQuery)
    (page : List PartRecord × Bool) : Bytes :=
  written (ascii "ListPartsResult") XmlWriter.kS3Namespace (writeParts upload uploadId query page)

def handleListParts (rows : Rows) (request : S3Request) (requestId : Bytes) :
    Except HandlerError Reply := do
  let uploadId ← (requireUploadId request).mapError HandlerError.s3
  let upload ← requireUpload rows request.bucket request.key uploadId
  let query ← (partsQuery request).mapError HandlerError.s3
  let parts ← (listParts rows uploadId).mapError HandlerError.storage
  pure (xmlResponse (partsDocument upload uploadId query (partsPage query parts)) requestId)

/-- An id without the key it was begun under has no place in the order. -/
def uploadsQuery (request : S3Request) : Except S3Exception ListUploadsRequest := do
  let maxUploads ← unsignedOr request (ascii "max-uploads") 1000
  let query : ListUploadsRequest :=
    { keyPrefix := queryOr request (ascii "prefix")
      keyMarker := queryOr request (ascii "key-marker")
      uploadIdMarker := queryOr request (ascii "upload-id-marker")
      maxUploads := min maxUploads 1000 }
  if query.uploadIdMarker ≠ [] ∧ query.keyMarker = [] then
    S3.invalidArgument (ascii "upload-id-marker cannot be used without key-marker.")
  pure query

def writeUpload (upload : UploadRecord) : List WriterCall :=
  [.openElement (ascii "Upload"), .element (ascii "Key") upload.key.items,
    .element (ascii "UploadId") upload.uploadId,
    .element (ascii "Initiated") (toIso8601 upload.createdAt),
    .element (ascii "StorageClass") kStorageClass, .close]

def writeUploads (request : S3Request) (query : ListUploadsRequest) (listing : ListUploadsResult) :
    List WriterCall :=
  [.element (ascii "Bucket") request.bucket, .element (ascii "KeyMarker") query.keyMarker,
    .element (ascii "UploadIdMarker") query.uploadIdMarker,
    .element (ascii "NextKeyMarker") listing.nextKeyMarker,
    .element (ascii "NextUploadIdMarker") listing.nextUploadIdMarker,
    .element (ascii "MaxUploads") (decimal query.maxUploads.toNat)] ++
  elementIfSet (ascii "Prefix") query.keyPrefix ++
  elementIfSet (ascii "Delimiter") (queryOr request (ascii "delimiter")) ++
  [booleanElement (ascii "IsTruncated") listing.truncated] ++ listing.uploads.flatMap writeUpload

def uploadsDocument (request : S3Request) (query : ListUploadsRequest) (listing : ListUploadsResult) :
    Bytes :=
  written (ascii "ListMultipartUploadsResult") XmlWriter.kS3Namespace
    (writeUploads request query listing)

/-- `handleListMultipartUploads` behind the look-up of its bucket. -/
def answerUploads (rows : Rows) (request : S3Request) (requestId : Bytes) :
    Except HandlerError Reply := do
  let query ← (uploadsQuery request).mapError HandlerError.s3
  let listing ← (listUploads rows request.bucket query).mapError HandlerError.storage
  pure (xmlResponse (uploadsDocument request query listing) requestId)

end Listings

end MonoBucket.FrontDoors

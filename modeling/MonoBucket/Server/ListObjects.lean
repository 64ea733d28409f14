/-
Listing the objects of a bucket over S3

`handleListObjects` reads the page a request asks for out of its query, and writes the page
the store answers with as a document. The two versions differ in what a client goes on from:
a marker, or a token that holds one.
-/

import MonoBucket.Server.ObjectAnswers
import MonoBucket.S3.Checksum
import MonoBucket.S3.Request
import MonoBucket.S3.XmlDocuments
import MonoBucket.Storage.Pagination

namespace MonoBucket.FrontDoors

open S3 Codec Xml

/-! ### What the query asks for -/

def kDefaultMaxKeys : UInt32 := 1000

def kMaxMaxKeys : UInt32 := 1000

/-- `std::from_chars` of a whole text as an unsigned 64-bit number. -/
def fromChars (text : Bytes) : Option Nat :=
  if text ≠ [] ∧ (∀ byte ∈ text, isDigit byte) ∧ digitsValue text < 2 ^ 64 then
    some (digitsValue text)
  else none

def queryOr (request : S3Request) (name : Bytes) : Bytes := (request.queryValue name).getD []

/-- Clamped rather than refused. -/
def parseMaxKeys (request : S3Request) : Except S3Exception UInt32 :=
  if queryOr request (ascii "max-keys") = [] then .ok kDefaultMaxKeys
  else
    match fromChars (queryOr request (ascii "max-keys")) with
    | none => S3.invalidArgument (ascii "max-keys must be a number.")
    | some value => .ok (UInt32.ofNat (min value kMaxMaxKeys.toNat))

def wantsUrlEncoding (request : S3Request) : Except S3Exception Bool :=
  match request.queryValue (ascii "encoding-type") with
  | none => .ok false
  | some encoding =>
    if encoding = ascii "url" then .ok true
    else S3.invalidArgument (ascii "encoding-type must be \x27url\x27.")

def encodeContinuation (startAfter : Bytes) : Bytes := base64Encode startAfter

def decodeContinuation (token : Bytes) : Except S3Exception Bytes :=
  match base64Decode token with
  | none => S3.invalidArgument (ascii "The continuation token is not valid.")
  | some startAfter => .ok startAfter

/-- A token is the server's own point to go on from, and wins over the client's guess. -/
def resumesFrom (request : S3Request) (version2 : Bool) : Except S3Exception Bytes :=
  if version2 then
    if queryOr request (ascii "continuation-token") = [] then
      .ok (queryOr request (ascii "start-after"))
    else decodeContinuation (queryOr request (ascii "continuation-token"))
  else .ok (queryOr request (ascii "marker"))

/-- The query of the engine, and whether names are to be encoded. -/
def listingQuery (request : S3Request) (version2 : Bool) :
    Except S3Exception (ListObjectsRequest × Bool) := do
  let urlEncode ← wantsUrlEncoding request
  let maxKeys ← parseMaxKeys request
  let startAfter ← resumesFrom request version2
  pure
    ({ keyPrefix := queryOr request (ascii "prefix")
       delimiter := queryOr request (ascii "delimiter")
       startAfter := startAfter
       maxKeys := maxKeys }, urlEncode)

/-! ### What is written -/

def kStorageClass : Bytes := ascii "STANDARD"

def encodeListingValue (value : Bytes) (urlEncode : Bool) : Bytes :=
  if urlEncode then uriEncode value true else value

/-- The days are those of the seconds, cut towards zero; the fraction of a second is never
negative. -/
def toIso8601 (epochMs : TimestampMs) : Bytes :=
  let stamp := epochMs.toInt.tdiv 1000
  let second := stamp % 86400
  let date := civilFromDays (stamp / 86400)
  padded 4 date.1 ++ ascii "-" ++ padded 2 date.2.1 ++ ascii "-" ++ padded 2 date.2.2 ++ ascii "T" ++
    padded 2 (second / 3600) ++ ascii ":" ++ padded 2 (second / 60 % 60) ++ ascii ":" ++
    padded 2 (second % 60) ++ ascii "." ++ padded 3 ((epochMs.toInt.tmod 1000 + 1000).tmod 1000) ++
    ascii "Z"

def elementIfSet (name text : Bytes) : List WriterCall :=
  if text = [] then [] else [.element name text]

def booleanElement (name : Bytes) (value : Bool) : WriterCall :=
  .element name (if value then ascii "true" else ascii "false")

/-- The access key the server was started with, and what its owner id is made of. -/
structure Account where
  rootAccessKey : Bytes
  sha256Hex : Bytes → Bytes

def ownerId (account : Account) : Bytes := account.sha256Hex account.rootAccessKey

def writeOwner (account : Account) : List WriterCall :=
  [.openElement (ascii "Owner"), .element (ascii "ID") (ownerId account),
    .element (ascii "DisplayName") account.rootAccessKey, .close]

section Document

variable (account : Account) (request : S3Request) (version2 urlEncode : Bool)

def writeContents (fetchOwner : Bool) (object : ObjectRecord) : List WriterCall :=
  [.openElement (ascii "Contents"),
    .element (ascii "Key") (encodeListingValue object.key urlEncode),
    .element (ascii "LastModified") (toIso8601 object.lastModified),
    .element (ascii "ETag") (quoteETag object.etag.items),
    .element (ascii "Size") (decimal object.size.toNat),
    .element (ascii "StorageClass") kStorageClass] ++
  (if fetchOwner then writeOwner account else []) ++ [.close]

def writeCommonPrefix (commonPrefix : Bytes) : List WriterCall :=
  [.openElement (ascii "CommonPrefixes"),
    .element (ascii "Prefix") (encodeListingValue commonPrefix urlEncode), .close]

/-- What a client goes on from, in the two versions. -/
def writeNext (result : ListObjectsResult) : List WriterCall :=
  if version2 then
    [.element (ascii "KeyCount")
      (decimal (result.objects.length + result.commonPrefixes.length))] ++
    (if result.truncated then
      [.element (ascii "NextContinuationToken") (encodeContinuation result.nextStartAfter)]
    else [])
  else if result.truncated then
    [.element (ascii "NextMarker") (encodeListingValue result.nextStartAfter urlEncode)]
  else []

def writeListing (query : ListObjectsRequest) (result : ListObjectsResult) : List WriterCall :=
  let fetchOwner := !version2 || queryOr request (ascii "fetch-owner") = ascii "true"
  [.element (ascii "Name") request.bucket,
    .element (ascii "Prefix") (encodeListingValue query.keyPrefix urlEncode)] ++
  (if version2 then
    elementIfSet (ascii "ContinuationToken") (queryOr request (ascii "continuation-token")) ++
    elementIfSet (ascii "StartAfter")
      (encodeListingValue (queryOr request (ascii "start-after")) urlEncode)
  else
    [.element (ascii "Marker")
      (encodeListingValue (queryOr request (ascii "marker")) urlEncode)]) ++
  [.element (ascii "MaxKeys") (decimal query.maxKeys.toNat)] ++
  elementIfSet (ascii "Delimiter") (encodeListingValue query.delimiter urlEncode) ++
  (if urlEncode then [.element (ascii "EncodingType") (ascii "url")] else []) ++
  [booleanElement (ascii "IsTruncated") result.truncated] ++
  writeNext version2 urlEncode result ++
  result.objects.flatMap (writeContents account urlEncode fetchOwner) ++
  result.commonPrefixes.flatMap (writeCommonPrefix urlEncode)

def listingDocument (query : ListObjectsRequest) (result : ListObjectsResult) : Bytes :=
  written (ascii "ListBucketResult") XmlWriter.kS3Namespace
    (writeListing account request version2 urlEncode query result)

end Document

/-! ### The handler -/

/-- The engine takes no more keys for a page than the most there may be. -/
def engineListObjects (rows : Rows) (bucket : Bytes) (query : ListObjectsRequest) :
    Except StoreError ListObjectsResult :=
  listObjects rows bucket { query with maxKeys := min query.maxKeys kMaxMaxKeys }

/-- `xmlResponse`, with the headers all responses have. -/
def xmlResponse (document requestId : Bytes) : HttpResponse × Bytes :=
  ({ status := 200, contentType := ascii "application/xml", headers := commonHeaders requestId },
    document)

/-- Asking for no keys at all does not ask the engine. -/
def answerListing (account : Account) (rows : Rows) (request : S3Request) (requestId : Bytes)
    (version2 : Bool) : Except HandlerError (HttpResponse × Bytes) := do
  let (query, urlEncode) ← (listingQuery request version2).mapError .s3
  let result ←
    if query.maxKeys = 0 then .ok {}
    else (engineListObjects rows request.bucket query).mapError .storage
  pure (xmlResponse (listingDocument account request version2 urlEncode query result) requestId)

def handleListObjects (config : ServerConfig) (ticks : Int64) (account : Account) (server : Server)
    (request : S3Request) (requestId : Bytes) (version2 : Bool) :
    Server × Except HandlerError (HttpResponse × Bytes) :=
  match S3.requireBucket config.hash server.engine.metadata.rows config.cacheTtlSeconds ticks
      server.cache request.bucket with
  | (cache, .error error) => ({ server with cache := cache }, .error error)
  | (cache, .ok _) =>
    ({ server with cache := cache },
      answerListing account server.engine.metadata.rows request requestId version2)

end MonoBucket.FrontDoors

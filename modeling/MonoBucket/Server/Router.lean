/-
The S3 router

`serve` takes a request as the HTTP library hands it over: it verifies the signature with a
secret read from the store, reads the identity behind the key, asks whether that identity may
do what the request asks, and only then calls the handler. What a handler refuses becomes an
error document, and every answer is decorated with the headers the bucket's CORS rules give.

The state is the server and what has been written to the payload tree: the bytes each payload
id was handed. Requests run one after another here.
-/

import MonoBucket.Server.MultipartHandlers

namespace MonoBucket.FrontDoors

open S3 Codec Xml

/-! ### Requests and state -/

/-- A request as the HTTP library hands it over. -/
structure HttpRequest where
  method : Bytes
  /-- The path as it was sent. -/
  originalPath : Bytes
  /-- The path decoded. -/
  path : Bytes
  query : Bytes := []
  headers : RequestHeaders
  body : Bytes := []

def HttpRequest.header (http : HttpRequest) (name : Bytes) : Bytes :=
  http.headers.entries.getHeader name

def toSigningRequest (http : HttpRequest) : SigningRequest where
  method := http.method
  uri := http.originalPath
  query := http.query
  headers := http.headers.entries

structure Router extends ServerConfig where
  crypto : Crypto
  evp : Evp
  /-- The HTTP library's reader of dates. -/
  parseHttpDate : Bytes → Option TimestampMs
  rootAccessKey : Bytes
  rootSecretKey : Bytes
  s3Domain : Bytes := []

def Router.account (router : Router) : Account := ⟨router.rootAccessKey, router.crypto.sha256Hex⟩

/-- What the system hands a request: the clocks, the ids that are drawn, whether a payload's
file can be opened, and whether an entry of the audit log can be written. -/
structure Draws where
  nowSeconds : Int := 0
  now : TimestampMs := 0
  ticks : Int64 := 0
  requestId : UInt64 := 0
  blobId : Text := .empty
  uploadId : Bytes := []
  opens : Bool := true
  logs : Bool := true

/-- The server, and what the writer of each payload was handed. -/
structure Site where
  server : Server
  payloads : OrderedMap Bytes Bytes := .empty

def Site.rows (site : Site) : Rows := site.server.engine.metadata.rows

/-! ### Who signed -/

def kIdAlphabet : Bytes := ascii "ABCDEFGHIJKLMNOPQRSTUVWXYZ234567"

def kAccessKeyIdPrefix : Bytes := ascii "MB"

def kAccessKeyIdLength : Nat := 20

def plausibleAccessKeyId (id : Bytes) : Bool :=
  id.length = kAccessKeyIdLength && kAccessKeyIdPrefix.isPrefixOf id &&
    (id.drop kAccessKeyIdPrefix.length).all fun byte => byte ∈ kIdAlphabet

/-- What a key id was found to be. -/
inductive Credential
  | root
  | issued (key : AccessKeyRecord)

section Identities

variable (router : Router) (rows : Rows)

def Credential.secret : Credential → Bytes
  | .root => router.rootSecretKey
  | .issued key => key.secretKey.items

/-- The root pair first, and no look-up for what cannot be an issued id. -/
def resolveCredential (accessKeyId : Bytes) : Except StoreError (Option Credential) :=
  if secureEquals accessKeyId router.rootAccessKey then .ok (some .root)
  else if plausibleAccessKeyId accessKeyId then
    (getAccessKey rows accessKeyId).map (Option.map Credential.issued)
  else .ok none

/-- What a request claims, when it claims anything that can be looked at. -/
def claimOf (signing : SigningRequest) (query : List QueryParam) (options : AuthOptions) :
    Option Claimed :=
  match findQuery query (ascii "X-Amz-Signature") with
  | some signature => (presignedClaim query options signature).toOption
  | none =>
    if signing.header (ascii "authorization") = [] then none
    else (headerClaim signing options (signing.header (ascii "authorization"))).toOption

/-- The key id `authenticate` asks the resolver for, if it comes to that. -/
def claimedKey (signing : SigningRequest) (query : List QueryParam) (options : AuthOptions) :
    Option Bytes := do
  let claimed ← claimOf signing query options
  let scope ← (parseCredential claimed.credential).toOption
  if scope.service ≠ kService ∨ scope.terminator ≠ kTerminator then none
  else if claimed.outcome.amzDate.take 8 ≠ scope.dateStamp then none
  else some scope.accessKey

/-- What the resolver finds when it is asked. -/
def claimedCredential (signing : SigningRequest) (query : List QueryParam) (options : AuthOptions) :
    Except StoreError (Option Credential) :=
  match claimedKey signing query options with
  | none => .ok none
  | some accessKeyId => resolveCredential router rows accessKeyId

/-- The secret of a key id; a record that cannot be read gives none. -/
def secretOf (accessKeyId : Bytes) : Option Bytes :=
  ((resolveCredential router rows accessKeyId).toOption.join).map (Credential.secret router)

/-- The owner of an issued key as the store has it now, unless it is disabled. -/
def identityOf : Option Credential → Except StoreError (Option SignedIdentity)
  | none => .ok none
  | some .root => .ok (some ⟨.administrator, [], {}⟩)
  | some (.issued key) =>
    if key.owner.items = [] then .ok none
    else
      (getUser rows key.owner.items).map fun found =>
        match found with
        | none => none
        | some owner =>
          if owner.disabled then none else some ⟨owner.role, owner.username, owner.buckets⟩

def authOptions (draws : Draws) (method : Bytes) : AuthOptions where
  nowSeconds := draws.nowSeconds
  alternateMethod := if method = ascii "GET" then ascii "HEAD" else []

/-- The signature verified, and who is behind it. -/
def authenticated (draws : Draws) (http : HttpRequest) (request : S3Request) :
    Except HandlerError (AuthOutcome × Option SignedIdentity) := do
  let options := authOptions draws request.method
  let signing := toSigningRequest http
  let resolved ← (claimedCredential router rows signing request.query options).mapError
    HandlerError.storage
  let auth ← (authenticate router.crypto signing request.query (secretOf router rows)
    options).mapError HandlerError.s3
  let identity ← (identityOf rows resolved).mapError HandlerError.storage
  pure (auth, identity)

end Identities

/-! ### What they may do -/

/-- `toString(operation)`. -/
def operationName : Operation → Bytes
  | .listBuckets => ascii "ListBuckets"
  | .createBucket => ascii "CreateBucket"
  | .deleteBucket => ascii "DeleteBucket"
  | .headBucket => ascii "HeadBucket"
  | .listObjectsV1 => ascii "ListObjects"
  | .listObjectsV2 => ascii "ListObjectsV2"
  | .listMultipartUploads => ascii "ListMultipartUploads"
  | .deleteObjects => ascii "DeleteObjects"
  | .getBucketLocation => ascii "GetBucketLocation"
  | .getBucketVersioning => ascii "GetBucketVersioning"
  | .getBucketPolicy => ascii "GetBucketPolicy"
  | .putBucketPolicy => ascii "PutBucketPolicy"
  | .deleteBucketPolicy => ascii "DeleteBucketPolicy"
  | .getBucketAcl => ascii "GetBucketAcl"
  | .putBucketAcl => ascii "PutBucketAcl"
  | .getBucketCors => ascii "GetBucketCors"
  | .putBucketCors => ascii "PutBucketCors"
  | .deleteBucketCors => ascii "DeleteBucketCors"
  | .preflight => ascii "Preflight"
  | .getObject => ascii "GetObject"
  | .headObject => ascii "HeadObject"
  | .putObject => ascii "PutObject"
  | .deleteObject => ascii "DeleteObject"
  | .createMultipartUpload => ascii "CreateMultipartUpload"
  | .uploadPart => ascii "UploadPart"
  | .listParts => ascii "ListParts"
  | .completeMultipartUpload => ascii "CompleteMultipartUpload"
  | .abortMultipartUpload => ascii "AbortMultipartUpload"
  | .unsupported => ascii "Unsupported"
  | .methodNotAllowed => ascii "MethodNotAllowed"

def describeHolding : BucketAccess → Bytes
  | .none => ascii "no access"
  | .read => ascii "read-only access"
  | .write => ascii "read and write access"

/-- The check that refused, as it is recorded. -/
def refusalReason (request : S3Request) (operation : Operation) (identity : SignedIdentity) : Bytes :=
  let needed := permissionFor operation
  if identity.role.allows needed then
    needed.toText ++ ascii " required for " ++ operationName operation ++ ascii " on \x27" ++
      request.bucket ++ ascii "\x27, \x27" ++ identity.username ++ ascii "\x27 has " ++
      describeHolding (identity.grants.forBucket request.bucket) ++ ascii " to it"
  else
    needed.toText ++ ascii " required for " ++ operationName operation ++ ascii ", " ++
      identity.role.toText.items ++ ascii " has it not"

/-- The entry a refusal leaves in the audit log. -/
def refusalEntry (request : S3Request) (operation : Operation) (identity : SignedIdentity)
    (now : TimestampMs) : AuditRecord where
  atMs := now
  actor := sized identity.username
  action := sized (ascii "authz.denied")
  target := sized request.resource
  allowed := false
  detail := sized (refusalReason request operation identity)

/-- The log without an entry, when it cannot be written, has still counted it. -/
def recordRefusal (draws : Draws) (server : Server) (entry : AuditRecord) : Server :=
  let store := server.engine.metadata
  let store :=
    if draws.logs then (appendAudit store entry).1
    else { store with auditSequence := store.auditSequence + 1 }
  { server with engine := { server.engine with metadata := store } }

/-- `authorize` with what it does: an anonymous read looks its bucket up through the cache, and
the refusal of a known identity is recorded. -/
def authorizeRequest (config : ServerConfig) (draws : Draws) (server : Server) (request : S3Request)
    (operation : Operation) (auth : AuthOutcome) (identity : Option SignedIdentity) : Answer :=
  if auth.anonymous then
    if isReadOnly operation ∧ request.bucket ≠ [] then
      let (cache, lookup) := S3.requireBucket config.hash server.engine.metadata.rows
        config.cacheTtlSeconds draws.ticks server.cache request.bucket
      ({ server with cache := cache }, authorize lookup request.bucket operation true identity)
    else (server, accessDenied)
  else
    match identity with
    | none => (server, accessDenied)
    | some identity =>
      match authorize ((throwCode .noSuchBucket).mapError .s3) request.bucket operation false
          (some identity) with
      | .ok _ => (server, .ok ())
      | .error error =>
        (recordRefusal draws server (refusalEntry request operation identity draws.now), .error error)

/-! ### Objects -/

section Objects

variable (router : Router) (draws : Draws)

/-- The record of an object, once its payload is there. -/
def objectOf (key : Bytes) (description : Description) (received : Received) : ObjectRecord where
  key := key
  blobId := draws.blobId
  size := received.written.length.toUInt64
  etag := sized (router.evp.md5Hex received.written)
  sha256 := sized (router.crypto.sha256Hex received.written)
  contentType := description.contentType
  lastModified := draws.now
  userMetadata := description.userMetadata
  content := description.content
  checksum := received.checksum

def partOf (number : UInt32) (received : Received) : PartRecord where
  partNumber := number
  blobId := draws.blobId
  size := received.written.length.toUInt64
  etag := sized (router.evp.md5Hex received.written)
  uploadedAt := draws.now
  checksum := received.checksum

/-- A payload is received: space is claimed, the payload registered, the body read into it, and
what it came to handed to the request that commits it. A body that does not verify leaves the
registration behind. -/
def receive (site : Site) (looked : Server) (bucket : Bytes) (declared : UInt64)
    (received : Except S3Exception Received) (commits : Received → Request) :
    Site × Except Failure Received :=
  match site.server.engine.quotas.reserve bucket declared with
  | .error error => ({ site with server := looked }, .error (.handler (.storage error)))
  | .ok (quotas, reservation) =>
    match received with
    | .error exception =>
      let begun : StorageEngine := { site.server.engine with quotas := quotas }
      ({ site with
          server := { looked with
            engine := (begun.trackBlob draws.blobId.items draws.now).release reservation } },
        .error (.handler (.s3 exception)))
    | .ok received =>
      let answer := perform router.toServerConfig draws.ticks site.server (commits received)
      ({ server := answer.1
         payloads := site.payloads.insert draws.blobId.items received.written },
        (answer.2.mapError .handler).map fun _ => received)

/-- What `handlePutObject` checks before it claims any space. -/
def planObject (server : Server) (request : S3Request) (http : HttpRequest) (body : S3Body) :
    Except HandlerError (Description × ChecksumRequest) := do
  requireValidKey request.key
  refuseCopy http.headers
  let description ← (descriptionOf http.headers.entries).mapError HandlerError.s3
  let wanted ← (resolveChecksumRequest (checksumHeadersOf http.headers.entries)).mapError
    HandlerError.s3
  requireDeclaredSize server body.declared (ascii "The object is ")
  pure (description, wanted)

/-- The body of a put, read and verified. -/
def readObject (server : Server) (http : HttpRequest) (wanted : ChecksumRequest) (body : S3Body) :
    Except S3Exception Received :=
  verifiedChecksum router.crypto router.evp http.headers wanted body
    (sinkChunks server.engine.maxUploadBytes 0
      (ascii "The object exceeds this instance\x27s maximum upload size of " ++
        QuotaLedger.bytesPhrase server.engine.maxUploadBytes ++ ascii ".") 0)

def payloadHeaders (etag : Bytes) (checksum : Checksum) : List Header :=
  (ascii "ETag", quoteETag etag) :: applyChecksumHeader checksum

def servePutObject (site : Site) (request : S3Request) (http : HttpRequest) (body : S3Body) :
    Site × Except Failure Reply :=
  let looked := perform router.toServerConfig draws.ticks site.server (.lookup request.bucket)
  match looked.2 with
  | .error error => ({ site with server := looked.1 }, .error (.handler error))
  | .ok _ =>
    match planObject site.server request http body with
    | .error error => ({ site with server := looked.1 }, .error (.handler error))
    | .ok (description, wanted) =>
      let answer := receive router draws site looked.1 request.bucket body.declared
        (readObject router site.server http wanted body) fun received =>
          .putObject request.bucket (objectOf router draws request.key description received)
            body.declared draws.now
      (answer.1, answer.2.map fun received =>
        emptyResponse 200
          (payloadHeaders (router.evp.md5Hex received.written) received.checksum)
          (newRequestId draws.requestId))

/-- The record a read finds, behind the look-ups it makes. -/
def foundObject (server : Server) (read : ReadRequest) : Option ObjectRecord :=
  match S3.requireBucket router.hash server.engine.metadata.rows router.cacheTtlSeconds draws.ticks
      server.cache read.bucket with
  | (_, .error _) => none
  | (cache, .ok _) =>
    ((statObject router.toServerConfig draws.ticks { server with cache := cache } read.bucket
      read.key).2.toOption).join

/-- The bytes sent with a response to a read. -/
def sentBody (payloads : OrderedMap Bytes Bytes) (record : ObjectRecord) (http : HttpRequest)
    (resource : Bytes) (status : Nat) : Bytes :=
  let payload := (payloads.find? record.blobId.items).getD []
  if status = 200 then payload
  else if status = 206 then
    let range := (parseRange (http.header (ascii "range")) record.size {}).2
    (payload.drop range.offset.toNat).take range.length.toNat
  else if status = 412 then
    renderError ⟨ascii "PreconditionFailed", 412,
      ascii "At least one of the preconditions you specified did not hold."⟩ [] resource
      (newRequestId draws.requestId)
  else if status = 416 then
    renderError ⟨ascii "InvalidRange", 416, ascii "The requested range is not satisfiable."⟩ []
      resource (newRequestId draws.requestId)
  else []

def readRequestOf (request : S3Request) (http : HttpRequest) : ReadRequest where
  bucket := request.bucket
  key := sized request.key
  query := request.query
  http := http.headers.entries
  drawn := draws.requestId

def serveGetObject (site : Site) (request : S3Request) (http : HttpRequest) :
    Site × Except Failure Reply :=
  let read := readRequestOf draws request http
  let answer := handleGetObject router.toServerConfig draws.ticks router.parseHttpDate draws.opens
    site.server read
  ({ site with server := answer.1 },
    match answer.2, foundObject router draws site.server read with
    | .error error, _ => .error (.handler error)
    | .ok response, none => .ok (response, [])
    | .ok response, some record =>
      .ok (response, sentBody draws site.payloads record http request.resource response.status))

/-- The keys of a document are deleted one by one. -/
def serveDeleteObjects (server : Server) (request : S3Request) (http : HttpRequest)
    (document : Except HandlerError Bytes) : Server × Except Failure Reply :=
  match document with
  | .error error =>
    requesting router.toServerConfig draws.ticks server request.bucket (.error (.handler error))
      (emptyResponse 200 [] (newRequestId draws.requestId))
  | .ok document =>
    let answer := handleDeleteObjects router.toServerConfig draws.ticks
      (fun header payload => checkContentMd5 header (router.evp.md5Hex payload)) server
      request.bucket (http.header (ascii "content-md5")) document draws.now
    (answer.1, (answer.2.mapError .handler).map fun reports =>
      xmlResponse (deleteResult reports) (newRequestId draws.requestId))

/-! ### Multipart -/

def serveCreateMultipartUpload (server : Server) (request : S3Request) (http : HttpRequest) :
    Server × Except Failure Reply :=
  match beginsUpload request http.headers.entries draws.uploadId draws.now with
  | .error exception =>
    requesting router.toServerConfig draws.ticks server request.bucket
      (.error (.handler (.s3 exception))) (emptyResponse 200 [] (newRequestId draws.requestId))
  | .ok upload =>
    let document := xmlResponse (beginningDocument upload) (newRequestId draws.requestId)
    requesting router.toServerConfig draws.ticks server request.bucket
      (.ok (.createMultipartUpload upload))
      ({ document.1 with headers := beginningHeaders upload ++ document.1.headers }, document.2)

/-- A part as a request describes it: its upload, its number, what it is hashed under, and how
many bytes the other parts come to. -/
structure PartPlan where
  uploadId : Bytes
  number : UInt32
  wanted : ChecksumRequest
  others : UInt64

/-- What `handleUploadPart` checks before it claims any space. -/
def planPart (server : Server) (request : S3Request) (http : HttpRequest) (body : S3Body) :
    Except HandlerError PartPlan := do
  let uploadId ← (requireUploadId request).mapError HandlerError.s3
  let number ← (parsePartNumber request).mapError HandlerError.s3
  let upload ← requireUpload server.engine.metadata.rows request.bucket request.key uploadId
  let wanted ← (resolveChecksumRequest (checksumHeadersOf http.headers.entries)).mapError
    HandlerError.s3
  let wanted ← (underUpload upload.checksumAlgorithm wanted).mapError HandlerError.s3
  let others ← (server.engine.uploadedPartBytes uploadId number).mapError HandlerError.storage
  requireDeclaredSize server (others + body.declared) (ascii "This part would bring the upload to ")
  pure ⟨uploadId, number, wanted, others⟩

/-- The body of a part, read and verified. -/
def readPart (server : Server) (http : HttpRequest) (plan : PartPlan) (body : S3Body) :
    Except S3Exception Received :=
  verifiedChecksum router.crypto router.evp http.headers plan.wanted body
    (sinkChunks server.engine.maxUploadBytes plan.others
      (ascii "This part takes the upload over this instance\x27s maximum upload size of " ++
        QuotaLedger.bytesPhrase server.engine.maxUploadBytes ++ ascii ".") 0)

def serveUploadPart (site : Site) (request : S3Request) (http : HttpRequest) (body : S3Body) :
    Site × Except Failure Reply :=
  match planPart site.server request http body with
  | .error error => (site, .error (.handler error))
  | .ok plan =>
    let answer := receive router draws site site.server request.bucket body.declared
      (readPart router site.server http plan body) fun received =>
        .uploadPart request.bucket request.key plan.uploadId
          (partOf router draws plan.number received) body.declared draws.now
    (answer.1, answer.2.map fun received =>
      emptyResponse 200 (payloadHeaders (router.evp.md5Hex received.written) received.checksum)
        (newRequestId draws.requestId))

/-- A completion that passed its checks: what it asks for, the upload, and the parts in order. -/
structure CompletionPlan where
  uploadId : Bytes
  manifest : List StorageEngine.RequestedPart
  upload : UploadRecord
  ordered : List PartRecord
  composite : Checksum

/-- What is checked before anything is assembled. -/
def planCompletion (server : Server) (request : S3Request) (http : HttpRequest)
    (document : Except HandlerError Bytes) : Except Failure CompletionPlan := do
  let uploadId ← (requireUploadId request).mapError fun exception => .handler (.s3 exception)
  let _ ← (requireUpload server.engine.metadata.rows request.bucket request.key uploadId).mapError
    Failure.handler
  let manifest ← readManifest (← document.mapError Failure.handler)
  let expected ← (expectedComposite http.headers.entries).mapError fun exception =>
    .handler (.s3 exception)
  let (upload, ordered) ← (server.engine.checkManifest uploadId manifest).mapError fun error =>
    .handler (.storage error)
  let composite ← compositeOf router.evp upload ordered
  requireExpected expected composite
  pure ⟨uploadId, manifest, upload, ordered, composite⟩

/-- The payload the parts make, and the record of the object: the record is the upload's, the
ETag and the checksum are those of the parts. -/
def assemble (payloads : OrderedMap Bytes Bytes) (plan : CompletionPlan) :
    Except Failure (Bytes × ObjectRecord) := do
  let pieces ← plan.ordered.mapM fun part =>
    match payloads.find? part.blobId.items with
    | none => .error (.handler (.storage (.storage .noSuchKey (ascii "payload " ++
        part.blobId.items ++ ascii " is missing from the store"))))
    | some piece => .ok piece
  match multipartETag router.evp (plan.ordered.map fun part => part.etag.items) with
  | none => .error .unexpected
  | some etag =>
    pure (pieces.flatten,
      { key := plan.upload.key.items
        blobId := draws.blobId
        size := pieces.flatten.length.toUInt64
        etag := sized etag
        sha256 := sized (router.crypto.sha256Hex pieces.flatten)
        contentType := plan.upload.contentType
        lastModified := draws.now
        userMetadata := plan.upload.userMetadata
        content := plan.upload.content
        checksum := plan.composite })

def completionDocument (request : S3Request) (record : ObjectRecord) : Bytes :=
  written (ascii "CompleteMultipartUploadResult") XmlWriter.kS3Namespace
    ([.element (ascii "Location")
        ([letter '/'] ++ request.bucket ++ [letter '/'] ++ uriEncode request.key false),
      .element (ascii "Bucket") request.bucket, .element (ascii "Key") request.key,
      .element (ascii "ETag") (quoteETag record.etag.items)] ++
    (match record.checksum.algorithm with
      | none => []
      | some algorithm =>
        if record.checksum.value.items = [] then []
        else
          [.element (ascii "Checksum" ++ checksumName algorithm) (checksumText record.checksum),
            .element (ascii "ChecksumType")
              (if record.checksum.parts ≠ 0 then ascii "COMPOSITE" else ascii "FULL_OBJECT")]))

/-- The payload is registered before it is assembled, and stays so when it cannot be. -/
def serveCompleteMultipartUpload (site : Site) (request : S3Request) (http : HttpRequest)
    (document : Except HandlerError Bytes) : Site × Except Failure Reply :=
  match planCompletion router site.server request http document with
  | .error failure => (site, .error failure)
  | .ok plan =>
    match assemble router draws site.payloads plan with
    | .error failure =>
      ({ site with
          server := { site.server with
            engine := site.server.engine.trackBlob draws.blobId.items draws.now } },
        .error failure)
    | .ok (payload, record) =>
      let answer := perform router.toServerConfig draws.ticks site.server
        (.completeMultipartUpload request.bucket request.key plan.uploadId plan.manifest record
          draws.now)
      let document := xmlResponse (completionDocument request record) (newRequestId draws.requestId)
      ({ server := answer.1, payloads := site.payloads.insert draws.blobId.items payload },
        (answer.2.mapError .handler).map fun _ =>
          ({ document.1 with headers := applyChecksumHeader record.checksum ++ document.1.headers },
            document.2))

def serveAbortMultipartUpload (server : Server) (request : S3Request) :
    Server × Except Failure Reply :=
  match requireUploadId request with
  | .error exception => (server, .error (.handler (.s3 exception)))
  | .ok uploadId =>
    let answer := perform router.toServerConfig draws.ticks server
      (.abortMultipartUpload request.bucket request.key uploadId draws.now)
    (answer.1, (answer.2.mapError .handler).map fun _ =>
      emptyResponse 204 [] (newRequestId draws.requestId))

end Objects

/-! ### Dispatch -/

section Serving

variable (router : Router) (draws : Draws)

/-- A handler that writes no payload. -/
def Site.onServer (site : Site) (outcome : Server × Except Failure Reply) :
    Site × Except Failure Reply := ({ site with server := outcome.1 }, outcome.2)

def preflightOf (request : S3Request) (http : HttpRequest) : CorsRequest where
  bucket := request.bucket
  method := request.method
  http := http.headers.entries
  drawn := draws.requestId

def servePreflight (server : Server) (request : S3Request) (http : HttpRequest) :
    Server × Except Failure Reply :=
  let answer := handlePreflight router.toServerConfig draws.ticks server
    (preflightOf draws request http)
  (answer.1, (answer.2.mapError .handler).map fun response => (response, []))

/-- A writing handler that reads nothing but the path. -/
def serveBucket (server : Server) (request : S3Request) (asked : Request) (reply : Reply) :
    Server × Except Failure Reply :=
  requesting router.toServerConfig draws.ticks server request.bucket (.ok asked) reply

def dispatch (site : Site) (request : S3Request) (operation : Operation) (http : HttpRequest)
    (body : S3Body) (identity : Option SignedIdentity) : Site × Except Failure Reply :=
  let requestId := newRequestId draws.requestId
  let config := router.toServerConfig
  let document := materialise router.crypto body
  let bucket := withBucket config draws.ticks site.server request.bucket
  match operation with
  | .listBuckets =>
    (site, match identity with
      | none => handleListBuckets router.account site.server .readOnly {} requestId
      | some identity =>
        handleListBuckets router.account site.server identity.role identity.grants requestId)
  | .createBucket =>
    site.onServer (serveBucket router draws site.server request
      (.createBucket request.bucket draws.now)
      (emptyResponse 200 [(ascii "Location", letter '/' :: request.bucket)] requestId))
  | .deleteBucket =>
    site.onServer (serveBucket router draws site.server request (.deleteBucket request.bucket)
      (emptyResponse 204 [] requestId))
  | .headBucket =>
    site.onServer (bucket fun _ =>
      .ok (emptyResponse 200 [(ascii "x-amz-bucket-region", router.region)] requestId))
  | .listObjectsV1 | .listObjectsV2 =>
    let answer := handleListObjects config draws.ticks router.account site.server request requestId
      (operation = .listObjectsV2)
    site.onServer (answer.1, answer.2.mapError .handler)
  | .getBucketLocation =>
    site.onServer (bucket fun _ => .ok (xmlResponse (locationDocument router.region) requestId))
  | .getBucketVersioning =>
    site.onServer (bucket fun _ => .ok (xmlResponse versioningDocument requestId))
  | .getBucketAcl =>
    site.onServer (bucket fun record =>
      .ok (xmlResponse (aclDocument router.account record) requestId))
  | .putBucketAcl =>
    site.onServer (putBucketAcl config draws.ticks site.server request.bucket
      (http.header (ascii "x-amz-acl")) document requestId)
  | .getBucketPolicy => site.onServer (bucket fun record => policyReply record requestId)
  | .putBucketPolicy =>
    site.onServer (putBucketPolicy config draws.ticks site.server request.bucket document requestId)
  | .deleteBucketPolicy =>
    site.onServer (serveBucket router draws site.server request (.deleteBucketPolicy request.bucket)
      (emptyResponse 204 [] requestId))
  | .getBucketCors => site.onServer (bucket fun record => corsReply record requestId)
  | .putBucketCors =>
    site.onServer (putBucketCors config draws.ticks site.server request.bucket document requestId)
  | .deleteBucketCors =>
    site.onServer (serveBucket router draws site.server request (.deleteBucketCors request.bucket)
      (emptyResponse 204 [] requestId))
  | .preflight => site.onServer (servePreflight router draws site.server request http)
  | .deleteObjects =>
    site.onServer (serveDeleteObjects router draws site.server request http document)
  | .getObject | .headObject => serveGetObject router draws site request http
  | .putObject => servePutObject router draws site request http body
  | .deleteObject =>
    site.onServer (serveBucket router draws site.server request
      (.deleteObject request.bucket request.key draws.now) (emptyResponse 204 [] requestId))
  | .createMultipartUpload =>
    site.onServer (serveCreateMultipartUpload router draws site.server request http)
  | .uploadPart => serveUploadPart router draws site request http body
  | .listParts =>
    (site, (handleListParts site.server.engine.metadata.rows request requestId).mapError .handler)
  | .completeMultipartUpload => serveCompleteMultipartUpload router draws site request http document
  | .abortMultipartUpload =>
    site.onServer (serveAbortMultipartUpload router draws site.server request)
  | .listMultipartUploads =>
    site.onServer (bucket fun _ =>
      (answerUploads site.server.engine.metadata.rows request requestId).mapError .handler)
  | .unsupported => (site, .error (.handler (.s3 ⟨.notImplemented, S3ErrorCode.message .notImplemented⟩)))
  | .methodNotAllowed => (site, .error .methodNotAllowed)

/-- A request whose signature has been looked at. -/
def serveSigned (site : Site) (request : S3Request) (http : HttpRequest) (auth : AuthOutcome)
    (identity : Option SignedIdentity) : Site × Except Failure Reply :=
  let (operation, unsupported) := classify request
  if unsupported ≠ [] then
    (site, .error (.handler (.s3 ⟨.notImplemented, ascii "The \x27" ++ unsupported ++
      ascii "\x27 subresource is not implemented."⟩)))
  else
    match authorizeRequest router.toServerConfig draws site.server request operation auth identity with
    | (server, .error error) => ({ site with server := server }, .error (.handler error))
    | (server, .ok _) =>
      dispatch router draws { site with server := server } request operation http
        (S3Body.ofRequest (toSigningRequest http) http.body auth) identity

/-- The request as it is answered for, and what its handler left. -/
def attempt (site : Site) (request : S3Request) (http : HttpRequest) :
    S3Request × Site × Except Failure Reply :=
  match authenticated router site.server.engine.metadata.rows draws http request with
  | .error error => (request, site, .error (.handler error))
  | .ok (auth, identity) =>
    let request := if auth.method = [] then request else { request with method := auth.method }
    (request, serveSigned router draws site request http auth identity)

/-- A failure becomes its document, and a response gets the headers of the bucket's rules. A
record of the bucket that does not decode there ends the task with no answer. -/
def decorate (site : Site) (request : S3Request) (http : HttpRequest)
    (outcome : Except Failure Reply) : Site × Option Reply :=
  let reply :=
    match outcome with
    | .ok reply => reply
    | .error failure =>
      errorReply failure.info.1 failure.info.2 request.resource (newRequestId draws.requestId)
  match applyCorsHeaders router.toServerConfig draws.ticks site.server
      (preflightOf draws request http) with
  | (server, .error _) => ({ site with server := server }, none)
  | (server, .ok headers) =>
    ({ site with server := server },
      some ({ reply.1 with headers := reply.1.headers ++ headers }, reply.2))

def requestOf (http : HttpRequest) : S3Request :=
  parseRequest http.method http.path http.query
    (virtualHostBucket (http.header (ascii "host")) router.s3Domain)

/-- A preflight is answered before anything looks for a signature. -/
def serve (site : Site) (http : HttpRequest) : Site × Option Reply :=
  let request := requestOf router http
  if request.method = ascii "OPTIONS" then
    match servePreflight router draws site.server request http with
    | (server, .ok reply) => ({ site with server := server }, some reply)
    | (server, .error failure) =>
      decorate router draws { site with server := server } request http (.error failure)
  else
    let (request, site, outcome) := attempt router draws site request http
    decorate router draws site request http outcome

end Serving

end MonoBucket.FrontDoors

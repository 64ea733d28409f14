/-
Buckets over S3

What the bucket handlers read of a request, and the documents they describe a bucket with.
A handler that writes looks its bucket up first, so what it cannot read is reported after a
bucket that is not there.
-/

import MonoBucket.S3.Body
import MonoBucket.S3.CorsDocument
import MonoBucket.Server.ErrorResponses

namespace MonoBucket.FrontDoors

open S3 Codec Xml

/-! ### Bodies -/

/-- `materialise`: the whole body, when its framing and its digest hold. -/
def materialise (crypto : Crypto) (body : S3Body) : Except HandlerError Bytes :=
  let delivery := body.streamTo crypto
  (delivery.outcome.map fun _ => delivery.delivered.flatten).mapError .s3

def parseDocument (document : Bytes) : Except HandlerError XmlNode :=
  (parseRequestXml document).mapError .s3

/-! ### Access control lists -/

def kAllUsersUri : Bytes := ascii "http://acs.amazonaws.com/groups/global/AllUsers"

/-- What a canned ACL asks for, if one is named. -/
def cannedAccess (canned : Bytes) : Except HandlerError (Option Bool) :=
  if canned = [] then .ok none
  else if canned = ascii "public-read" ∨ canned = ascii "public-read-write" then .ok (some true)
  else if canned = ascii "private" then .ok (some false)
  else
    .error (.s3 ⟨.notImplemented,
      ascii "Only the \x27private\x27 and \x27public-read\x27 canned ACLs are supported."⟩)

/-- A grant that lets everyone read. -/
def grantsEveryone (grant : XmlNode) : Bool :=
  match grant.child? (ascii "Grantee") with
  | none => false
  | some grantee =>
    grantee.childText (ascii "URI") = kAllUsersUri &&
      (grant.childText (ascii "Permission") = ascii "READ" ||
        grant.childText (ascii "Permission") = ascii "FULL_CONTROL")

/-- The read flag an ACL document asks for. -/
def documentAccess (document : Bytes) : Except HandlerError Bool :=
  if document = [] then
    .error (.s3 ⟨.invalidRequest,
      ascii "PutBucketAcl requires an x-amz-acl header or an ACL document."⟩)
  else do
    let root ← parseDocument document
    match root.child? (ascii "AccessControlList") with
    | none => pure false
    | some list => pure ((list.childrenNamed (ascii "Grant")).any grantsEveryone)

/-- The body is read only when no canned ACL decides. -/
def requestedAccess (canned : Bytes) (document : Except HandlerError Bytes) :
    Except HandlerError Bool := do
  match ← cannedAccess canned with
  | some publicRead => pure publicRead
  | none => documentAccess (← document)

/-! ### CORS configurations -/

/-- The rules of a document; `putBucketCors` checks them. -/
def requestedRules (document : Bytes) : Except HandlerError (Sized CorsRule) :=
  if document = [] then .error (.s3 ⟨.malformedXML, ascii "The CORS configuration is empty."⟩)
  else do
    let root ← parseDocument document
    let rules ← (corsRulesOf root).mapError HandlerError.s3
    if rules = [] then
      .error (.s3 ⟨.malformedXML,
        ascii "A CORS configuration must contain at least one <CORSRule>."⟩)
    else pure (sized rules)

/-- Read and checked, they are what `parseCorsConfiguration` makes of the document. -/
theorem requestedRules_bind_validate (document : Bytes) :
    ((requestedRules document).bind fun rules => (validateCorsRules rules).mapError .s3) =
      (parseCorsConfiguration document).mapError .s3 := by
  rw [requestedRules, parseCorsConfiguration]
  split_ifs with hempty
  · rfl
  · rw [parseDocument, parseRequestXml]
    cases parseXml document with
    | error error => cases error <;> rfl
    | ok root =>
        show Except.bind (Except.bind (Except.mapError HandlerError.s3 (corsRulesOf root)) _) _ =
          Except.mapError _ (Except.bind (corsRulesOf root) _)
        cases corsRulesOf root with
        | error error => rfl
        | ok rules =>
            simp only [Except.mapError, Except.bind]
            split_ifs <;> rfl

/-! ### Documents -/

section Documents

variable (account : Account)

def writeBucket (bucket : BucketRecord) : List WriterCall :=
  [.openElement (ascii "Bucket"), .element (ascii "Name") bucket.name,
    .element (ascii "CreationDate") (toIso8601 bucket.createdAt), .close]

/-- The buckets a caller may read. -/
def bucketsDocument (role : Role) (grants : BucketGrants) (buckets : List BucketRecord) : Bytes :=
  written (ascii "ListAllMyBucketsResult") XmlWriter.kS3Namespace
    (writeOwner account ++ [.openElement (ascii "Buckets")] ++
      (buckets.filter fun bucket => allowsIn role grants bucket.name .bucketRead).flatMap writeBucket ++
      [.close])

/-- us-east-1 is an empty element. -/
def locationDocument (region : Bytes) : Bytes :=
  ascii "<?xml version=\"1.0\" encoding=\"UTF-8\"?>\n<LocationConstraint xmlns=\"" ++
    XmlWriter.kS3Namespace ++ ascii "\">" ++ (if region = usEast1 then [] else xmlEscape region) ++
    ascii "</LocationConstraint>\n"

def versioningDocument : Bytes :=
  written (ascii "VersioningConfiguration") XmlWriter.kS3Namespace []

def writeOwnerGrant : List WriterCall :=
  [.openElement (ascii "Grant"), .openElement (ascii "Grantee"),
    .element (ascii "ID") (ownerId account),
    .element (ascii "DisplayName") account.rootAccessKey, .close,
    .element (ascii "Permission") (ascii "FULL_CONTROL"), .close]

def writePublicGrant : List WriterCall :=
  [.openElement (ascii "Grant"), .openElement (ascii "Grantee"),
    .element (ascii "URI") kAllUsersUri, .close,
    .element (ascii "Permission") (ascii "READ"), .close]

def aclDocument (bucket : BucketRecord) : Bytes :=
  written (ascii "AccessControlPolicy") XmlWriter.kS3Namespace
    (writeOwner account ++ [.openElement (ascii "AccessControlList")] ++ writeOwnerGrant account ++
      (if bucket.publicRead then writePublicGrant else []) ++ [.close])

def policyReply (bucket : BucketRecord) (requestId : Bytes) : Except Failure Reply :=
  if bucket.policy.items = [] then .error .noSuchBucketPolicy
  else
    .ok ({ status := 200
           contentType := ascii "application/json"
           headers := commonHeaders requestId },
      bucket.policy.items)

def corsReply (bucket : BucketRecord) (requestId : Bytes) : Except Failure Reply :=
  if bucket.cors.items = [] then .error .noSuchCorsConfiguration
  else .ok (xmlResponse (renderCorsConfiguration bucket.cors.items) requestId)

end Documents

/-! ### Handlers -/

section Handlers

variable (config : ServerConfig) (ticks : Int64)

/-- A handler that answers from a bucket's record. -/
def withBucket (server : Server) (name : Bytes) (rest : BucketRecord → Except Failure Reply) :
    Server × Except Failure Reply :=
  match S3.requireBucket config.hash server.engine.metadata.rows config.cacheTtlSeconds ticks
      server.cache name with
  | (cache, .error error) => ({ server with cache := cache }, .error (.handler error))
  | (cache, .ok record) => ({ server with cache := cache }, rest record)

/-- A handler that looks its bucket up, reads the request, and does what it asks. -/
def requesting (server : Server) (name : Bytes) (read : Except Failure Request) (reply : Reply) :
    Server × Except Failure Reply :=
  match read with
  | .ok request =>
    let answer := perform config ticks server request
    (answer.1, (answer.2.mapError .handler).map fun _ => reply)
  | .error failure =>
    let looked := perform config ticks server (.lookup name)
    (looked.1,
      match looked.2 with
      | .error error => .error (.handler error)
      | .ok _ => .error failure)

def handleListBuckets (account : Account) (server : Server) (role : Role) (grants : BucketGrants)
    (requestId : Bytes) : Except Failure Reply :=
  match listBuckets server.engine.metadata.rows with
  | .error error => .error (.handler (.storage error))
  | .ok buckets => .ok (xmlResponse (bucketsDocument account role grants buckets) requestId)

def putBucketAcl (server : Server) (name canned : Bytes) (document : Except HandlerError Bytes)
    (requestId : Bytes) : Server × Except Failure Reply :=
  requesting config ticks server name
    (((requestedAccess canned document).mapError .handler).map fun publicRead =>
      .putBucketAcl name publicRead)
    (emptyResponse 200 [] requestId)

def putBucketPolicy (server : Server) (name : Bytes) (document : Except HandlerError Bytes)
    (requestId : Bytes) : Server × Except Failure Reply :=
  requesting config ticks server name
    ((document.mapError .handler).map fun document => .putBucketPolicy name (sized document))
    (emptyResponse 204 [] requestId)

def putBucketCors (server : Server) (name : Bytes) (document : Except HandlerError Bytes)
    (requestId : Bytes) : Server × Except Failure Reply :=
  requesting config ticks server name
    (((document.bind requestedRules).mapError .handler).map fun rules => .putBucketCors name rules)
    (emptyResponse 200 [] requestId)

end Handlers

end MonoBucket.FrontDoors

/-
What a request addresses

The bucket and the key come from the path, unless the Host header names a bucket
under the configured domain: then the whole path is the key. Which operation it
is follows from the method, from which of the two are there, and from the
subresource in the query.
-/

import Mathlib.Data.List.DropRight
import MonoBucket.S3.Names
import MonoBucket.S3.Operation
import MonoBucket.S3.UriRoundTrip

namespace MonoBucket.S3

structure S3Request where
  method : Bytes
  bucket : Bytes := []
  key : Bytes := []
  query : List QueryParam := []
  resource : Bytes := []
  deriving DecidableEq

def hasQuery (params : List QueryParam) (name : Bytes) : Bool := params.any (·.name = name)

def S3Request.hasQuery (request : S3Request) (name : Bytes) : Bool := S3.hasQuery request.query name

def S3Request.queryValue (request : S3Request) (name : Bytes) : Option Bytes :=
  findQuery request.query name

/-! ### The bucket and the key -/

/-- The port is what follows the last colon; a bracketed address keeps its colons. -/
def stripPort (host : Bytes) : Bytes :=
  if letter ':' ∈ host ∧ letter ']' ∉ host then (host.rdropWhile (· ≠ letter ':')).dropLast else host

def virtualHostBucket (host domain : Bytes) : Bytes :=
  if domain = [] ∨ host = [] then []
  else
    let loweredHost := toLowerText (stripPort host)
    let loweredDomain := toLowerText domain
    let suffix := letter '.' :: loweredDomain
    if loweredHost = loweredDomain then []
    else if loweredHost.length ≤ suffix.length then []
    else if loweredHost.drop (loweredHost.length - suffix.length) ≠ suffix then []
    else
      let bucket := loweredHost.take (loweredHost.length - suffix.length)
      if isValidBucketName bucket then bucket else []

def parseRequest (method decodedPath rawQuery virtualHostBucket : Bytes) : S3Request :=
  let request : S3Request :=
    { method := method, query := parseQuery rawQuery, resource := decodedPath }
  let path := if decodedPath.head? = some (letter '/') then decodedPath.tail else decodedPath
  if virtualHostBucket ≠ [] then { request with bucket := virtualHostBucket, key := path }
  else
    match splitAtFirst (letter '/') path with
    | none => { request with bucket := path }
    | some (bucket, key) => { request with bucket := bucket, key := key }

/-! ### The operation -/

def kUnimplementedSubresources : List Bytes :=
  [ascii "accelerate", ascii "analytics", ascii "encryption", ascii "inventory", ascii "lifecycle",
    ascii "logging", ascii "metrics", ascii "notification", ascii "object-lock", ascii "ownership",
    ascii "publicAccessBlock", ascii "replication", ascii "requestPayment", ascii "tagging",
    ascii "versions", ascii "website", ascii "restore"]

/-- The first subresource present, nothing when there is none. -/
def firstSubresource (request : S3Request) : Bytes :=
  (kUnimplementedSubresources.find? request.hasQuery).getD []

def classifyService (request : S3Request) : Operation :=
  if request.method = ascii "GET" then .listBuckets else .methodNotAllowed

def classifyBucket (request : S3Request) : Operation :=
  if request.method = ascii "GET" then
    if request.hasQuery (ascii "uploads") then .listMultipartUploads
    else if request.hasQuery (ascii "location") then .getBucketLocation
    else if request.hasQuery (ascii "versioning") then .getBucketVersioning
    else if request.hasQuery (ascii "policy") then .getBucketPolicy
    else if request.hasQuery (ascii "acl") then .getBucketAcl
    else if request.hasQuery (ascii "cors") then .getBucketCors
    else if request.queryValue (ascii "list-type") = some (ascii "2") then .listObjectsV2
    else .listObjectsV1
  else if request.method = ascii "HEAD" then .headBucket
  else if request.method = ascii "PUT" then
    if request.hasQuery (ascii "policy") then .putBucketPolicy
    else if request.hasQuery (ascii "acl") then .putBucketAcl
    else if request.hasQuery (ascii "cors") then .putBucketCors
    else .createBucket
  else if request.method = ascii "DELETE" then
    if request.hasQuery (ascii "policy") then .deleteBucketPolicy
    else if request.hasQuery (ascii "cors") then .deleteBucketCors
    else .deleteBucket
  else if request.method = ascii "POST" then
    if request.hasQuery (ascii "delete") then .deleteObjects
    else if request.hasQuery (ascii "uploadId") then .unsupported
    else .methodNotAllowed
  else .methodNotAllowed

def classifyObject (request : S3Request) : Operation :=
  let hasUploadId := request.hasQuery (ascii "uploadId")
  let hasPartNumber := request.hasQuery (ascii "partNumber")
  if request.method = ascii "GET" then
    if hasUploadId then .listParts
    else if request.hasQuery (ascii "acl") then .getBucketAcl
    else .getObject
  else if request.method = ascii "HEAD" then .headObject
  else if request.method = ascii "PUT" then
    if hasUploadId && hasPartNumber then .uploadPart
    else if hasUploadId || hasPartNumber then .unsupported
    else .putObject
  else if request.method = ascii "POST" then
    if request.hasQuery (ascii "uploads") then .createMultipartUpload
    else if hasUploadId then .completeMultipartUpload
    else .methodNotAllowed
  else if request.method = ascii "DELETE" then
    if hasUploadId then .abortMultipartUpload else .deleteObject
  else .methodNotAllowed

/-- The operation, and the unimplemented subresource when it was for one. -/
def classify (request : S3Request) : Operation × Bytes :=
  if request.method = ascii "OPTIONS" then (.preflight, [])
  else
    let unsupported := firstSubresource request
    if unsupported ≠ [] then (.unsupported, unsupported)
    else if request.bucket = [] then (classifyService request, [])
    else if request.key = [] then (classifyBucket request, [])
    else (classifyObject request, [])

/-! ### What a host addresses -/

/-- The host, without its port and in lower case, is a bucket's name in front of
the domain. -/
def HostNames (host domain bucket : Bytes) : Prop :=
  domain ≠ [] ∧ isValidBucketName bucket ∧
    toLowerText (stripPort host) = bucket ++ letter '.' :: toLowerText domain

theorem ne_nil_of_isValidBucketName {bucket : Bytes} (h : isValidBucketName bucket) : bucket ≠ [] := by
  rintro rfl
  exact absurd h (by decide)

theorem HostNames.unique {host domain first second : Bytes} (h : HostNames host domain first)
    (hother : HostNames host domain second) : first = second := by
  have heq := h.2.2.symm.trans hother.2.2
  exact List.append_cancel_right heq

/-- `virtualHostBucket` finds the bucket a host names, and nothing when it names none. -/
theorem virtualHostBucket_eq_iff {host domain bucket : Bytes} (hbucket : bucket ≠ []) :
    virtualHostBucket host domain = bucket ↔ HostNames host domain bucket := by
  constructor
  · intro h
    rw [virtualHostBucket] at h
    split_ifs at h with hempty
    · exact absurd h.symm hbucket
    dsimp only at h
    split_ifs at h with hsame hshort hsuffix hvalid
    all_goals first | exact absurd h.symm hbucket | skip
    have hdomain : domain ≠ [] := fun hnil => hempty (Or.inl hnil)
    subst h
    have hcut := List.take_append_drop
      ((toLowerText (stripPort host)).length - (letter '.' :: toLowerText domain).length)
      (toLowerText (stripPort host))
    rw [not_not.mp hsuffix] at hcut
    exact ⟨hdomain, hvalid, hcut.symm⟩
  · rintro ⟨hdomain, hvalid, hlowered⟩
    have hhost : host ≠ [] := by
      rintro rfl
      have hnil : toLowerText (stripPort []) = [] := rfl
      rw [hnil] at hlowered
      simp at hlowered
    have hlength : (toLowerText (stripPort host)).length =
        bucket.length + (letter '.' :: toLowerText domain).length := by
      rw [hlowered, List.length_append]
    have hlong : 0 < bucket.length := List.length_pos_iff.mpr hbucket
    have hdiff : (toLowerText (stripPort host)).length - (letter '.' :: toLowerText domain).length =
        bucket.length := by omega
    have hne : toLowerText (stripPort host) ≠ toLowerText domain := by
      intro hsame
      rw [hsame, List.length_cons] at hlength
      omega
    rw [virtualHostBucket, if_neg (by simp [hdomain, hhost])]
    simp only [hdiff]
    rw [if_neg hne, if_neg (by omega), hlowered, List.drop_left, if_neg (by simp), List.take_left,
      if_pos hvalid]

theorem virtualHostBucket_eq_nil_iff {host domain : Bytes} :
    virtualHostBucket host domain = [] ↔ ∀ bucket, ¬ HostNames host domain bucket := by
  constructor
  · intro h bucket hnames
    have hfound := (virtualHostBucket_eq_iff (ne_nil_of_isValidBucketName hnames.2.1)).mpr hnames
    rw [h] at hfound
    exact ne_nil_of_isValidBucketName hnames.2.1 hfound.symm
  · intro h
    by_contra hsome
    exact h _ ((virtualHostBucket_eq_iff hsome).mp rfl)

end MonoBucket.S3

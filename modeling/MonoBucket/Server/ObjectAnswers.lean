/-
What a read, a preflight and a cross-origin request are answered with

The handlers that put a record's or a rule's text on a response, with what they do
to the cache. A bucket and an object are looked up through the cache, and looking up
an object fills it. The bodies of responses are left out, and so is what the HTTP
library adds by itself.
-/

import MonoBucket.S3.Cors
import MonoBucket.S3.ObjectCache
import MonoBucket.S3.ResponseHeaders
import MonoBucket.Server.FrontDoors

namespace MonoBucket.FrontDoors

open S3 Codec

/-! ### Reading an object -/

structure ReadRequest where
  bucket : Bytes
  key : Text
  query : List QueryParam := []
  http : HttpHeaders := []
  /-- What `newRequestId` drew. -/
  drawn : UInt64 := 0

section Handlers

variable (config : ServerConfig) (ticks : Int64)

def statObject (server : Server) (bucket : Bytes) (key : Text) :
    Server × Except StoreError (Option ObjectRecord) :=
  let (cache, stored) := server.cache.get config.hash ticks (objectCacheKey bucket key.items)
  match stored.bind decodeCachedObject with
  | some record => ({ server with cache := cache }, .ok (some record))
  | none =>
    match getObject server.engine.metadata.rows bucket key.items with
    | .error error => ({ server with cache := cache }, .error error)
    | .ok none => ({ server with cache := cache }, .ok none)
    | .ok (some record) =>
      ({ server with
          cache := cache.set config.hash ticks (objectCacheKey bucket key.items)
            (encodeCachedObject key record) config.cacheTtlSeconds },
        .ok (some record))

def bytesOfSize (size : UInt64) : Bytes := ascii "bytes */" ++ decimal size.toNat

/-- A 304 carries the validators and the freshness headers only. -/
def notModified (record : ObjectRecord) (request : ReadRequest) : HttpResponse where
  status := 304
  headers :=
    [(ascii "ETag", quoteETag record.etag.items),
      (ascii "Last-Modified", toHttpDate record.lastModified)] ++
    (resolveContentHeaders record.content request.query).filter
      (fun header => header.1 = ascii "Cache-Control" ∨ header.1 = ascii "Expires") ++
    commonHeaders (newRequestId request.drawn)

/-- `errorResponse`. -/
def errorResponse (status : Nat) (request : ReadRequest) : HttpResponse where
  status := status
  contentType := ascii "application/xml"
  headers := commonHeaders (newRequestId request.drawn)

/-- The payload or a range of it; the type is the record's unless the query names one. -/
def served (record : ObjectRecord) (request : ReadRequest) (ranged : RangeResult) : HttpResponse where
  status := if ranged = .satisfiable then 206 else 200
  contentType :=
    (overrideOf request.query (ascii "response-content-type")).getD record.contentType.items
  headers :=
    objectHeaders record request.query ++
    (if ranged ≠ .satisfiable ∧ checksumModeEnabled request.http then
      checksumHeaders record.checksum else []) ++
    commonHeaders (newRequestId request.drawn)

/-- `handleGetObject` once the record is there; whether its payload can be opened is
the file system's. -/
def answerRead (parseHttpDate : Bytes → Option TimestampMs) (opens : Bool) (request : ReadRequest)
    (record : ObjectRecord) : Except S3Exception HttpResponse :=
  match evaluatePreconditions parseHttpDate request.http record with
  | .failed => .ok (errorResponse 412 request)
  | .notModified => .ok (notModified record request)
  | .proceed =>
    let ranged := (parseRange (request.http.getHeader (ascii "range")) record.size {}).1
    if ranged = .unsatisfiable then
      let response := errorResponse 416 request
      .ok { response with
        headers := response.headers ++ [(ascii "Content-Range", bytesOfSize record.size)] }
    else if opens then .ok (served record request ranged)
    else .error ⟨.internalError, ascii "The payload for this object is missing from the store."⟩

def handleGetObject (parseHttpDate : Bytes → Option TimestampMs) (opens : Bool) (server : Server)
    (request : ReadRequest) : Server × Except HandlerError HttpResponse :=
  match S3.requireBucket config.hash server.engine.metadata.rows config.cacheTtlSeconds ticks
      server.cache request.bucket with
  | (cache, .error error) => ({ server with cache := cache }, .error error)
  | (cache, .ok _) =>
    match statObject config ticks { server with cache := cache } request.bucket request.key with
    | (server, .error error) => (server, .error (.storage error))
    | (server, .ok none) => (server, (throwCode .noSuchKey).mapError .s3)
    | (server, .ok (some record)) =>
      (server, (answerRead parseHttpDate opens request record).mapError .s3)

/-! ### Cross-origin requests -/

structure CorsRequest where
  bucket : Bytes
  method : Bytes
  http : HttpHeaders := []
  /-- What `newRequestId` drew. -/
  drawn : UInt64 := 0

def forbidden {α : Type} (message : Bytes) : Except HandlerError α :=
  .error (.s3 ⟨.accessForbidden, message⟩)

/-- The rules of a bucket; one that is not there has none. -/
def bucketRules (server : Server) (bucket : Bytes) :
    Server × Except HandlerError (List CorsRule) :=
  match S3.requireBucket config.hash server.engine.metadata.rows config.cacheTtlSeconds ticks
      server.cache bucket with
  | (cache, .ok record) => ({ server with cache := cache }, .ok record.cors.items)
  | (cache, .error (.s3 _)) => ({ server with cache := cache }, .ok [])
  | (cache, .error (.storage (.storage _ _))) => ({ server with cache := cache }, .ok [])
  | (cache, .error error) => ({ server with cache := cache }, .error error)

def allowOrigin (origin : Bytes) (rule : CorsRule) : List Header :=
  [(ascii "Access-Control-Allow-Origin", origin),
    (ascii "Access-Control-Allow-Methods",
      join (rule.allowedMethods.items.map Sized.items) (ascii ", ")),
    (ascii "Access-Control-Allow-Credentials", ascii "true")]

def exposedHeaders (rule : CorsRule) : List Header :=
  if rule.exposeHeaders.items = [] then []
  else
    [(ascii "Access-Control-Expose-Headers",
      join (rule.exposeHeaders.items.map Sized.items) (ascii ", "))]

/-- What a preflight that a rule permits is answered with. -/
def permitted (request : CorsRequest) (origin : Bytes) (decision : CorsDecision) : HttpResponse where
  status := 200
  headers :=
    commonHeaders (newRequestId request.drawn) ++ allowOrigin origin decision.rule ++
    [(ascii "Vary", ascii "Origin, Access-Control-Request-Method, Access-Control-Request-Headers")] ++
    (if decision.allowedHeaders = [] then []
      else [(ascii "Access-Control-Allow-Headers", join decision.allowedHeaders (ascii ", "))]) ++
    exposedHeaders decision.rule ++
    (if 0 ≤ decision.rule.maxAgeSeconds then
      [(ascii "Access-Control-Max-Age", decimal decision.rule.maxAgeSeconds.toInt.toNat)] else [])

/-- Which of the three did not match. -/
def refusal (rules : List CorsRule) (query : CorsQuery) : Bytes :=
  ascii "CORSResponse: This CORS request is not allowed. " ++
    (if query.requestedHeaders ≠ [] ∧ (matchCors rules { query with requestedHeaders := [] }).isSome then
      ascii "No rule permits header \x27" ++ join query.requestedHeaders (ascii ", ") ++
        ascii "\x27 for origin \x27" ++ query.origin ++ ascii "\x27."
    else
      ascii "No rule permits origin \x27" ++ query.origin ++ ascii "\x27 with method " ++
        query.method ++ ascii ".")

def handlePreflight (server : Server) (request : CorsRequest) :
    Server × Except HandlerError HttpResponse :=
  let origin := request.http.getHeader (ascii "origin")
  let method := request.http.getHeader (ascii "access-control-request-method")
  if origin = [] ∨ method = [] then
    (server, .error (.s3 ⟨.invalidRequest, ascii "A preflight needs the Origin and " ++
      ascii "Access-Control-Request-Method headers."⟩))
  else if request.bucket = [] then
    (server, forbidden (ascii "CORSResponse: The service root has no CORS configuration."))
  else
    match bucketRules config ticks server request.bucket with
    | (server, .error error) => (server, .error error)
    | (server, .ok rules) =>
      if rules = [] then
        (server, forbidden (ascii "CORSResponse: CORS is not enabled for this bucket."))
      else
        let query : CorsQuery :=
          { origin := origin
            method := method
            requestedHeaders := splitRequestedHeaders
              (request.http.getHeader (ascii "access-control-request-headers")) }
        match matchCors rules query with
        | none => (server, forbidden (refusal rules query))
        | some decision => (server, .ok (permitted request origin decision))

/-- The headers `applyCorsHeaders` adds to any response. -/
def applyCorsHeaders (server : Server) (request : CorsRequest) :
    Server × Except HandlerError (List Header) :=
  let origin := request.http.getHeader (ascii "origin")
  let vary : List Header := [(ascii "Vary", ascii "Origin")]
  if origin = [] then (server, .ok [])
  else if request.bucket = [] then (server, .ok vary)
  else
    match bucketRules config ticks server request.bucket with
    | (server, .error error) => (server, .error error)
    | (server, .ok rules) =>
      match matchCors rules { origin := origin, method := request.method } with
      | none => (server, .ok vary)
      | some decision =>
        (server, .ok (vary ++ allowOrigin origin decision.rule ++ exposedHeaders decision.rule))

end Handlers

end MonoBucket.FrontDoors

/-
Error documents

`serve` turns whatever ends a handler early into an S3 error document: the protocol's code
and the message that was thrown, or the code's own where there is none. What is no error of
the protocol or of the storage engine is an internal error, and its text stays in the log.
-/

import MonoBucket.Server.DeleteObjects
import MonoBucket.Server.ListObjects

namespace MonoBucket.FrontDoors

open S3 Codec Xml

/-! ### What ends a handler early -/

/-- An error of the modelled code the handlers call, or a code one of the handlers throws. -/
inductive Failure
  | handler (error : HandlerError)
  | invalidPartOrder
  | methodNotAllowed
  | noSuchBucketPolicy
  | noSuchCorsConfiguration
  /-- An exception of the standard library. -/
  | unexpected
  deriving DecidableEq

/-- `S3ErrorInfo`. -/
structure ErrorInfo where
  code : Bytes
  status : Nat
  message : Bytes

def internalError : ErrorInfo where
  code := ascii "InternalError"
  status := 500
  message := S3ErrorCode.message .internalError

/-- `describe(code)`. -/
def describe (code : S3ErrorCode) : ErrorInfo where
  code :=
    match code with
    | .accessDenied => ascii "AccessDenied"
    | .accessForbidden => ascii "AccessForbidden"
    | .badDigest => ascii "BadDigest"
    | .bucketAlreadyOwnedByYou => ascii "BucketAlreadyOwnedByYou"
    | .entityTooLarge => ascii "EntityTooLarge"
    | .incompleteBody => ascii "IncompleteBody"
    | .internalError => ascii "InternalError"
    | .invalidAccessKeyId => ascii "InvalidAccessKeyId"
    | .invalidArgument => ascii "InvalidArgument"
    | .invalidBucketName => ascii "InvalidBucketName"
    | .invalidDigest => ascii "InvalidDigest"
    | .invalidRequest => ascii "InvalidRequest"
    | .keyTooLong => ascii "KeyTooLongError"
    | .malformedXML => ascii "MalformedXML"
    | .missingSecurityHeader => ascii "MissingSecurityHeader"
    | .noSuchBucket => ascii "NoSuchBucket"
    | .noSuchKey => ascii "NoSuchKey"
    | .noSuchUpload => ascii "NoSuchUpload"
    | .notImplemented => ascii "NotImplemented"
    | .requestTimeTooSkewed => ascii "RequestTimeTooSkewed"
    | .signatureDoesNotMatch => ascii "SignatureDoesNotMatch"
    | .xAmzContentSHA256Mismatch => ascii "XAmzContentSHA256Mismatch"
  status :=
    match code with
    | .accessDenied | .accessForbidden | .invalidAccessKeyId | .requestTimeTooSkewed
    | .signatureDoesNotMatch => 403
    | .noSuchBucket | .noSuchKey | .noSuchUpload => 404
    | .bucketAlreadyOwnedByYou => 409
    | .internalError => 500
    | .notImplemented => 501
    | _ => 400
  message := code.message

/-- `describe(fromStorage(code))`. -/
def describeStorage (code : StorageErrorCode) : ErrorInfo :=
  match code with
  | .noSuchBucket => describe .noSuchBucket
  | .noSuchKey => describe .noSuchKey
  | .noSuchUpload => describe .noSuchUpload
  | .bucketAlreadyExists =>
    ⟨storageErrorName code, 409, ascii "The requested bucket name is not available."⟩
  | .bucketNotEmpty =>
    ⟨storageErrorName code, 409, ascii "The bucket you tried to delete is not empty."⟩
  | .invalidPart =>
    ⟨storageErrorName code, 400, ascii "One or more of the specified parts could not be found, or " ++
      ascii "the entity tag did not match the part\x27s entity tag."⟩
  | .quotaExceeded =>
    ⟨storageErrorName code, 403,
      ascii "The write exceeds the storage allocation of the specified bucket."⟩
  | .quotaBelowUsage => describe .invalidArgument
  | .objectTooLarge => describe .entityTooLarge
  | .checksumMismatch => describe .badDigest
  | .insufficientCapacity =>
    ⟨storageErrorName code, 507,
      ascii "The server has no remaining allocatable capacity for this bucket."⟩
  | .corruption | .io | .internal => internalError

/-- What is known of a failure, and the message it came with. -/
def Failure.info : Failure → ErrorInfo × Bytes
  | .handler (.s3 exception) => (describe exception.code, exception.message)
  | .handler (.storage (.storage code what)) => (describeStorage code, what)
  | .handler _ | .unexpected => (internalError, [])
  | .invalidPartOrder =>
    (⟨ascii "InvalidPartOrder", 400, ascii "The list of parts was not in ascending order. Parts " ++
      ascii "must be ordered by part number."⟩, [])
  | .methodNotAllowed =>
    (⟨ascii "MethodNotAllowed", 405,
      ascii "The specified method is not allowed against this resource."⟩, [])
  | .noSuchBucketPolicy =>
    (⟨ascii "NoSuchBucketPolicy", 404, ascii "The bucket policy does not exist."⟩, [])
  | .noSuchCorsConfiguration =>
    (⟨ascii "NoSuchCORSConfiguration", 404, ascii "The CORS configuration does not exist."⟩, [])

/-! ### Responses -/

/-- A response and its body. -/
abbrev Reply := HttpResponse × Bytes

/-- The status as the HTTP library has it; what it has none for is an internal error. -/
def toStatus (status : Nat) : Nat :=
  if status ∈ [200, 204, 206, 304, 400, 403, 404, 405, 409, 411, 412, 416, 500, 501, 503] then status
  else 500

def renderError (info : ErrorInfo) (message resource requestId : Bytes) : Bytes :=
  written (ascii "Error") []
    ([.element (ascii "Code") info.code,
      .element (ascii "Message") (if message = [] then info.message else message)] ++
    elementIfSet (ascii "Resource") resource ++ [.element (ascii "RequestId") requestId])

/-- `errorResponse`, with its document. -/
def errorReply (info : ErrorInfo) (message resource requestId : Bytes) : Reply :=
  ({ status := toStatus info.status
     contentType := ascii "application/xml"
     headers := commonHeaders requestId },
    renderError info message resource requestId)

/-- `emptyResponse`, with the headers a handler adds. -/
def emptyResponse (status : Nat) (headers : List Header) (requestId : Bytes) : Reply :=
  ({ status := status, headers := headers ++ commonHeaders requestId }, [])

end MonoBucket.FrontDoors

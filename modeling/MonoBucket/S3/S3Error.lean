/-
S3 error responses

What handler code throws: the protocol's code and the message put in the
response document. Only the codes the modelled handlers throw are listed.
-/

import MonoBucket.Storage.MetadataStore

namespace MonoBucket.S3

inductive S3ErrorCode
  | accessDenied
  | accessForbidden
  | badDigest
  | bucketAlreadyOwnedByYou
  | entityTooLarge
  | incompleteBody
  | internalError
  | invalidAccessKeyId
  | invalidArgument
  | invalidBucketName
  | invalidDigest
  | invalidRequest
  | keyTooLong
  | malformedXML
  | missingSecurityHeader
  | noSuchBucket
  | noSuchKey
  | noSuchUpload
  | notImplemented
  | requestTimeTooSkewed
  | signatureDoesNotMatch
  | xAmzContentSHA256Mismatch
  deriving DecidableEq, Repr

/-- `describe(code).message`. -/
def S3ErrorCode.message : S3ErrorCode → Bytes
  | .accessDenied => ascii "Access Denied"
  | .accessForbidden => ascii "CORSResponse: This CORS request is not allowed."
  | .badDigest => ascii "The Content-MD5 you specified did not match what we received."
  | .bucketAlreadyOwnedByYou =>
    ascii "Your previous request to create the named bucket succeeded and you already own it."
  | .entityTooLarge => ascii "Your proposed upload exceeds the maximum allowed size."
  | .incompleteBody =>
    ascii "You did not provide the number of bytes specified by the Content-Length HTTP header."
  | .internalError => ascii "We encountered an internal error."
  | .invalidAccessKeyId =>
    ascii "The AWS access key id you provided does not exist in our records."
  | .invalidArgument => ascii "Invalid Argument"
  | .invalidBucketName => ascii "The specified bucket is not valid."
  | .invalidDigest => ascii "The Content-MD5 you specified is not valid."
  | .invalidRequest => ascii "Invalid Request"
  | .keyTooLong => ascii "Your key is too long."
  | .malformedXML =>
    ascii "The XML you provided was not well-formed or did not validate against our published schema."
  | .missingSecurityHeader => ascii "Your request is missing a required header."
  | .noSuchBucket => ascii "The specified bucket does not exist."
  | .noSuchKey => ascii "The specified key does not exist."
  | .noSuchUpload =>
    ascii "The specified multipart upload does not exist. The upload id may be invalid, " ++
      ascii "or the upload may have been aborted or completed."
  | .notImplemented =>
    ascii "A header or query parameter you provided implies functionality that is not implemented."
  | .requestTimeTooSkewed =>
    ascii "The difference between the request time and the current time is too large."
  | .signatureDoesNotMatch =>
    ascii "The request signature we calculated does not match the signature you provided."
  | .xAmzContentSHA256Mismatch =>
    ascii "The provided x-amz-content-sha256 header does not match what was computed."

structure S3Exception where
  code : S3ErrorCode
  message : Bytes
  deriving DecidableEq

/-- What ends a handler early: an error response it chose, a storage error it
let through, an exception of the JSON library nobody catches, or an error the
console answers. -/
inductive HandlerError
  | s3 (exception : S3Exception)
  | storage (error : StoreError)
  | json (what : Bytes)
  | console (what : Bytes)
  deriving DecidableEq

/-- `throw S3Exception(code)`, with the code's own message. -/
def throwCode {α : Type} (code : S3ErrorCode) : Except S3Exception α :=
  .error ⟨code, code.message⟩

/-- `throw S3Exception(MalformedXML, message)`. -/
def malformedXml {α : Type} (message : Bytes) : Except S3Exception α :=
  .error ⟨.malformedXML, message⟩

def invalidArgument {α : Type} (message : Bytes) : Except S3Exception α :=
  .error ⟨.invalidArgument, message⟩

end MonoBucket.S3

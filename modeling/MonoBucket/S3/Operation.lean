/-
The operations of the S3 API

What a request was classified as, whether that only reads, and the permission a
signed identity needs for it.
-/

import MonoBucket.Core.Identity

namespace MonoBucket.S3

inductive Operation
  | listBuckets
  | createBucket
  | deleteBucket
  | headBucket
  | listObjectsV1
  | listObjectsV2
  | listMultipartUploads
  | deleteObjects
  | getBucketLocation
  | getBucketVersioning
  | getBucketPolicy
  | putBucketPolicy
  | deleteBucketPolicy
  | getBucketAcl
  | putBucketAcl
  | getBucketCors
  | putBucketCors
  | deleteBucketCors
  | preflight
  | getObject
  | headObject
  | putObject
  | deleteObject
  | createMultipartUpload
  | uploadPart
  | listParts
  | completeMultipartUpload
  | abortMultipartUpload
  | unsupported
  | methodNotAllowed
  deriving DecidableEq, Repr

def isReadOnly : Operation → Bool
  | .listBuckets | .headBucket | .listObjectsV1 | .listObjectsV2 | .listMultipartUploads
  | .getBucketLocation | .getBucketVersioning | .getBucketPolicy | .getBucketAcl | .getBucketCors
  | .getObject | .headObject | .listParts => true
  | _ => false

def permissionFor : Operation → Permission
  | .listBuckets | .headBucket | .listObjectsV1 | .listObjectsV2 | .listMultipartUploads
  | .getBucketLocation | .getBucketVersioning | .getBucketPolicy | .getBucketAcl
  | .getBucketCors => .bucketRead
  | .createBucket | .deleteBucket | .putBucketPolicy | .deleteBucketPolicy | .putBucketAcl
  | .putBucketCors | .deleteBucketCors => .bucketWrite
  | .getObject | .headObject | .listParts => .objectRead
  | .putObject | .deleteObject | .deleteObjects | .createMultipartUpload | .uploadPart
  | .completeMultipartUpload | .abortMultipartUpload => .objectWrite
  | .preflight => .objectRead
  | .unsupported | .methodNotAllowed => .objectWrite

/-- An operation that only reads never needs a permission to write. -/
theorem isReadOnly_permissionFor {operation : Operation} (h : isReadOnly operation = true) :
    permissionFor operation = .bucketRead ∨ permissionFor operation = .objectRead := by
  cases operation <;> simp_all [isReadOnly, permissionFor]

end MonoBucket.S3

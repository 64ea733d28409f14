/-
The metadata schema

The records the store keeps, field for field. A field that is written into the
row is a `Text` or a sized container; a field that is recovered from the row's
key (a bucket's name, an object's key) is plain bytes.

`Checksum` carries the one relation between its fields that every writer
maintains: without an algorithm there is no value and no part count.
-/

import MonoBucket.Lib.OrderedMap
import MonoBucket.Storage.Bytes

namespace MonoBucket

/-! ### Ordered containers -/

/-- A `std::map`: bindings in key order, as many as a `size_t` counts. -/
structure SizedMap (κ ν : Type) [LinearOrder κ] where
  bindings : OrderedMap κ ν
  fits : bindings.entries.length < 2 ^ 64

namespace SizedMap

variable {κ ν : Type} [LinearOrder κ]

instance [DecidableEq ν] : DecidableEq (SizedMap κ ν) := fun first second =>
  decidable_of_iff (first.bindings = second.bindings)
    ⟨fun h => by cases first; cases second; cases h; rfl, fun h => by rw [h]⟩

@[ext]
theorem ext {first second : SizedMap κ ν} (h : first.bindings = second.bindings) :
    first = second := by
  cases first
  cases second
  cases h
  rfl

def empty : SizedMap κ ν := ⟨OrderedMap.empty, Sized.fits_nil⟩

instance : Inhabited (SizedMap κ ν) := ⟨empty⟩

/-- The bindings as a sized list, in key order. -/
def toSized (map : SizedMap κ ν) : Sized (κ × ν) := ⟨map.bindings.entries, map.fits⟩

/-- Bindings emplaced in turn: of two for one key the first stays. -/
def ofEntries (entries : Sized (κ × ν)) : SizedMap κ ν :=
  ⟨OrderedMap.empty.emplaceAll entries.items,
    lt_of_le_of_lt (OrderedMap.length_emplaceAll_le _ _) (by simpa [OrderedMap.empty] using entries.fits)⟩

@[simp]
theorem ofEntries_toSized (map : SizedMap κ ν) : ofEntries map.toSized = map := by
  ext1
  exact map.bindings.emplaceAll_entries

end SizedMap

/-! ### Enumerations -/

/-- What a user is allowed to be. -/
inductive Role
  | administrator
  | operator
  | readOnly
  deriving DecidableEq, Repr

/-- What a user may do in one particular bucket. -/
inductive BucketAccess
  | none
  | read
  | write
  deriving DecidableEq, Repr

/-- How much of a write must reach stable storage before it is acknowledged. -/
inductive Durability
  | none
  | relaxed
  | strict
  deriving DecidableEq, Repr

inductive ChecksumAlgorithm
  | crc32
  | crc32c
  | crc64Nvme
  | sha1
  | sha256
  deriving DecidableEq, Repr

/-! ### Parts of records -/

/-- User-supplied `x-amz-meta-*` headers, minus the prefix. -/
abbrev UserMetadata := SizedMap Text Text

/-- The response headers a client attaches at write time. Empty means the
header was never set. -/
structure ContentHeaders where
  cacheControl : Text := .empty
  contentDisposition : Text := .empty
  contentEncoding : Text := .empty
  contentLanguage : Text := .empty
  expires : Text := .empty
  deriving DecidableEq

theorem absent_none :
    (none : Option ChecksumAlgorithm) = none → (Sized.empty : Text) = .empty ∧ (0 : UInt32) = 0 := by
  simp

/-- A checksum as it is stored: raw bytes and the algorithm they came from. -/
structure Checksum where
  algorithm : Option ChecksumAlgorithm := .none
  value : Text := .empty
  parts : UInt32 := 0
  /-- Nothing was computed, so there is nothing to keep. -/
  absent : algorithm = .none → value = .empty ∧ parts = 0 := by
    first | exact absent_none | simp
  deriving DecidableEq

/-- One rule of a bucket's CORS configuration. A negative `maxAgeSeconds` means
the rule sets none. -/
structure CorsRule where
  id : Text := .empty
  allowedOrigins : Sized Text := .empty
  allowedMethods : Sized Text := .empty
  allowedHeaders : Sized Text := .empty
  exposeHeaders : Sized Text := .empty
  maxAgeSeconds : Int32 := -1
  deriving DecidableEq

/-- What an account may reach: the fallback, and the buckets named explicitly. -/
structure BucketGrants where
  fallback : BucketAccess := .write
  exceptions : SizedMap Text BucketAccess := .empty
  deriving DecidableEq

/-! ### Records -/

structure BucketRecord where
  name : Bytes
  createdAt : TimestampMs := 0
  publicRead : Bool := false
  publicList : Bool := false
  policy : Text := .empty
  cors : Sized CorsRule := .empty
  quotaBytes : UInt64 := 0
  /-- Unset means "follow the server". -/
  durability : Option Durability := .none
  deriving DecidableEq

structure AdminRecord where
  username : Text := .empty
  passwordHash : Text := .empty
  createdAt : TimestampMs := 0
  updatedAt : TimestampMs := 0
  deriving DecidableEq

structure InstanceSettings where
  maxUploadBytes : UInt64 := 0
  deriving DecidableEq

structure AccessKeyRecord where
  accessKeyId : Bytes
  secretKey : Text := .empty
  name : Text := .empty
  owner : Text := .empty
  createdAt : TimestampMs := 0
  rotatedAt : TimestampMs := 0
  deriving DecidableEq

structure UserRecord where
  username : Bytes
  passwordHash : Text := .empty
  role : Role := .readOnly
  disabled : Bool := false
  createdAt : TimestampMs := 0
  updatedAt : TimestampMs := 0
  passwordChangedAt : TimestampMs := 0
  buckets : BucketGrants := {}
  deriving DecidableEq

structure AuditRecord where
  sequence : UInt64 := 0
  atMs : TimestampMs := 0
  actor : Text := .empty
  action : Text := .empty
  target : Text := .empty
  allowed : Bool := true
  detail : Text := .empty
  deriving DecidableEq

theorem fits_octetStream : (ascii "application/octet-stream").length < 2 ^ 64 := by decide

structure ObjectRecord where
  key : Bytes
  blobId : Text
  size : UInt64 := 0
  etag : Text := .empty
  sha256 : Text := .empty
  contentType : Text := ⟨ascii "application/octet-stream", fits_octetStream⟩
  lastModified : TimestampMs := 0
  userMetadata : UserMetadata := .empty
  content : ContentHeaders := {}
  checksum : Checksum := {}
  deriving DecidableEq

structure PartRecord where
  partNumber : UInt32
  blobId : Text
  size : UInt64 := 0
  etag : Text := .empty
  uploadedAt : TimestampMs := 0
  checksum : Checksum := {}
  deriving DecidableEq

structure UploadRecord where
  uploadId : Bytes
  bucket : Text
  key : Text
  contentType : Text := ⟨ascii "application/octet-stream", fits_octetStream⟩
  createdAt : TimestampMs := 0
  userMetadata : UserMetadata := .empty
  content : ContentHeaders := {}
  checksumAlgorithm : Option ChecksumAlgorithm := .none
  deriving DecidableEq

-- Short texts that the examples of several modules name.
theorem fits_photos : (ascii "photos").length < 2 ^ 64 := by decide

theorem fits_blob : (ascii "blob").length < 2 ^ 64 := by decide

theorem fits_first : (ascii "first").length < 2 ^ 64 := by decide

theorem fits_star : (ascii "*").length < 2 ^ 64 := by decide

theorem fits_a : (ascii "a").length < 2 ^ 64 := by decide

theorem fits_cat : (ascii "cat").length < 2 ^ 64 := by decide

theorem fits_one : (ascii "one").length < 2 ^ 64 := by decide

theorem fits_b : (ascii "b").length < 2 ^ 64 := by decide

theorem fits_p : (ascii "p").length < 2 ^ 64 := by decide

end MonoBucket

/-
Listing uploads

A page of `ListMultipartUploads` walks the rows a bucket's uploads have by key,
from the marker pair on, and loads each upload by the id behind the last
separator of its row.
-/

import Mathlib.Data.List.DropRight
import MonoBucket.Storage.MetadataStore

namespace MonoBucket

open Codec

structure ListUploadsRequest where
  keyPrefix : Bytes := []
  keyMarker : Bytes := []
  uploadIdMarker : Bytes := []
  maxUploads : UInt32 := 1000
  deriving DecidableEq

structure ListUploadsResult where
  uploads : List UploadRecord := []
  truncated : Bool := false
  nextKeyMarker : Bytes := []
  nextUploadIdMarker : Bytes := []
  deriving DecidableEq

namespace Keys

structure UploadKeyParts where
  key : Bytes
  uploadId : Bytes
  deriving DecidableEq

/-- The key and the id of a row, split at the last separator. -/
def uploadKeyParts (stored bucketName : Bytes) : Option UploadKeyParts :=
  match afterPrefix (uploadByKeyPrefix bucketName) stored with
  | none => none
  | some rest =>
    if separator ∈ rest then
      some ⟨(rest.rdropWhile fun byte => byte ≠ separator).dropLast,
        rest.rtakeWhile fun byte => byte ≠ separator⟩
    else none

/-- A row parses to the key and the id it was built from. -/
theorem uploadKeyParts_uploadByKey {bucketName key uploadId : Bytes}
    (hid : separator ∉ uploadId) :
    uploadKeyParts (uploadByKey bucketName key uploadId) bucketName = some ⟨key, uploadId⟩ := by
  have hrest : afterPrefix (uploadByKeyPrefix bucketName) (uploadByKey bucketName key uploadId) =
      some (key ++ [separator] ++ uploadId) := by
    rw [afterPrefix_eq_some_iff, uploadByKey]
    simp
  have hall : ∀ byte ∈ uploadId.reverse, (decide (byte ≠ separator)) = true :=
    fun byte hbyte => decide_eq_true fun hequal => hid (hequal ▸ List.mem_reverse.mp hbyte)
  have hreverse : (key ++ [separator] ++ uploadId).reverse =
      uploadId.reverse ++ separator :: key.reverse := by simp
  have hdrop : ((key ++ [separator] ++ uploadId).rdropWhile fun byte => byte ≠ separator) =
      key ++ [separator] := by
    rw [List.rdropWhile, hreverse, List.dropWhile_append_of_pos hall]
    simp
  have htake : ((key ++ [separator] ++ uploadId).rtakeWhile fun byte => byte ≠ separator) =
      uploadId := by
    rw [List.rtakeWhile, hreverse, List.takeWhile_append_of_pos hall]
    simp
  rw [uploadKeyParts, hrest]
  dsimp only
  rw [if_pos (by simp), hdrop, htake, List.dropLast_concat]

end Keys

section Page

variable (rows : Rows) (bucket : Bytes) (request : ListUploadsRequest)

/-- Both markers are exclusive. -/
def beforeMarker (parts : Keys.UploadKeyParts) : Bool :=
  request.keyMarker ≠ [] ∧
    (parts.key < request.keyMarker ∨
      parts.key = request.keyMarker ∧ parts.uploadId ≤ request.uploadIdMarker)

/-- The loop of `listUploads` over the rows its iterator visits. -/
def listUploadsLoop (result : ListUploadsResult) :
    List (Bytes × Bytes) → Except StoreError ListUploadsResult
  | [] => .ok result
  | row :: rest =>
    if ¬ Keys.uploadByKeyPrefix bucket <+: row.1 then .ok result
    else
      match Keys.uploadKeyParts row.1 bucket with
      | none => listUploadsLoop result rest
      | some parts =>
        if beforeMarker request parts then listUploadsLoop result rest
        else if request.keyPrefix ≠ [] ∧ ¬ request.keyPrefix <+: parts.key then
          if request.keyPrefix < parts.key then .ok result else listUploadsLoop result rest
        else if result.uploads.length = request.maxUploads.toNat then
          .ok { result with truncated := true }
        else do
          match ← loadUpload rows parts.uploadId with
          | none => listUploadsLoop result rest
          | some upload =>
            listUploadsLoop
              { result with
                uploads := result.uploads ++ [upload]
                nextKeyMarker := upload.key.items
                nextUploadIdMarker := upload.uploadId }
              rest

/-- Where a page starts. -/
def uploadSeek : Bytes :=
  if request.keyMarker ≠ [] then
    Keys.uploadByKey bucket request.keyMarker request.uploadIdMarker
  else if request.keyPrefix ≠ [] then Keys.uploadByKeyPrefix bucket ++ request.keyPrefix
  else Keys.uploadByKeyPrefix bucket

end Page

def listUploads (rows : Rows) (bucket : Bytes) (request : ListUploadsRequest) :
    Except StoreError ListUploadsResult := do
  requireBucket rows bucket
  if request.maxUploads = 0 then pure {}
  else
    let front := Keys.uploadByKeyPrefix bucket
    let result ← listUploadsLoop rows bucket request {}
      (rows.seek (Keys.upperBound front) (uploadSeek bucket request))
    if result.truncated then pure result
    else pure { result with nextKeyMarker := [], nextUploadIdMarker := [] }

end MonoBucket

/-
The S3 object cache

What `statObject` puts in the cache for an object, and what it reads back: the
whole record, in an encoding with a version byte of its own. Reading back what
was put gives the record. An entry that cannot be read is no error; the store is
asked instead.
-/

import MonoBucket.S3.BucketCache
import MonoBucket.Storage.Truncation

namespace MonoBucket.S3

open Codec

/-! ### Entries -/

def kCachedObjectVersion : UInt8 := 3

/-- What `statObject` puts in the cache for the object under a key. -/
def encodeCachedObject (key : Text) (record : ObjectRecord) : Bytes :=
  [Writer.u8 kCachedObjectVersion, Writer.string key, Writer.string record.blobId,
    Writer.varint record.size, Writer.string record.etag, Writer.string record.sha256,
    Writer.string record.contentType, Writer.timestamp record.lastModified,
    encodeMetadata record.userMetadata, Codec.encodeChecksum record.checksum,
    encodeContentHeaders record.content].flatten

def expectCachedVersion : Read Unit := do
  let version ← u8
  if version = kCachedObjectVersion then pure () else throw (.unsupportedVersion version)

def decodeCachedObjectFields : Read ObjectRecord := do
  expectCachedVersion
  let key ← string
  let blobId ← string
  let size ← varint
  let etag ← string
  let sha256 ← string
  let contentType ← string
  let lastModified ← timestamp
  let userMetadata ← decodeMetadata
  let checksum ← Codec.decodeChecksum
  let content ← decodeContentHeaders
  pure
    { key := key.items
      blobId := blobId
      size := size
      etag := etag
      sha256 := sha256
      contentType := contentType
      lastModified := lastModified
      userMetadata := userMetadata
      content := content
      checksum := checksum }

/-- Nothing for an entry of another version or one that cannot be read. -/
def decodeCachedObject (stored : Bytes) : Option ObjectRecord :=
  (runOn decodeCachedObjectFields stored).toOption

theorem decodes_expectCachedVersion :
    Decodes expectCachedVersion (Writer.u8 kCachedObjectVersion) () := by
  have h : Decodes expectCachedVersion (Writer.u8 kCachedObjectVersion ++ []) () :=
    (decodes_u8 _).bind (decodes_pure ())
  rwa [List.append_nil] at h

theorem decodes_cachedObject (key : Text) (record : ObjectRecord) :
    Decodes decodeCachedObjectFields (encodeCachedObject key record)
      { record with key := key.items } := by
  apply decodes_expectCachedVersion.bind
  apply (decodes_string _).bind
  apply (decodes_string _).bind
  apply (decodes_varint _).bind
  apply (decodes_string _).bind
  apply (decodes_string _).bind
  apply (decodes_string _).bind
  apply (decodes_timestamp _).bind
  apply (decodes_metadata _).bind
  apply (decodes_checksum _).bind
  apply (decodes_contentHeaders _).bind
  exact decodes_pure _

/-- An entry gives back the record it was filled from. -/
theorem decodeCachedObject_encodeCachedObject {key : Text} {record : ObjectRecord}
    (hkey : record.key = key.items) :
    decodeCachedObject (encodeCachedObject key record) = some record := by
  have hdecodes := decodes_cachedObject key record
  rw [← hkey] at hdecodes
  rw [decodeCachedObject, hdecodes.runOn]
  rfl

theorem steady_cachedObject : Steady decodeCachedObjectFields := by
  apply (steady_u8.bind fun _ => (steady_pure _).ite (steady_throw _)).bind
  intro _
  refine steady_string.bind fun _ => steady_string.bind fun _ => steady_varint.bind fun _ => ?_
  refine steady_string.bind fun _ => steady_string.bind fun _ => steady_string.bind fun _ => ?_
  refine steady_timestamp.bind fun _ => steady_metadata.bind fun _ => steady_checksum.bind fun _ => ?_
  exact steady_contentHeaders.bind fun _ => steady_pure _

/-- An entry gives the record that the row under the same key gives, and only a whole
entry of this version gives anything. -/
structure EntryExact (key : Text) (record : ObjectRecord) : Prop where
  entry : decodeCachedObject (encodeCachedObject key record) = some { record with key := key.items }
  row : decodeObject key.items (encodeObject record) = .ok { record with key := key.items }
  truncated : ∀ front, front <+: encodeCachedObject key record →
    front ≠ encodeCachedObject key record → decodeCachedObject front = none
  version : ∀ version rest, version ≠ kCachedObjectVersion →
    decodeCachedObject (version :: rest) = none

theorem entryExact (key : Text) (record : ObjectRecord) : EntryExact key record where
  entry := @decodeCachedObject_encodeCachedObject key { record with key := key.items } rfl
  row := decodeObject_encodeObject { record with key := key.items }
  truncated front hfront hcut := by
    obtain ⟨error, herror⟩ :=
      steady_cachedObject.runOn_error (decodes_cachedObject key record) hfront hcut
    rw [decodeCachedObject, herror]
    rfl
  version version rest hversion := by
    have hrefused : Rejects decodeCachedObjectFields [version] := by
      refine Rejects.bind ?_
      have hread : Rejects expectCachedVersion (Writer.u8 version ++ []) := by
        apply (decodes_u8 version).bind_rejects
        rw [if_neg hversion]
        exact fun _ _ _ => ⟨_, rfl⟩
      exact hread
    obtain ⟨error, herror⟩ := (@Rejects.append _ _ _ rest hrefused).runOn
    rw [decodeCachedObject, ← List.singleton_append, herror]
    rfl

/-! ### Keys -/

/-- A bucket's name has no slash, so an entry's key says which object it is. -/
theorem objectCacheKey_inj {bucket other key otherKey : Bytes}
    (hbucket : isValidBucketName bucket = true) (hother : isValidBucketName other = true)
    (h : objectCacheKey bucket key = objectCacheKey other otherKey) :
    bucket = other ∧ key = otherKey := by
  have hslash : ∀ {name : Bytes}, isValidBucketName name = true → slash ∉ name :=
    fun hname => not_mem_of_isValidBucketName hname (by decide)
  simp only [objectCacheKey, List.append_assoc, List.singleton_append] at h
  exact Keys.append_mark_inj (hslash hbucket) (hslash hother) (List.append_cancel_left h)

theorem objectCacheKey_ne_bucketCacheKey (bucket key name : Bytes) :
    objectCacheKey bucket key ≠ bucketCacheKey name := by
  intro h
  simp only [objectCacheKey, bucketCacheKey, List.append_assoc] at h
  exact absurd (List.append_inj_left h rfl) (by decide)

end MonoBucket.S3

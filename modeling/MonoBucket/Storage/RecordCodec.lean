/-
Encoding and decoding the stored records

Every row is a version byte followed by the record's fields; a field added
after the format shipped is at the end and is read only when the row reaches
that far. An encoder here is the list of what its fields write, flattened, so
the proof that a decoder undoes it takes one step a field.

Two decoders bound a list whose writer does not: the entries of a CORS rule and
the named buckets of an account's grants. A record is read back as it was
written exactly when it stays within those bounds.
-/

import MonoBucket.Storage.Records
import MonoBucket.Storage.Codec

namespace MonoBucket

open Codec

/-! ### Names of enumerators -/

/-- `toString(Role)`. -/
def Role.toText : Role → Text
  | administrator => ⟨ascii "administrator", by decide⟩
  | operator => ⟨ascii "operator", by decide⟩
  | readOnly => ⟨ascii "readonly", by decide⟩

def parseRole (name : Text) : Option Role :=
  if name.items = ascii "administrator" then some .administrator
  else if name.items = ascii "operator" then some .operator
  else if name.items = ascii "readonly" then some .readOnly
  else none

@[simp]
theorem parseRole_toText (role : Role) : parseRole role.toText = some role := by
  cases role <;> decide

/-- `toString(BucketAccess)`. -/
def BucketAccess.toText : BucketAccess → Text
  | none => ⟨ascii "none", by decide⟩
  | read => ⟨ascii "read", by decide⟩
  | write => ⟨ascii "write", by decide⟩

def parseBucketAccess (name : Text) : Option BucketAccess :=
  if name.items = ascii "none" then some .none
  else if name.items = ascii "read" then some .read
  else if name.items = ascii "write" then some .write
  else none

@[simp]
theorem parseBucketAccess_toText (access : BucketAccess) :
    parseBucketAccess access.toText = some access := by
  cases access <;> decide

/-- `static_cast<std::uint8_t>(Durability)`. -/
def Durability.level : Durability → UInt8
  | none => 0
  | relaxed => 1
  | strict => 2

/-- The cast back, refused past `Durability::Strict`. -/
def Durability.ofLevel (level : UInt8) : Option Durability :=
  if level = 0 then some .none
  else if level = 1 then some .relaxed
  else if level = 2 then some .strict
  else Option.none

@[simp]
theorem Durability.ofLevel_level (durability : Durability) :
    ofLevel durability.level = some durability := by
  cases durability <;> decide

/-- The tag of a checksum algorithm, one past its enumerator. -/
def ChecksumAlgorithm.tag : ChecksumAlgorithm → UInt8
  | crc32 => 1
  | crc32c => 2
  | crc64Nvme => 3
  | sha1 => 4
  | sha256 => 5

/-- The algorithm a tag names, refused past `ChecksumAlgorithm::Sha256`. -/
def ChecksumAlgorithm.ofTag (tag : UInt8) : Option ChecksumAlgorithm :=
  if tag = 1 then some .crc32
  else if tag = 2 then some .crc32c
  else if tag = 3 then some .crc64Nvme
  else if tag = 4 then some .sha1
  else if tag = 5 then some .sha256
  else none

@[simp]
theorem ChecksumAlgorithm.ofTag_tag (algorithm : ChecksumAlgorithm) :
    ofTag algorithm.tag = some algorithm := by
  cases algorithm <;> decide

theorem ChecksumAlgorithm.tag_ne_zero (algorithm : ChecksumAlgorithm) : algorithm.tag ≠ 0 := by
  cases algorithm <;> decide

/-! ### What the decoders bound -/

/-- The rules of one bucket. -/
def maxCorsRules : UInt64 := 100

/-- Each list of one rule. -/
def maxCorsEntries : UInt64 := 1000

/-- The buckets an account's grants name. -/
def maxGrantExceptions : UInt64 := 1000000

/-- Every list of a rule is short enough to be read back. -/
def CorsRule.ListsFit (rule : CorsRule) : Prop :=
  rule.allowedOrigins.size ≤ maxCorsEntries ∧ rule.allowedMethods.size ≤ maxCorsEntries ∧
    rule.allowedHeaders.size ≤ maxCorsEntries ∧ rule.exposeHeaders.size ≤ maxCorsEntries

instance (rule : CorsRule) : Decidable rule.ListsFit := by
  unfold CorsRule.ListsFit
  infer_instance

/-- A rule as it reads back: every negative max age is written as "none". -/
def CorsRule.reread (rule : CorsRule) : CorsRule :=
  { rule with maxAgeSeconds := if 0 ≤ rule.maxAgeSeconds then rule.maxAgeSeconds else -1 }

theorem CorsRule.reread_eq_self_iff (rule : CorsRule) :
    rule.reread = rule ↔ -1 ≤ rule.maxAgeSeconds := by
  have hage : rule.reread = rule ↔
      (if 0 ≤ rule.maxAgeSeconds then rule.maxAgeSeconds else -1) = rule.maxAgeSeconds := by
    constructor
    · exact congrArg CorsRule.maxAgeSeconds
    · intro h
      rw [reread, h]
  have hzero : (0 : Int32).toInt = 0 := rfl
  have hone : (-1 : Int32).toInt = -1 := rfl
  rw [hage]
  split_ifs with h
  · have hage := Int32.le_iff_toInt_le.mp h
    exact iff_of_true rfl (Int32.le_iff_toInt_le.mpr (by omega))
  · have hage := mt Int32.le_iff_toInt_le.mpr h
    rw [Int32.le_iff_toInt_le, ← Int32.toInt_inj]
    omega

@[simp]
theorem CorsRule.reread_reread (rule : CorsRule) : rule.reread.reread = rule.reread := by
  simp only [reread]
  split_ifs <;> rfl

namespace Codec

/-! ### Fields shared by several records -/

def recordVersion : UInt8 := 1

def expectVersion : Read Unit := do
  let version ← u8
  if version = recordVersion then pure () else throw (.unsupportedVersion version)

theorem decodes_expectVersion : Decodes expectVersion (Writer.u8 recordVersion) () := by
  apply (decodes_u8 recordVersion).bind
  exact decodes_pure ()

def Writer.timestamp (value : TimestampMs) : Bytes := Writer.varint value.toUInt64

/-- `static_cast<TimestampMs>(reader.varint())`. -/
def timestamp : Read TimestampMs := do
  let value ← varint
  pure value.toInt64

theorem decodes_timestamp (value : TimestampMs) :
    Decodes timestamp (Writer.timestamp value) value :=
  (decodes_varint value.toUInt64).map UInt64.toInt64

/-! ### User metadata -/

def encodeMetadataEntry (entry : Text × Text) : Bytes :=
  Writer.string entry.1 ++ Writer.string entry.2

def decodeMetadataEntry : Read (Text × Text) := do
  let name ← string
  let value ← string
  pure (name, value)

theorem decodes_metadataEntry (entry : Text × Text) :
    Decodes decodeMetadataEntry (encodeMetadataEntry entry) entry := by
  apply (decodes_string entry.1).bind
  exact (decodes_string entry.2).map (Prod.mk entry.1)

def encodeMetadata (metadata : UserMetadata) : Bytes :=
  Writer.varint metadata.toSized.size ++ metadata.toSized.items.flatMap encodeMetadataEntry

def decodeMetadata : Read UserMetadata := do
  let count ← varint
  let entries ← vector decodeMetadataEntry count
  pure (SizedMap.ofEntries entries)

theorem decodes_metadata (metadata : UserMetadata) :
    Decodes decodeMetadata (encodeMetadata metadata) metadata := by
  apply (decodes_varint _).bind
  have hentries : Decodes (vector decodeMetadataEntry metadata.toSized.size)
      (metadata.toSized.items.flatMap encodeMetadataEntry) (metadata.toSized.map id) :=
    decodes_vector fun entry _ => decodes_metadataEntry entry
  simpa using hentries.map SizedMap.ofEntries

/-! ### Checksums -/

/-- Zero is "no checksum". -/
def encodeChecksum (checksum : Checksum) : Bytes :=
  match checksum.algorithm with
  | none => Writer.u8 0
  | some algorithm =>
    [Writer.u8 algorithm.tag, Writer.string checksum.value,
      Writer.varint checksum.parts.toUInt64].flatten

def decodeChecksum : Read Checksum := do
  let tag ← u8
  if tag = 0 then pure {}
  else
    match ChecksumAlgorithm.ofTag tag with
    | none => throw (.unknownChecksumAlgorithm tag)
    | some algorithm => do
      let value ← string
      let parts ← varint
      pure { algorithm := some algorithm, value := value, parts := parts.toUInt32 }

theorem decodes_checksum (checksum : Checksum) :
    Decodes decodeChecksum (encodeChecksum checksum) checksum := by
  obtain ⟨algorithm, value, parts, habsent⟩ := checksum
  cases algorithm with
  | none =>
      obtain ⟨rfl, rfl⟩ := habsent rfl
      exact (decodes_u8 0).bind (decodes_pure _)
  | some algorithm =>
      apply (decodes_u8 algorithm.tag).bind
      rw [if_neg algorithm.tag_ne_zero, ChecksumAlgorithm.ofTag_tag]
      apply (decodes_string value).bind
      apply (decodes_varint parts.toUInt64).bind
      simp only [UInt32.toUInt32_toUInt64]
      exact decodes_pure _

theorem encodeChecksum_ne_nil (checksum : Checksum) : encodeChecksum checksum ≠ [] := by
  rw [encodeChecksum]
  split <;> simp [Writer.u8]

/-! ### Content headers -/

/-- The id a header's value is written under. -/
inductive ContentHeaderId
  | cacheControl
  | contentDisposition
  | contentEncoding
  | contentLanguage
  | expires
  deriving DecidableEq

def ContentHeaderId.byte : ContentHeaderId → UInt8
  | cacheControl => 1
  | contentDisposition => 2
  | contentEncoding => 3
  | contentLanguage => 4
  | expires => 5

/-- The headers in the order they are written. -/
def contentHeaderFields (headers : ContentHeaders) : List (ContentHeaderId × Text) :=
  [(.cacheControl, headers.cacheControl), (.contentDisposition, headers.contentDisposition),
    (.contentEncoding, headers.contentEncoding), (.contentLanguage, headers.contentLanguage),
    (.expires, headers.expires)]

/-- The headers that were set. -/
def presentHeaders (headers : ContentHeaders) : List (ContentHeaderId × Text) :=
  (contentHeaderFields headers).filter fun field => field.2 ≠ .empty

def encodeContentHeader (field : ContentHeaderId × Text) : Bytes :=
  Writer.u8 field.1.byte ++ Writer.string field.2

def encodeContentHeaders (headers : ContentHeaders) : Bytes :=
  Writer.varint (presentHeaders headers).length.toUInt64 ++
    (presentHeaders headers).flatMap encodeContentHeader

/-- One turn of the reading loop. The value of an id this build does not know is
consumed and dropped. -/
def decodeContentHeader (headers : ContentHeaders) : Read ContentHeaders := do
  let id ← u8
  let value ← string
  pure (if id = 1 then { headers with cacheControl := value }
    else if id = 2 then { headers with contentDisposition := value }
    else if id = 3 then { headers with contentEncoding := value }
    else if id = 4 then { headers with contentLanguage := value }
    else if id = 5 then { headers with expires := value }
    else headers)

def decodeContentHeaders : Read ContentHeaders := do
  let count ← varint
  if 64 < count then throw .listTooLong
  else repeated decodeContentHeader count.toNat {}

/-- What reading one written header does to the headers read so far. -/
def setContentHeader (headers : ContentHeaders) (field : ContentHeaderId × Text) :
    ContentHeaders :=
  match field.1 with
  | .cacheControl => { headers with cacheControl := field.2 }
  | .contentDisposition => { headers with contentDisposition := field.2 }
  | .contentEncoding => { headers with contentEncoding := field.2 }
  | .contentLanguage => { headers with contentLanguage := field.2 }
  | .expires => { headers with expires := field.2 }

theorem decodes_contentHeader (field : ContentHeaderId × Text) (headers : ContentHeaders) :
    Decodes (decodeContentHeader headers) (encodeContentHeader field)
      (setContentHeader headers field) := by
  obtain ⟨id, value⟩ := field
  apply (decodes_u8 id.byte).bind
  cases id <;> exact (decodes_string value).map _

theorem foldl_presentHeaders (headers : ContentHeaders) :
    (presentHeaders headers).foldl setContentHeader {} = headers := by
  obtain ⟨cacheControl, contentDisposition, contentEncoding, contentLanguage, expires⟩ := headers
  by_cases h1 : cacheControl = .empty <;> by_cases h2 : contentDisposition = .empty <;>
    by_cases h3 : contentEncoding = .empty <;> by_cases h4 : contentLanguage = .empty <;>
    by_cases h5 : expires = .empty <;>
    simp [presentHeaders, contentHeaderFields, setContentHeader, h1, h2, h3, h4, h5]

theorem decodes_contentHeaders (headers : ContentHeaders) :
    Decodes decodeContentHeaders (encodeContentHeaders headers) headers := by
  have hlength : (presentHeaders headers).length ≤ 5 :=
    (List.length_filter_le ..).trans (le_of_eq rfl)
  have hcount : (presentHeaders headers).length.toUInt64.toNat =
      (presentHeaders headers).length := by
    rw [Nat.toUInt64_eq, UInt64.toNat_ofNat', Nat.mod_eq_of_lt (by omega)]
  have hfits : ¬ 64 < (presentHeaders headers).length.toUInt64 := by
    rw [UInt64.lt_iff_toNat_lt, hcount]
    change ¬ 64 < _
    omega
  apply (decodes_varint _).bind
  rw [if_neg hfits, hcount]
  have h := decodes_repeated (fun field (_ : field ∈ presentHeaders headers) =>
    decodes_contentHeader field) {}
  rwa [foldl_presentHeaders] at h

/-! ### CORS rules -/

def encodeCorsList (entries : Sized Text) : Bytes :=
  Writer.varint entries.size ++ entries.items.flatMap Writer.string

def encodeCorsRule (rule : CorsRule) : Bytes :=
  [Writer.string rule.id, encodeCorsList rule.allowedOrigins, encodeCorsList rule.allowedMethods,
    encodeCorsList rule.allowedHeaders, encodeCorsList rule.exposeHeaders,
    Writer.boolean (0 ≤ rule.maxAgeSeconds),
    Writer.varint (if 0 ≤ rule.maxAgeSeconds then rule.maxAgeSeconds.toInt64.toUInt64 else 0)].flatten

def encodeCorsRules (rules : Sized CorsRule) : Bytes :=
  Writer.varint rules.size ++ rules.items.flatMap encodeCorsRule

/-- A list whose length is refused past `limit` before anything is allocated. -/
def boundedVector {α : Type} (limit : UInt64) (read : Read α) : Read (Sized α) := do
  let count ← varint
  if limit < count then throw .listTooLong else vector read count

def decodeCorsRule : Read CorsRule := do
  let id ← string
  let allowedOrigins ← boundedVector maxCorsEntries string
  let allowedMethods ← boundedVector maxCorsEntries string
  let allowedHeaders ← boundedVector maxCorsEntries string
  let exposeHeaders ← boundedVector maxCorsEntries string
  let hasMaxAge ← boolean
  let maxAge ← varint
  pure
    { id := id
      allowedOrigins := allowedOrigins
      allowedMethods := allowedMethods
      allowedHeaders := allowedHeaders
      exposeHeaders := exposeHeaders
      maxAgeSeconds := if hasMaxAge then maxAge.toUInt32.toInt32 else -1 }

def decodeCorsRules : Read (Sized CorsRule) := boundedVector maxCorsRules decodeCorsRule

section Bounded

variable {α β : Type} {limit : UInt64} {read : Read β} {write : α → Bytes} {reread : α → β}
  {container : Sized α}

theorem decodes_boundedVector (hfits : container.size ≤ limit)
    (hread : ∀ item ∈ container.items, Decodes read (write item) (reread item)) :
    Decodes (boundedVector limit read)
      (Writer.varint container.size ++ container.items.flatMap write) (container.map reread) := by
  apply (decodes_varint _).bind
  rw [if_neg (UInt64.not_lt.mpr hfits)]
  exact decodes_vector hread

theorem rejects_boundedVector (hlong : limit < container.size) :
    Rejects (boundedVector limit read)
      (Writer.varint container.size ++ container.items.flatMap write) := by
  apply (decodes_varint _).bind_rejects
  rw [if_pos hlong]
  exact fun _ _ _ => ⟨_, rfl⟩

end Bounded

theorem decodes_corsList {entries : Sized Text} (hfits : entries.size ≤ maxCorsEntries) :
    Decodes (boundedVector maxCorsEntries string) (encodeCorsList entries) entries := by
  have h : Decodes (boundedVector maxCorsEntries string) (encodeCorsList entries)
      (entries.map id) := decodes_boundedVector hfits fun entry _ => decodes_string entry
  rwa [entries.map_id] at h

theorem toInt32_toUInt32_toUInt64_toInt64 (value : Int32) :
    value.toInt64.toUInt64.toUInt32.toInt32 = value := by
  rw [← Int32.toBitVec_inj]
  ext bit hbit
  simp [BitVec.getLsbD_signExtend, hbit]
  omega

theorem decodes_corsRule {rule : CorsRule} (hfits : rule.ListsFit) :
    Decodes decodeCorsRule (encodeCorsRule rule) rule.reread := by
  obtain ⟨horigins, hmethods, hheaders, hexpose⟩ := hfits
  apply (decodes_string _).bind
  apply (decodes_corsList horigins).bind
  apply (decodes_corsList hmethods).bind
  apply (decodes_corsList hheaders).bind
  apply (decodes_corsList hexpose).bind
  apply (decodes_boolean _).bind
  apply (decodes_varint _).bind
  have hage : (if decide (0 ≤ rule.maxAgeSeconds) = true then
      (if 0 ≤ rule.maxAgeSeconds then rule.maxAgeSeconds.toInt64.toUInt64
        else 0).toUInt32.toInt32 else -1) = rule.reread.maxAgeSeconds := by
    rw [CorsRule.reread]
    by_cases h : 0 ≤ rule.maxAgeSeconds
    · simp only [h, decide_true, if_true, toInt32_toUInt32_toUInt64_toInt64]
    · simp [h]
  rw [hage]
  exact decodes_pure _

/-- The first list that is too long is refused, whatever the ones before it. -/
theorem rejects_corsRule {rule : CorsRule} (hlong : ¬ rule.ListsFit) :
    Rejects decodeCorsRule (encodeCorsRule rule) := by
  have hreject : ∀ {entries : Sized Text}, ¬ entries.size ≤ maxCorsEntries →
      Rejects (boundedVector maxCorsEntries string) (encodeCorsList entries) := fun h =>
    rejects_boundedVector (UInt64.not_le.mp h)
  apply (decodes_string _).bind_rejects
  by_cases horigins : rule.allowedOrigins.size ≤ maxCorsEntries
  swap
  · exact (hreject horigins).bind.append
  apply (decodes_corsList horigins).bind_rejects
  by_cases hmethods : rule.allowedMethods.size ≤ maxCorsEntries
  swap
  · exact (hreject hmethods).bind.append
  apply (decodes_corsList hmethods).bind_rejects
  by_cases hheaders : rule.allowedHeaders.size ≤ maxCorsEntries
  swap
  · exact (hreject hheaders).bind.append
  apply (decodes_corsList hheaders).bind_rejects
  have hexpose : ¬ rule.exposeHeaders.size ≤ maxCorsEntries := fun h =>
    hlong ⟨horigins, hmethods, hheaders, h⟩
  exact (hreject hexpose).bind.append

theorem decodes_corsRules {rules : Sized CorsRule} (hcount : rules.size ≤ maxCorsRules)
    (hfits : ∀ rule ∈ rules.items, rule.ListsFit) :
    Decodes decodeCorsRules (encodeCorsRules rules) (rules.map CorsRule.reread) :=
  decodes_boundedVector hcount fun rule hrule => decodes_corsRule (hfits rule hrule)

theorem rejects_corsRules {rules : Sized CorsRule}
    (hlong : ¬ (rules.size ≤ maxCorsRules ∧ ∀ rule ∈ rules.items, rule.ListsFit)) :
    Rejects decodeCorsRules (encodeCorsRules rules) := by
  by_cases hcount : rules.size ≤ maxCorsRules
  swap
  · exact rejects_boundedVector (UInt64.not_le.mp hcount)
  obtain ⟨rule, hrule⟩ : ∃ rule, rules.items.find? (fun rule => ¬ rule.ListsFit) = some rule := by
    rw [← Option.isSome_iff_exists, List.find?_isSome]
    simpa [hcount] using hlong
  obtain ⟨hbad, front, rest, hitems, hfront⟩ := List.find?_eq_some_iff_append.mp hrule
  apply (decodes_varint _).bind_rejects
  rw [if_neg (UInt64.not_lt.mpr hcount)]
  refine rejects_vector hitems (fun other hother => decodes_corsRule ?_)
    (rejects_corsRule (by simpa using hbad))
  simpa using hfront other hother

/-! ### Bucket grants -/

def encodeGrant (exception : Text × BucketAccess) : Bytes :=
  Writer.string exception.1 ++ Writer.string exception.2.toText

def decodeBucketAccess : Read BucketAccess := do
  let name ← string
  match parseBucketAccess name with
  | none => throw (.unknownBucketAccess name.items)
  | some access => pure access

def decodeGrant : Read (Text × BucketAccess) := do
  let bucket ← string
  let access ← decodeBucketAccess
  pure (bucket, access)

def encodeBucketGrants (grants : BucketGrants) : Bytes :=
  [Writer.string grants.fallback.toText, Writer.varint grants.exceptions.toSized.size,
    grants.exceptions.toSized.items.flatMap encodeGrant].flatten

def decodeBucketGrants : Read BucketGrants := do
  let fallback ← decodeBucketAccess
  let exceptions ← boundedVector maxGrantExceptions decodeGrant
  pure { fallback := fallback, exceptions := SizedMap.ofEntries exceptions }

theorem decodes_bucketAccess (access : BucketAccess) :
    Decodes decodeBucketAccess (Writer.string access.toText) access := by
  have h : Decodes decodeBucketAccess (Writer.string access.toText ++ []) access := by
    apply (decodes_string access.toText).bind
    rw [parseBucketAccess_toText]
    exact decodes_pure access
  rwa [List.append_nil] at h

theorem decodes_grant (exception : Text × BucketAccess) :
    Decodes decodeGrant (encodeGrant exception) exception := by
  apply (decodes_string exception.1).bind
  exact (decodes_bucketAccess exception.2).map (Prod.mk exception.1)

theorem decodes_bucketGrants {grants : BucketGrants}
    (hfits : grants.exceptions.toSized.size ≤ maxGrantExceptions) :
    Decodes decodeBucketGrants (encodeBucketGrants grants) grants := by
  apply (decodes_bucketAccess grants.fallback).bind
  have hexceptions : Decodes (boundedVector maxGrantExceptions decodeGrant)
      (Writer.varint grants.exceptions.toSized.size ++
        grants.exceptions.toSized.items.flatMap encodeGrant) (grants.exceptions.toSized.map id) :=
    decodes_boundedVector hfits fun exception _ => decodes_grant exception
  have h := hexceptions.map fun exceptions =>
    ({ fallback := grants.fallback, exceptions := SizedMap.ofEntries exceptions } : BucketGrants)
  simpa using h

theorem rejects_bucketGrants {grants : BucketGrants}
    (hlong : ¬ grants.exceptions.toSized.size ≤ maxGrantExceptions) :
    Rejects decodeBucketGrants (encodeBucketGrants grants) := by
  apply (decodes_bucketAccess grants.fallback).bind_rejects
  have h : Rejects (boundedVector maxGrantExceptions decodeGrant)
      (Writer.varint grants.exceptions.toSized.size ++
        grants.exceptions.toSized.items.flatMap encodeGrant) :=
    rejects_boundedVector (UInt64.not_le.mp hlong)
  simp only [List.flatten_cons, List.flatten_nil, List.append_nil]
  exact h.bind

/-! ### Buckets -/

/-- The durability override: whether there is one, and its level. -/
def encodeDurability (durability : Option Durability) : Bytes :=
  Writer.boolean durability.isSome ++ Writer.u8 (durability.getD .relaxed).level

def decodeDurability : Read (Option Durability) := do
  let overridden ← boolean
  let level ← u8
  if overridden then
    match Durability.ofLevel level with
    | none => throw (.unknownDurability level)
    | some durability => pure (some durability)
  else pure none

theorem decodes_durability (durability : Option Durability) :
    Decodes decodeDurability (encodeDurability durability) durability := by
  have h : Decodes decodeDurability (Writer.boolean durability.isSome ++
      (Writer.u8 (durability.getD .relaxed).level ++ [])) durability := by
    apply (decodes_boolean _).bind
    apply (decodes_u8 _).bind
    cases durability with
    | none => exact decodes_pure none
    | some durability =>
        simp only [Option.isSome_some, if_true, Option.getD_some, Durability.ofLevel_level]
        exact decodes_pure (some durability)
  rwa [List.append_nil] at h

def encodeBucket (bucket : BucketRecord) : Bytes :=
  [Writer.u8 recordVersion, Writer.timestamp bucket.createdAt, Writer.boolean bucket.publicRead,
    Writer.string bucket.policy, encodeCorsRules bucket.cors, encodeDurability bucket.durability,
    Writer.varint bucket.quotaBytes, Writer.boolean bucket.publicList].flatten

/-- The fields added after the CORS rules: once the row reaches the first of
them, each later one is read if the row reaches it too. -/
def decodeBucketTail : Read (Option Durability × UInt64 × Bool) := do
  let durability ← decodeDurability
  let quotaBytes ← ifMore 0 varint
  let publicList ← ifMore false boolean
  pure (durability, quotaBytes, publicList)

def decodeBucketFields (name : Bytes) : Read BucketRecord := do
  expectVersion
  let createdAt ← timestamp
  let publicRead ← boolean
  let policy ← string
  let cors ← ifMore .empty decodeCorsRules
  let tail ← ifMore (none, 0, false) decodeBucketTail
  pure
    { name := name
      createdAt := createdAt
      publicRead := publicRead
      publicList := tail.2.2
      policy := policy
      cors := cors
      quotaBytes := tail.2.1
      durability := tail.1 }

def decodeBucket (name stored : Bytes) : Except DecodeError BucketRecord :=
  runOn (decodeBucketFields name) stored

/-- A bucket is read under the name in its row's key. -/
theorem name_of_decodeBucket {name stored : Bytes} {bucket : BucketRecord}
    (h : decodeBucket name stored = .ok bucket) : bucket.name = name := by
  have hfields : Gives (decodeBucketFields name) fun read => read.name = name :=
    .bind fun _ => .bind fun _ => .bind fun _ => .bind fun _ => .bind fun _ => .bind fun _ =>
      gives_pure rfl
  exact hfields.runOn h

theorem decodes_bucketTail (bucket : BucketRecord) :
    Decodes decodeBucketTail
      [encodeDurability bucket.durability, Writer.varint bucket.quotaBytes,
        Writer.boolean bucket.publicList].flatten
      (bucket.durability, bucket.quotaBytes, bucket.publicList) := by
  apply (decodes_durability _).bind
  apply ((decodes_varint _).ifMore (Writer.varint_ne_nil _) 0).bind
  apply ((decodes_boolean _).ifMore (Writer.boolean_ne_nil _) false).bind
  exact decodes_pure _

theorem encodeCorsRules_ne_nil (rules : Sized CorsRule) : encodeCorsRules rules ≠ [] := by
  simp [encodeCorsRules, Writer.varint_ne_nil]

theorem flatten_bucketTail_ne_nil (bucket : BucketRecord) :
    [encodeDurability bucket.durability, Writer.varint bucket.quotaBytes,
      Writer.boolean bucket.publicList].flatten ≠ [] := by
  simp [encodeDurability, Writer.boolean_ne_nil]

theorem decodes_bucket {bucket : BucketRecord} (hcount : bucket.cors.size ≤ maxCorsRules)
    (hfits : ∀ rule ∈ bucket.cors.items, rule.ListsFit) :
    Decodes (decodeBucketFields bucket.name) (encodeBucket bucket)
      { bucket with cors := bucket.cors.map CorsRule.reread } := by
  apply decodes_expectVersion.bind
  apply (decodes_timestamp _).bind
  apply (decodes_boolean _).bind
  apply (decodes_string _).bind
  apply ((decodes_corsRules hcount hfits).ifMore (encodeCorsRules_ne_nil _) .empty).bind
  have htail := (decodes_bucketTail bucket).ifMore (flatten_bucketTail_ne_nil bucket) (none, 0, false)
  exact htail.map fun tail =>
    { bucket with
      cors := bucket.cors.map CorsRule.reread
      durability := tail.1
      quotaBytes := tail.2.1
      publicList := tail.2.2 }

/-- A bucket whose CORS rules are within the decoder's bounds reads back with
its rules normalised and every other field as written. -/
theorem decodeBucket_encodeBucket {bucket : BucketRecord}
    (hcount : bucket.cors.size ≤ maxCorsRules)
    (hfits : ∀ rule ∈ bucket.cors.items, rule.ListsFit) :
    decodeBucket bucket.name (encodeBucket bucket) =
      .ok { bucket with cors := bucket.cors.map CorsRule.reread } :=
  (decodes_bucket hcount hfits).runOn

/-- A bucket whose CORS rules are past the bounds does not read back at all. -/
theorem decodeBucket_encodeBucket_error {bucket : BucketRecord}
    (hlong : ¬ (bucket.cors.size ≤ maxCorsRules ∧ ∀ rule ∈ bucket.cors.items, rule.ListsFit)) :
    ∃ error, decodeBucket bucket.name (encodeBucket bucket) = .error error := by
  apply Rejects.runOn
  apply decodes_expectVersion.bind_rejects
  apply (decodes_timestamp _).bind_rejects
  apply (decodes_boolean _).bind_rejects
  apply (decodes_string _).bind_rejects
  exact ((rejects_corsRules hlong).ifMore (encodeCorsRules_ne_nil _) .empty).bind.append

/-- What reads back from a bucket's row, if anything does, is the bucket with
its rules normalised. -/
theorem eq_of_decodeBucket_encodeBucket {bucket read : BucketRecord}
    (h : decodeBucket bucket.name (encodeBucket bucket) = .ok read) :
    read = { bucket with cors := bucket.cors.map CorsRule.reread } := by
  by_cases hbounds : bucket.cors.size ≤ maxCorsRules ∧ ∀ rule ∈ bucket.cors.items, rule.ListsFit
  · rw [decodeBucket_encodeBucket hbounds.1 hbounds.2] at h
    exact (Except.ok.inj h).symm
  · obtain ⟨error, herror⟩ := decodeBucket_encodeBucket_error hbounds
    rw [herror] at h
    cases h

end Codec

/-- A bucket record that reads back as it was written. -/
structure BucketRecord.Storable (bucket : BucketRecord) : Prop where
  ruleCount : bucket.cors.size ≤ maxCorsRules
  listsFit : ∀ rule ∈ bucket.cors.items, rule.ListsFit
  maxAges : ∀ rule ∈ bucket.cors.items, -1 ≤ rule.maxAgeSeconds

/-- A bucket without CORS rules reads back whatever else it holds. -/
theorem BucketRecord.storable_of_empty {bucket : BucketRecord} (h : bucket.cors = .empty) :
    bucket.Storable where
  ruleCount := by rw [h]; decide
  listsFit := by simp [h]
  maxAges := by simp [h]

namespace Codec

/-- Encoding a bucket loses nothing exactly when its CORS rules are within the
bounds only the decoder knows. -/
theorem decodeBucket_encodeBucket_iff (bucket : BucketRecord) :
    decodeBucket bucket.name (encodeBucket bucket) = .ok bucket ↔ bucket.Storable := by
  constructor
  · intro h
    have hbounds : bucket.cors.size ≤ maxCorsRules ∧
        ∀ rule ∈ bucket.cors.items, rule.ListsFit := by
      by_contra hlong
      obtain ⟨error, herror⟩ := decodeBucket_encodeBucket_error hlong
      rw [herror] at h
      cases h
    refine ⟨hbounds.1, hbounds.2, fun rule hrule => rule.reread_eq_self_iff.mp ?_⟩
    rw [decodeBucket_encodeBucket hbounds.1 hbounds.2] at h
    have hcors : bucket.cors.items.map CorsRule.reread = bucket.cors.items :=
      congrArg (fun result => match result with
        | .ok record => record.cors.items
        | .error _ => []) h
    exact List.map_inj_left.mp (hcors.trans (List.map_id _).symm) rule hrule
  · intro h
    have hcors : bucket.cors.map CorsRule.reread = bucket.cors := by
      ext1
      refine (List.map_inj_left.mpr fun rule hrule => ?_).trans (List.map_id _)
      exact rule.reread_eq_self_iff.mpr (h.maxAges rule hrule)
    rw [decodeBucket_encodeBucket h.ruleCount h.listsFit, hcors]

/-- What reads back from a bucket's row reads back as itself from then on. -/
theorem storable_of_decodeBucket_encodeBucket {bucket read : BucketRecord}
    (h : decodeBucket bucket.name (encodeBucket bucket) = .ok read) : read.Storable := by
  have hbounds : bucket.cors.size ≤ maxCorsRules ∧
      ∀ rule ∈ bucket.cors.items, rule.ListsFit := by
    by_contra hlong
    obtain ⟨error, herror⟩ := decodeBucket_encodeBucket_error hlong
    rw [herror] at h
    cases h
  have hage : ∀ rule : CorsRule, -1 ≤ rule.reread.maxAgeSeconds := fun rule =>
    rule.reread.reread_eq_self_iff.mp rule.reread_reread
  rw [eq_of_decodeBucket_encodeBucket h]
  refine ⟨?_, fun rule hrule => ?_, fun rule hrule => ?_⟩
  · rw [Sized.size_map]
    exact hbounds.1
  · obtain ⟨written, hwritten, rfl⟩ := List.mem_map.mp hrule
    exact hbounds.2 written hwritten
  · obtain ⟨written, -, rfl⟩ := List.mem_map.mp hrule
    exact hage written

/-! ### Identity records -/

def encodeAdmin (admin : AdminRecord) : Bytes :=
  [Writer.u8 recordVersion, Writer.string admin.username, Writer.string admin.passwordHash,
    Writer.timestamp admin.createdAt, Writer.timestamp admin.updatedAt].flatten

def decodeAdminFields : Read AdminRecord := do
  expectVersion
  let username ← string
  let passwordHash ← string
  let createdAt ← timestamp
  let updatedAt ← timestamp
  pure { username, passwordHash, createdAt, updatedAt }

def decodeAdmin (stored : Bytes) : Except DecodeError AdminRecord :=
  runOn decodeAdminFields stored

theorem decodeAdmin_encodeAdmin (admin : AdminRecord) :
    decodeAdmin (encodeAdmin admin) = .ok admin := by
  apply Decodes.runOn
  apply decodes_expectVersion.bind
  apply (decodes_string _).bind
  apply (decodes_string _).bind
  apply (decodes_timestamp _).bind
  apply (decodes_timestamp _).bind
  exact decodes_pure _

def encodeSettings (settings : InstanceSettings) : Bytes :=
  [Writer.u8 recordVersion, Writer.varint settings.maxUploadBytes].flatten

def decodeSettingsFields : Read InstanceSettings := do
  expectVersion
  let maxUploadBytes ← ifMore 0 varint
  pure { maxUploadBytes }

def decodeSettings (stored : Bytes) : Except DecodeError InstanceSettings :=
  runOn decodeSettingsFields stored

theorem decodes_settings (settings : InstanceSettings) :
    Decodes decodeSettingsFields (encodeSettings settings) settings := by
  apply decodes_expectVersion.bind
  apply ((decodes_varint _).ifMore (Writer.varint_ne_nil _) 0).bind
  exact decodes_pure _

theorem decodeSettings_encodeSettings (settings : InstanceSettings) :
    decodeSettings (encodeSettings settings) = .ok settings :=
  (decodes_settings settings).runOn

def encodeAccessKey (key : AccessKeyRecord) : Bytes :=
  [Writer.u8 recordVersion, Writer.string key.secretKey, Writer.string key.name,
    Writer.timestamp key.createdAt, Writer.timestamp key.rotatedAt,
    Writer.string key.owner].flatten

def decodeAccessKeyFields (accessKeyId : Bytes) : Read AccessKeyRecord := do
  expectVersion
  let secretKey ← string
  let name ← string
  let createdAt ← timestamp
  let rotatedAt ← timestamp
  let owner ← ifMore .empty string
  pure { accessKeyId, secretKey, name, owner, createdAt, rotatedAt }

def decodeAccessKey (accessKeyId stored : Bytes) : Except DecodeError AccessKeyRecord :=
  runOn (decodeAccessKeyFields accessKeyId) stored

theorem decodes_accessKey (key : AccessKeyRecord) :
    Decodes (decodeAccessKeyFields key.accessKeyId) (encodeAccessKey key) key := by
  apply decodes_expectVersion.bind
  apply (decodes_string _).bind
  apply (decodes_string _).bind
  apply (decodes_timestamp _).bind
  apply (decodes_timestamp _).bind
  apply ((decodes_string _).ifMore (Writer.string_ne_nil _) .empty).bind
  exact decodes_pure _

theorem decodeAccessKey_encodeAccessKey (key : AccessKeyRecord) :
    decodeAccessKey key.accessKeyId (encodeAccessKey key) = .ok key :=
  (decodes_accessKey key).runOn

def encodeUser (user : UserRecord) : Bytes :=
  [Writer.u8 recordVersion, Writer.string user.passwordHash, Writer.string user.role.toText,
    Writer.boolean user.disabled, Writer.timestamp user.createdAt,
    Writer.timestamp user.updatedAt, Writer.timestamp user.passwordChangedAt,
    encodeBucketGrants user.buckets].flatten

def decodeRole : Read Role := do
  let name ← string
  match parseRole name with
  | none => throw (.unknownRole name.items)
  | some role => pure role

theorem decodes_role (role : Role) : Decodes decodeRole (Writer.string role.toText) role := by
  have h : Decodes decodeRole (Writer.string role.toText ++ []) role := by
    apply (decodes_string role.toText).bind
    rw [parseRole_toText]
    exact decodes_pure role
  rwa [List.append_nil] at h

def decodeUserFields (username : Bytes) : Read UserRecord := do
  expectVersion
  let passwordHash ← string
  let role ← decodeRole
  let disabled ← boolean
  let createdAt ← timestamp
  let updatedAt ← timestamp
  let passwordChangedAt ← timestamp
  let buckets ← ifMore {} decodeBucketGrants
  pure
    { username, passwordHash, role, disabled, createdAt, updatedAt, passwordChangedAt, buckets }

def decodeUser (username stored : Bytes) : Except DecodeError UserRecord :=
  runOn (decodeUserFields username) stored

theorem encodeBucketGrants_ne_nil (grants : BucketGrants) : encodeBucketGrants grants ≠ [] := by
  simp [encodeBucketGrants, Writer.string_ne_nil]

end Codec

/-- An account that reads back as it was written. -/
def UserRecord.Storable (user : UserRecord) : Prop :=
  user.buckets.exceptions.toSized.size ≤ maxGrantExceptions

namespace Codec

theorem decodes_user {user : UserRecord} (hstorable : user.Storable) :
    Decodes (decodeUserFields user.username) (encodeUser user) user := by
  apply decodes_expectVersion.bind
  apply (decodes_string _).bind
  apply (decodes_role _).bind
  apply (decodes_boolean _).bind
  apply (decodes_timestamp _).bind
  apply (decodes_timestamp _).bind
  apply (decodes_timestamp _).bind
  apply ((decodes_bucketGrants hstorable).ifMore (encodeBucketGrants_ne_nil _) {}).bind
  exact decodes_pure _

theorem decodeUser_encodeUser {user : UserRecord} (hstorable : user.Storable) :
    decodeUser user.username (encodeUser user) = .ok user :=
  (decodes_user hstorable).runOn

theorem decodeUser_encodeUser_error {user : UserRecord} (hlong : ¬ user.Storable) :
    ∃ error, decodeUser user.username (encodeUser user) = .error error := by
  apply Rejects.runOn
  apply decodes_expectVersion.bind_rejects
  apply (decodes_string _).bind_rejects
  apply (decodes_role _).bind_rejects
  apply (decodes_boolean _).bind_rejects
  apply (decodes_timestamp _).bind_rejects
  apply (decodes_timestamp _).bind_rejects
  apply (decodes_timestamp _).bind_rejects
  exact ((rejects_bucketGrants hlong).ifMore (encodeBucketGrants_ne_nil _) {}).bind.append

/-- Encoding an account loses nothing exactly when its grants name no more
buckets than the decoder reads. -/
theorem decodeUser_encodeUser_iff (user : UserRecord) :
    decodeUser user.username (encodeUser user) = .ok user ↔ user.Storable := by
  refine ⟨fun h => ?_, decodeUser_encodeUser⟩
  by_contra hlong
  obtain ⟨error, herror⟩ := decodeUser_encodeUser_error hlong
  rw [herror] at h
  cases h

/-! ### The audit log -/

def encodeAudit (entry : AuditRecord) : Bytes :=
  [Writer.u8 recordVersion, Writer.timestamp entry.atMs, Writer.string entry.actor,
    Writer.string entry.action, Writer.string entry.target, Writer.boolean entry.allowed,
    Writer.string entry.detail].flatten

def decodeAuditFields (sequence : UInt64) : Read AuditRecord := do
  expectVersion
  let atMs ← timestamp
  let actor ← string
  let action ← string
  let target ← string
  let allowed ← boolean
  let detail ← string
  pure { sequence, atMs, actor, action, target, allowed, detail }

def decodeAudit (sequence : UInt64) (stored : Bytes) : Except DecodeError AuditRecord :=
  runOn (decodeAuditFields sequence) stored

theorem decodeAudit_encodeAudit (entry : AuditRecord) :
    decodeAudit entry.sequence (encodeAudit entry) = .ok entry := by
  apply Decodes.runOn
  apply decodes_expectVersion.bind
  apply (decodes_timestamp _).bind
  apply (decodes_string _).bind
  apply (decodes_string _).bind
  apply (decodes_string _).bind
  apply (decodes_boolean _).bind
  apply (decodes_string _).bind
  exact decodes_pure _

/-! ### Objects, uploads and parts -/

def encodeObject (object : ObjectRecord) : Bytes :=
  [Writer.u8 recordVersion, Writer.string object.blobId, Writer.varint object.size,
    Writer.string object.etag, Writer.string object.sha256, Writer.string object.contentType,
    Writer.timestamp object.lastModified, encodeMetadata object.userMetadata,
    encodeChecksum object.checksum, encodeContentHeaders object.content].flatten

def decodeObjectFields (key : Bytes) : Read ObjectRecord := do
  expectVersion
  let blobId ← string
  let size ← varint
  let etag ← string
  let sha256 ← string
  let contentType ← string
  let lastModified ← timestamp
  let userMetadata ← decodeMetadata
  let checksum ← ifMore {} decodeChecksum
  let content ← ifMore {} decodeContentHeaders
  pure
    { key, blobId, size, etag, sha256, contentType, lastModified, userMetadata, content, checksum }

def decodeObject (key stored : Bytes) : Except DecodeError ObjectRecord :=
  runOn (decodeObjectFields key) stored

/-- An object is read under the key it was asked for by. -/
theorem key_of_decodeObject {key stored : Bytes} {object : ObjectRecord}
    (h : decodeObject key stored = .ok object) : object.key = key := by
  have hfields : Gives (decodeObjectFields key) fun read => read.key = key :=
    .bind fun _ => .bind fun _ => .bind fun _ => .bind fun _ => .bind fun _ => .bind fun _ =>
      .bind fun _ => .bind fun _ => .bind fun _ => .bind fun _ => gives_pure rfl
  exact hfields.runOn h

theorem encodeContentHeaders_ne_nil (headers : ContentHeaders) :
    encodeContentHeaders headers ≠ [] := by
  simp [encodeContentHeaders, Writer.varint_ne_nil]

theorem decodes_object (object : ObjectRecord) :
    Decodes (decodeObjectFields object.key) (encodeObject object) object := by
  apply decodes_expectVersion.bind
  apply (decodes_string _).bind
  apply (decodes_varint _).bind
  apply (decodes_string _).bind
  apply (decodes_string _).bind
  apply (decodes_string _).bind
  apply (decodes_timestamp _).bind
  apply (decodes_metadata _).bind
  apply ((decodes_checksum _).ifMore (encodeChecksum_ne_nil _) {}).bind
  apply ((decodes_contentHeaders _).ifMore (encodeContentHeaders_ne_nil _) {}).bind
  exact decodes_pure _

theorem decodeObject_encodeObject (object : ObjectRecord) :
    decodeObject object.key (encodeObject object) = .ok object :=
  (decodes_object object).runOn

def encodePart (part : PartRecord) : Bytes :=
  [Writer.u8 recordVersion, Writer.string part.blobId, Writer.varint part.size,
    Writer.string part.etag, Writer.timestamp part.uploadedAt,
    encodeChecksum part.checksum].flatten

def decodePartFields (partNumber : UInt32) : Read PartRecord := do
  expectVersion
  let blobId ← string
  let size ← varint
  let etag ← string
  let uploadedAt ← timestamp
  let checksum ← ifMore {} decodeChecksum
  pure { partNumber, blobId, size, etag, uploadedAt, checksum }

def decodePart (partNumber : UInt32) (stored : Bytes) : Except DecodeError PartRecord :=
  runOn (decodePartFields partNumber) stored

theorem decodes_part (part : PartRecord) :
    Decodes (decodePartFields part.partNumber) (encodePart part) part := by
  apply decodes_expectVersion.bind
  apply (decodes_string _).bind
  apply (decodes_varint _).bind
  apply (decodes_string _).bind
  apply (decodes_timestamp _).bind
  apply ((decodes_checksum _).ifMore (encodeChecksum_ne_nil _) {}).bind
  exact decodes_pure _

theorem decodePart_encodePart (part : PartRecord) :
    decodePart part.partNumber (encodePart part) = .ok part :=
  (decodes_part part).runOn

/-- What an upload row keeps of a checksum: the algorithm, with an empty value. -/
def uploadChecksum (algorithm : Option ChecksumAlgorithm) : Checksum :=
  { algorithm := algorithm, absent := fun _ => ⟨rfl, rfl⟩ }

def encodeUpload (upload : UploadRecord) : Bytes :=
  [Writer.u8 recordVersion, Writer.string upload.bucket, Writer.string upload.key,
    Writer.string upload.contentType, Writer.timestamp upload.createdAt,
    encodeMetadata upload.userMetadata, encodeChecksum (uploadChecksum upload.checksumAlgorithm),
    encodeContentHeaders upload.content].flatten

def decodeUploadFields (uploadId : Bytes) : Read UploadRecord := do
  expectVersion
  let bucket ← string
  let key ← string
  let contentType ← string
  let createdAt ← timestamp
  let userMetadata ← decodeMetadata
  let checksum ← ifMore {} decodeChecksum
  let content ← ifMore {} decodeContentHeaders
  pure
    { uploadId
      bucket
      key
      contentType
      createdAt
      userMetadata
      content
      checksumAlgorithm := checksum.algorithm }

def decodeUpload (uploadId stored : Bytes) : Except DecodeError UploadRecord :=
  runOn (decodeUploadFields uploadId) stored

/-- An upload is read under the id in its row's key. -/
theorem uploadId_of_decodeUpload {uploadId stored : Bytes} {upload : UploadRecord}
    (h : decodeUpload uploadId stored = .ok upload) : upload.uploadId = uploadId := by
  have hfields : Gives (decodeUploadFields uploadId) fun read => read.uploadId = uploadId :=
    .bind fun _ => .bind fun _ => .bind fun _ => .bind fun _ => .bind fun _ => .bind fun _ =>
      .bind fun _ => .bind fun _ => gives_pure rfl
  exact hfields.runOn h

theorem decodes_upload (upload : UploadRecord) :
    Decodes (decodeUploadFields upload.uploadId) (encodeUpload upload) upload := by
  apply decodes_expectVersion.bind
  apply (decodes_string _).bind
  apply (decodes_string _).bind
  apply (decodes_string _).bind
  apply (decodes_timestamp _).bind
  apply (decodes_metadata _).bind
  apply ((decodes_checksum _).ifMore (encodeChecksum_ne_nil _) {}).bind
  apply ((decodes_contentHeaders _).ifMore (encodeContentHeaders_ne_nil _) {}).bind
  exact decodes_pure _

theorem decodeUpload_encodeUpload (upload : UploadRecord) :
    decodeUpload upload.uploadId (encodeUpload upload) = .ok upload :=
  (decodes_upload upload).runOn

/-! ### Orphan markers -/

/-- The value of an orphan marker: when it was queued. -/
def encodeOrphan (queuedAt : TimestampMs) : Bytes :=
  [Writer.u8 recordVersion, Writer.timestamp queuedAt].flatten

def decodeOrphanFields : Read TimestampMs := do
  expectVersion
  timestamp

/-- A marker that cannot be decoded is treated as ancient. -/
def decodeOrphanQueuedAt (stored : Bytes) : TimestampMs :=
  match runOn decodeOrphanFields stored with
  | .ok queuedAt => queuedAt
  | .error _ => 0

@[simp]
theorem decodeOrphanQueuedAt_encodeOrphan (queuedAt : TimestampMs) :
    decodeOrphanQueuedAt (encodeOrphan queuedAt) = queuedAt := by
  have h : Decodes decodeOrphanFields (encodeOrphan queuedAt) queuedAt := by
    apply decodes_expectVersion.bind
    simpa using decodes_timestamp queuedAt
  rw [decodeOrphanQueuedAt, h.runOn]

end Codec

end MonoBucket

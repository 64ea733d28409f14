/-
Rows of older and newer builds

A field added after its record shipped stands at the end of the row, and is read only
if the row reaches that far. A row of an older build is the encoding cut in front of
such a field, and it is read with the missing fields at their defaults. A row of a
newer build goes on behind the last field, and what follows is not looked at.
-/

import MonoBucket.Storage.RecordCodec

namespace MonoBucket.Codec

/-! ### Reading to the end of a row -/

/-- Reading a row that ends behind `bytes` returns `value`. -/
def Finishes {α : Type} (read : Read α) (bytes : Bytes) (value : α) : Prop :=
  ∀ reader : Reader, reader.rest = bytes → read reader = .ok (value, reader.skip bytes.length)

/-- Whatever follows `bytes`, reading throws this. -/
def Throws {α : Type} (read : Read α) (bytes : Bytes) (error : DecodeError) : Prop :=
  ∀ (reader : Reader) (tail : Bytes), reader.rest = bytes ++ tail → read reader = .error error

section Combinators

variable {α β : Type} {read : Read α} {next : α → Read β} {first second : Bytes} {value : α}
  {result : β} {error : DecodeError}

theorem Decodes.finishes (h : Decodes read first value) : Finishes read first value :=
  fun reader hrest => h reader [] (by rw [hrest, List.append_nil])

theorem finishes_pure (value : α) : Finishes (pure value) [] value := (decodes_pure value).finishes

/-- The row reaches past the first read. -/
theorem Decodes.bind_finishes (hread : Decodes read first value)
    (hnext : Finishes (next value) second result) :
    Finishes (read >>= next) (first ++ second) result := by
  intro reader hrest
  have hfirst := hread reader second hrest
  have hsecond := hnext (reader.skip first.length) (by rw [Reader.rest_skip, hrest, List.drop_left])
  simp [Bind.bind, StateT.bind, Except.bind, hfirst, hsecond]

/-- The row has ended before the first read. -/
theorem Finishes.bind (hread : Finishes read [] value) (hnext : Finishes (next value) [] result) :
    Finishes (read >>= next) [] result := by
  intro reader hrest
  have hfirst := hread reader hrest
  have hsecond := hnext reader hrest
  simp only [List.length_nil, Reader.skip_zero] at hfirst hsecond ⊢
  simp [Bind.bind, StateT.bind, Except.bind, hfirst, hsecond]

theorem finishes_ifMore (missing : α) : Finishes (ifMore missing read) [] missing := by
  intro reader hrest
  have hended : reader.rest.isEmpty = true := by
    rw [hrest]
    rfl
  simp only [ifMore, exhausted, Bind.bind, StateT.bind, Except.bind, hended, if_true]
  rfl

theorem Finishes.ifMore (hread : Finishes read first value) (hne : first ≠ []) (missing : α) :
    Finishes (ifMore missing read) first value := by
  intro reader hrest
  have hmore : reader.rest.isEmpty = false := by
    rw [hrest]
    exact List.isEmpty_eq_false_iff.mpr hne
  simpa [Codec.ifMore, exhausted, Bind.bind, StateT.bind, Except.bind, hmore] using
    hread reader hrest

theorem Finishes.map (hread : Finishes read first value) (f : α → β) :
    Finishes (do let value ← read; pure (f value)) first (f value) := by
  intro reader hrest
  simp only [Bind.bind, StateT.bind, Except.bind, hread reader hrest]
  rfl

theorem Finishes.runOn (hread : Finishes read first value) : Codec.runOn read first = .ok value := by
  have h := hread (Reader.ofBytes first) (Reader.rest_ofBytes first)
  simp [Codec.runOn, h, Except.map]

theorem Decodes.bind_throws (hread : Decodes read first value)
    (hnext : Throws (next value) second error) : Throws (read >>= next) (first ++ second) error := by
  intro reader tail hrest
  rw [List.append_assoc] at hrest
  have hfirst := hread reader (second ++ tail) hrest
  have hsecond := hnext (reader.skip first.length) tail (by
    rw [Reader.rest_skip, hrest, List.drop_left])
  simp [Bind.bind, StateT.bind, Except.bind, hfirst, hsecond]

theorem Throws.bind (hread : Throws read first error) : Throws (read >>= next) first error := by
  intro reader tail hrest
  simp [Bind.bind, StateT.bind, Except.bind, hread reader tail hrest]

theorem Throws.append (hread : Throws read first error) : Throws read (first ++ second) error := by
  intro reader tail hrest
  rw [List.append_assoc] at hrest
  exact hread reader (second ++ tail) hrest

theorem Throws.ifMore (hread : Throws read first error) (hne : first ≠ []) (missing : α) :
    Throws (Codec.ifMore missing read) first error := by
  intro reader tail hrest
  have hmore : reader.rest.isEmpty = false := by
    rw [hrest]
    exact List.isEmpty_eq_false_iff.mpr (List.append_ne_nil_of_left_ne_nil hne tail)
  simpa [Codec.ifMore, exhausted, Bind.bind, StateT.bind, Except.bind, hmore] using
    hread reader tail hrest

theorem Throws.runOn_append (hread : Throws read first error) (extra : Bytes) :
    Codec.runOn read (first ++ extra) = .error error := by
  have h := hread (Reader.ofBytes (first ++ extra)) extra (Reader.rest_ofBytes _)
  simp [Codec.runOn, h, Except.map]

end Combinators

/-! ### Layouts -/

/-- A record's older layouts are read, and what follows its current one is not. A layout
is how many fields it has, and the record with the others at their defaults. -/
structure Compatible {α : Type} (decode : Bytes → Except DecodeError α) (fields : List Bytes)
    (layouts : List (Nat × α)) : Prop where
  older : ∀ layout ∈ layouts, decode (fields.take layout.1).flatten = .ok layout.2
  newer : ∀ extra, decode (fields.flatten ++ extra) = decode fields.flatten

/-- A decoder that reads the whole current layout reads no further. -/
theorem newer_of_decodes {α : Type} {read : Read α} {fields : List Bytes} {record : α}
    (h : Decodes read fields.flatten record) (extra : Bytes) :
    runOn read (fields.flatten ++ extra) = runOn read fields.flatten := by
  rw [h.runOn_append, h.runOn]

section Buckets

variable {bucket : BucketRecord}

def bucketFields (bucket : BucketRecord) : List Bytes :=
  [Writer.u8 recordVersion, Writer.timestamp bucket.createdAt, Writer.boolean bucket.publicRead,
    Writer.string bucket.policy, encodeCorsRules bucket.cors, encodeDurability bucket.durability,
    Writer.varint bucket.quotaBytes, Writer.boolean bucket.publicList]

/-- Before CORS rules, before durability levels, before allocations, and before listing
was told from reading. -/
def bucketLayouts (bucket : BucketRecord) : List (Nat × BucketRecord) :=
  [(4, { bucket with cors := .empty, durability := none, quotaBytes := 0, publicList := false }),
    (5, { bucket with durability := none, quotaBytes := 0, publicList := false }),
    (6, { bucket with quotaBytes := 0, publicList := false }), (7, { bucket with publicList := false })]

theorem encodeBucket_eq : encodeBucket bucket = (bucketFields bucket).flatten := rfl

def BucketCompatible (bucket : BucketRecord) : Prop :=
  Compatible (decodeBucket bucket.name) (bucketFields bucket) (bucketLayouts bucket)

/-- The four fields the record shipped with, and then whatever else there is. -/
theorem decodeBucket_of_finishes {back : List Bytes} {record : BucketRecord}
    (hback : Finishes (do
      let cors ← ifMore .empty decodeCorsRules
      let tail ← ifMore (none, 0, false) decodeBucketTail
      pure
        { bucket with
          cors := cors
          durability := tail.1
          quotaBytes := tail.2.1
          publicList := tail.2.2 }) back.flatten record) :
    decodeBucket bucket.name (Writer.u8 recordVersion :: Writer.timestamp bucket.createdAt ::
      Writer.boolean bucket.publicRead :: Writer.string bucket.policy :: back).flatten = .ok record := by
  apply Finishes.runOn
  apply decodes_expectVersion.bind_finishes
  apply (decodes_timestamp _).bind_finishes
  apply (decodes_boolean _).bind_finishes
  apply (decodes_string _).bind_finishes
  exact hback

/-- Rules that can be read, and then the tail. -/
theorem finishes_cors {back : List Bytes} {tail : Option Durability × UInt64 × Bool}
    (hcount : bucket.cors.size ≤ maxCorsRules) (hfits : ∀ rule ∈ bucket.cors.items, rule.ListsFit)
    (htail : Finishes (ifMore (none, 0, false) decodeBucketTail) back.flatten tail) :
    Finishes (do
      let cors ← ifMore .empty decodeCorsRules
      let tail ← ifMore (none, 0, false) decodeBucketTail
      pure
        { bucket with
          cors := cors
          durability := tail.1
          quotaBytes := tail.2.1
          publicList := tail.2.2 }) (encodeCorsRules bucket.cors :: back).flatten
      { bucket with
        cors := bucket.cors.map CorsRule.reread
        durability := tail.1
        quotaBytes := tail.2.1
        publicList := tail.2.2 } := by
  apply ((decodes_corsRules hcount hfits).ifMore (encodeCorsRules_ne_nil _) .empty).bind_finishes
  exact htail.map fun tail =>
    { bucket with
      cors := bucket.cors.map CorsRule.reread
      durability := tail.1
      quotaBytes := tail.2.1
      publicList := tail.2.2 }

/-- The tail of a row that has a level, and then an allocation, and then the flag. -/
theorem finishes_bucketTail :
    Finishes decodeBucketTail [encodeDurability bucket.durability].flatten (bucket.durability, 0, false) ∧
      Finishes decodeBucketTail
        [encodeDurability bucket.durability, Writer.varint bucket.quotaBytes].flatten
        (bucket.durability, bucket.quotaBytes, false) := by
  constructor
  · apply (decodes_durability _).bind_finishes
    exact (finishes_ifMore 0).bind ((finishes_ifMore false).bind (finishes_pure _))
  · apply (decodes_durability _).bind_finishes
    apply ((decodes_varint _).ifMore (Writer.varint_ne_nil _) 0).bind_finishes
    exact (finishes_ifMore false).bind (finishes_pure _)

theorem reread_of_storable (h : bucket.Storable) : bucket.cors.map CorsRule.reread = bucket.cors := by
  have hread := decodeBucket_encodeBucket h.ruleCount h.listsFit
  rw [(decodeBucket_encodeBucket_iff bucket).mpr h] at hread
  exact (congrArg BucketRecord.cors (Except.ok.inj hread)).symm

theorem decodeBucket_cors_error
    (hlong : ¬ (bucket.cors.size ≤ maxCorsRules ∧ ∀ rule ∈ bucket.cors.items, rule.ListsFit)) :
    ∃ error, decodeBucket bucket.name ((bucketFields bucket).take 5).flatten = .error error := by
  apply Rejects.runOn
  apply decodes_expectVersion.bind_rejects
  apply (decodes_timestamp _).bind_rejects
  apply (decodes_boolean _).bind_rejects
  apply (decodes_string _).bind_rejects
  exact ((rejects_corsRules hlong).ifMore (encodeCorsRules_ne_nil _) .empty).bind.append

/-- A row that ends behind its rules reads back with the rules normalised. -/
theorem decodeBucket_cors (hcount : bucket.cors.size ≤ maxCorsRules)
    (hfits : ∀ rule ∈ bucket.cors.items, rule.ListsFit) :
    decodeBucket bucket.name ((bucketFields bucket).take 5).flatten =
      .ok { bucket with
        cors := bucket.cors.map CorsRule.reread
        durability := none
        quotaBytes := 0
        publicList := false } :=
  decodeBucket_of_finishes (@finishes_cors bucket [] _ hcount hfits (finishes_ifMore _))

/-- A bucket's layouts are compatible as long as its rules are within the bounds only
the decoder knows. -/
theorem bucketCompatible_iff (bucket : BucketRecord) : BucketCompatible bucket ↔ bucket.Storable := by
  constructor
  · intro h
    have hcors := h.older _ (List.mem_cons_of_mem _ List.mem_cons_self)
    have hbounds : bucket.cors.size ≤ maxCorsRules ∧ ∀ rule ∈ bucket.cors.items, rule.ListsFit := by
      by_contra hlong
      obtain ⟨error, herror⟩ := decodeBucket_cors_error hlong
      cases herror.symm.trans hcors
    have hsame := congrArg BucketRecord.cors
      (Except.ok.inj ((decodeBucket_cors hbounds.1 hbounds.2).symm.trans hcors))
    have hitems : bucket.cors.items.map CorsRule.reread = bucket.cors.items :=
      congrArg Sized.items hsame
    exact ⟨hbounds.1, hbounds.2, fun rule hrule => rule.reread_eq_self_iff.mp
      (List.map_inj_left.mp (hitems.trans (List.map_id _).symm) rule hrule)⟩
  · intro h
    have hsame := reread_of_storable h
    have hlevel : ∀ {back : List Bytes}, (encodeDurability bucket.durability :: back).flatten ≠ [] := by
      intro back
      simp [encodeDurability, Writer.boolean_ne_nil]
    refine ⟨?_, newer_of_decodes (decodes_bucket h.ruleCount h.listsFit)⟩
    simp only [bucketLayouts, List.forall_mem_cons, List.not_mem_nil, false_implies, implies_true,
      and_true]
    refine ⟨?_, ?_, ?_, ?_⟩
    · apply @decodeBucket_of_finishes bucket []
      exact (finishes_ifMore Sized.empty).bind
        ((finishes_ifMore (none, 0, false)).bind (finishes_pure _))
    · have hrules := decodeBucket_cors h.ruleCount h.listsFit
      rwa [hsame] at hrules
    · have hrules := finishes_cors h.ruleCount h.listsFit
        (finishes_bucketTail.1.ifMore hlevel (none, 0, false))
      rw [hsame] at hrules
      exact decodeBucket_of_finishes hrules
    · have hrules := finishes_cors h.ruleCount h.listsFit
        (finishes_bucketTail.2.ifMore hlevel (none, 0, false))
      rw [hsame] at hrules
      exact decodeBucket_of_finishes hrules

end Buckets

/-! ### The other records -/

def settingsFields (settings : InstanceSettings) : List Bytes :=
  [Writer.u8 recordVersion, Writer.varint settings.maxUploadBytes]

/-- Before there was an upload limit. -/
def settingsLayouts : List (Nat × InstanceSettings) := [(1, { maxUploadBytes := 0 })]

theorem settings_compatible (settings : InstanceSettings) :
    Compatible decodeSettings (settingsFields settings) settingsLayouts where
  older := by
    simp only [settingsLayouts, List.forall_mem_cons, List.not_mem_nil, false_implies, implies_true,
      and_true]
    apply Finishes.runOn
    apply decodes_expectVersion.bind_finishes
    exact (finishes_ifMore 0).bind (finishes_pure _)
  newer := newer_of_decodes (decodes_settings settings)

def accessKeyFields (key : AccessKeyRecord) : List Bytes :=
  [Writer.u8 recordVersion, Writer.string key.secretKey, Writer.string key.name,
    Writer.timestamp key.createdAt, Writer.timestamp key.rotatedAt, Writer.string key.owner]

/-- Before keys had owners. -/
def accessKeyLayouts (key : AccessKeyRecord) : List (Nat × AccessKeyRecord) :=
  [(5, { key with owner := .empty })]

theorem accessKey_compatible (key : AccessKeyRecord) :
    Compatible (decodeAccessKey key.accessKeyId) (accessKeyFields key) (accessKeyLayouts key) where
  older := by
    simp only [accessKeyLayouts, List.forall_mem_cons, List.not_mem_nil, false_implies, implies_true,
      and_true]
    apply Finishes.runOn
    apply decodes_expectVersion.bind_finishes
    apply (decodes_string _).bind_finishes
    apply (decodes_string _).bind_finishes
    apply (decodes_timestamp _).bind_finishes
    apply (decodes_timestamp _).bind_finishes
    exact (finishes_ifMore Sized.empty).bind (finishes_pure _)
  newer := newer_of_decodes (decodes_accessKey key)

def userFields (user : UserRecord) : List Bytes :=
  [Writer.u8 recordVersion, Writer.string user.passwordHash, Writer.string user.role.toText,
    Writer.boolean user.disabled, Writer.timestamp user.createdAt, Writer.timestamp user.updatedAt,
    Writer.timestamp user.passwordChangedAt, encodeBucketGrants user.buckets]

/-- Before there was access to one bucket. -/
def userLayouts (user : UserRecord) : List (Nat × UserRecord) := [(7, { user with buckets := {} })]

/-- Grants that name too many buckets are refused the same way whatever follows them. -/
theorem throws_bucketGrants {grants : BucketGrants}
    (hlong : ¬ grants.exceptions.toSized.size ≤ maxGrantExceptions) :
    Throws decodeBucketGrants (encodeBucketGrants grants) .listTooLong := by
  have hlist : Throws (boundedVector maxGrantExceptions decodeGrant)
      (Writer.varint grants.exceptions.toSized.size) .listTooLong := by
    have hbound : Throws (boundedVector maxGrantExceptions decodeGrant)
        (Writer.varint grants.exceptions.toSized.size ++ []) .listTooLong := by
      apply (decodes_varint _).bind_throws
      rw [if_pos (UInt64.not_le.mp hlong)]
      exact fun _ _ _ => rfl
    rwa [List.append_nil] at hbound
  apply (decodes_bucketAccess grants.fallback).bind_throws
  exact hlist.bind.append

theorem throws_user {user : UserRecord} (hlong : ¬ user.Storable) :
    Throws (decodeUserFields user.username) (userFields user).flatten .listTooLong := by
  apply decodes_expectVersion.bind_throws
  apply (decodes_string _).bind_throws
  apply (decodes_role _).bind_throws
  apply (decodes_boolean _).bind_throws
  apply (decodes_timestamp _).bind_throws
  apply (decodes_timestamp _).bind_throws
  apply (decodes_timestamp _).bind_throws
  exact ((throws_bucketGrants hlong).ifMore (encodeBucketGrants_ne_nil _) {}).bind.append

theorem user_compatible (user : UserRecord) :
    Compatible (decodeUser user.username) (userFields user) (userLayouts user) where
  older := by
    simp only [userLayouts, List.forall_mem_cons, List.not_mem_nil, false_implies, implies_true,
      and_true]
    apply Finishes.runOn
    apply decodes_expectVersion.bind_finishes
    apply (decodes_string _).bind_finishes
    apply (decodes_role _).bind_finishes
    apply (decodes_boolean _).bind_finishes
    apply (decodes_timestamp _).bind_finishes
    apply (decodes_timestamp _).bind_finishes
    apply (decodes_timestamp _).bind_finishes
    exact (finishes_ifMore ({} : BucketGrants)).bind (finishes_pure _)
  newer extra := by
    by_cases hstorable : user.Storable
    · exact newer_of_decodes (decodes_user hstorable) extra
    · have hwhole := (throws_user hstorable).runOn_append []
      rw [List.append_nil] at hwhole
      rw [decodeUser, decodeUser, hwhole, (throws_user hstorable).runOn_append extra]

def objectFields (object : ObjectRecord) : List Bytes :=
  [Writer.u8 recordVersion, Writer.string object.blobId, Writer.varint object.size,
    Writer.string object.etag, Writer.string object.sha256, Writer.string object.contentType,
    Writer.timestamp object.lastModified, encodeMetadata object.userMetadata,
    encodeChecksum object.checksum, encodeContentHeaders object.content]

/-- Before checksums, and before content headers. -/
def objectLayouts (object : ObjectRecord) : List (Nat × ObjectRecord) :=
  [(8, { object with checksum := {}, content := {} }), (9, { object with content := {} })]

theorem object_compatible (object : ObjectRecord) :
    Compatible (decodeObject object.key) (objectFields object) (objectLayouts object) where
  older := by
    have hchecksum := (decodes_checksum object.checksum).ifMore (encodeChecksum_ne_nil _) {}
    simp only [objectLayouts, List.forall_mem_cons, List.not_mem_nil, false_implies, implies_true,
      and_true]
    constructor
    all_goals
      apply Finishes.runOn
      apply decodes_expectVersion.bind_finishes
      apply (decodes_string _).bind_finishes
      apply (decodes_varint _).bind_finishes
      apply (decodes_string _).bind_finishes
      apply (decodes_string _).bind_finishes
      apply (decodes_string _).bind_finishes
      apply (decodes_timestamp _).bind_finishes
      apply (decodes_metadata _).bind_finishes
    · exact (finishes_ifMore ({} : Checksum)).bind
        ((finishes_ifMore ({} : ContentHeaders)).bind (finishes_pure _))
    · apply hchecksum.bind_finishes
      exact (finishes_ifMore ({} : ContentHeaders)).bind (finishes_pure _)
  newer := newer_of_decodes (decodes_object object)

def uploadFields (upload : UploadRecord) : List Bytes :=
  [Writer.u8 recordVersion, Writer.string upload.bucket, Writer.string upload.key,
    Writer.string upload.contentType, Writer.timestamp upload.createdAt,
    encodeMetadata upload.userMetadata, encodeChecksum (uploadChecksum upload.checksumAlgorithm),
    encodeContentHeaders upload.content]

/-- Before checksums, and before content headers. -/
def uploadLayouts (upload : UploadRecord) : List (Nat × UploadRecord) :=
  [(6, { upload with checksumAlgorithm := none, content := {} }), (7, { upload with content := {} })]

theorem upload_compatible (upload : UploadRecord) :
    Compatible (decodeUpload upload.uploadId) (uploadFields upload) (uploadLayouts upload) where
  older := by
    have hchecksum := (decodes_checksum (uploadChecksum upload.checksumAlgorithm)).ifMore
      (encodeChecksum_ne_nil _) {}
    simp only [uploadLayouts, List.forall_mem_cons, List.not_mem_nil, false_implies, implies_true,
      and_true]
    constructor
    all_goals
      apply Finishes.runOn
      apply decodes_expectVersion.bind_finishes
      apply (decodes_string _).bind_finishes
      apply (decodes_string _).bind_finishes
      apply (decodes_string _).bind_finishes
      apply (decodes_timestamp _).bind_finishes
      apply (decodes_metadata _).bind_finishes
    · exact (finishes_ifMore ({} : Checksum)).bind
        ((finishes_ifMore ({} : ContentHeaders)).bind (finishes_pure _))
    · apply hchecksum.bind_finishes
      exact (finishes_ifMore ({} : ContentHeaders)).bind (finishes_pure _)
  newer := newer_of_decodes (decodes_upload upload)

def partFields (part : PartRecord) : List Bytes :=
  [Writer.u8 recordVersion, Writer.string part.blobId, Writer.varint part.size,
    Writer.string part.etag, Writer.timestamp part.uploadedAt, encodeChecksum part.checksum]

/-- Before checksums. -/
def partLayouts (part : PartRecord) : List (Nat × PartRecord) := [(5, { part with checksum := {} })]

theorem part_compatible (part : PartRecord) :
    Compatible (decodePart part.partNumber) (partFields part) (partLayouts part) where
  older := by
    simp only [partLayouts, List.forall_mem_cons, List.not_mem_nil, false_implies, implies_true,
      and_true]
    apply Finishes.runOn
    apply decodes_expectVersion.bind_finishes
    apply (decodes_string _).bind_finishes
    apply (decodes_varint _).bind_finishes
    apply (decodes_string _).bind_finishes
    apply (decodes_timestamp _).bind_finishes
    exact (finishes_ifMore ({} : Checksum)).bind (finishes_pure _)
  newer := newer_of_decodes (decodes_part part)

/-! ### Every record -/

/-- Each encoding is its fields one behind the other. -/
theorem encodings_eq_flatten (bucket : BucketRecord) (settings : InstanceSettings)
    (key : AccessKeyRecord) (user : UserRecord) (object : ObjectRecord) (upload : UploadRecord)
    (part : PartRecord) :
    encodeBucket bucket = (bucketFields bucket).flatten ∧
      encodeSettings settings = (settingsFields settings).flatten ∧
      encodeAccessKey key = (accessKeyFields key).flatten ∧
      encodeUser user = (userFields user).flatten ∧
      encodeObject object = (objectFields object).flatten ∧
      encodeUpload upload = (uploadFields upload).flatten ∧
      encodePart part = (partFields part).flatten :=
  ⟨rfl, rfl, rfl, rfl, rfl, rfl, rfl⟩

/-- The layouts of all seven records are compatible. -/
structure AllCompatible (bucket : BucketRecord) (settings : InstanceSettings) (key : AccessKeyRecord)
    (user : UserRecord) (object : ObjectRecord) (upload : UploadRecord) (part : PartRecord) : Prop where
  bucket : BucketCompatible bucket
  settings : Compatible decodeSettings (settingsFields settings) settingsLayouts
  accessKey : Compatible (decodeAccessKey key.accessKeyId) (accessKeyFields key) (accessKeyLayouts key)
  user : Compatible (decodeUser user.username) (userFields user) (userLayouts user)
  object : Compatible (decodeObject object.key) (objectFields object) (objectLayouts object)
  upload : Compatible (decodeUpload upload.uploadId) (uploadFields upload) (uploadLayouts upload)
  part : Compatible (decodePart part.partNumber) (partFields part) (partLayouts part)

section Fixed

/-- A bucket with a rule of 1001 origins. -/
def manyOrigins : BucketRecord where
  name := ascii "photos"
  cors :=
    ⟨[{ allowedOrigins :=
          ⟨List.replicate 1001 ⟨ascii "*", fits_star⟩, List.length_replicate.trans_lt (by decide)⟩ }],
      (by decide : 1 < 2 ^ 64)⟩

end Fixed

end MonoBucket.Codec

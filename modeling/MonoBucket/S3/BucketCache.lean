/-
The S3 bucket cache

`requireBucket` is what every S3 handler and the authorisation of anonymous
requests learn about a bucket from: a cached entry when there is one that reads,
the store otherwise, which then fills the cache. The entry has an encoding of
its own. It carries the creation time, the read flag, the policy and the CORS
rules, and it does not carry the list flag, so an anonymous listing is answered
from the record on a cold cache and refused on a warm one.
-/

import MonoBucket.Cache.MemoryCache
import MonoBucket.S3.Names
import MonoBucket.S3.Operation
import MonoBucket.S3.S3Error
import MonoBucket.Storage.BucketRows

namespace MonoBucket.S3

open Codec

/-! ### Entries -/

def bucketCacheKey (name : Bytes) : Bytes := ascii "b:" ++ name

def objectCacheKey (bucket key : Bytes) : Bytes := ascii "o:" ++ bucket ++ [slash] ++ key

theorem bucketCacheKey_injective {first second : Bytes}
    (h : bucketCacheKey first = bucketCacheKey second) : first = second :=
  List.append_cancel_left h

/-- What `requireBucket` puts in the cache. -/
def encodeCachedBucket (record : BucketRecord) : Bytes :=
  [Writer.timestamp record.createdAt, Writer.boolean record.publicRead,
    Writer.string record.policy, encodeCorsRules record.cors].flatten

def decodeCachedBucketFields (name : Bytes) : Read BucketRecord := do
  let createdAt ← timestamp
  let publicRead ← boolean
  let policy ← string
  let cors ← decodeCorsRules
  pure
    { name := name
      createdAt := createdAt
      publicRead := publicRead
      policy := policy
      cors := cors }

def decodeCachedBucket (name stored : Bytes) : Except DecodeError BucketRecord :=
  runOn (decodeCachedBucketFields name) stored

/-- What an entry carries of a record; the rest are a record's defaults. -/
def carried (record : BucketRecord) : BucketRecord :=
  { name := record.name
    createdAt := record.createdAt
    publicRead := record.publicRead
    policy := record.policy
    cors := record.cors }

/-- An entry filled from a record that reads back gives back what it carries. -/
theorem decodeCachedBucket_encodeCachedBucket {record : BucketRecord} (h : record.Storable) :
    decodeCachedBucket record.name (encodeCachedBucket record) = .ok (carried record) := by
  have hcors : record.cors.map CorsRule.reread = record.cors := by
    ext1
    refine (List.map_inj_left.mpr fun rule hrule => ?_).trans (List.map_id _)
    exact rule.reread_eq_self_iff.mpr (h.maxAges rule hrule)
  have hrules := decodes_corsRules h.ruleCount h.listsFit
  rw [hcors] at hrules
  apply Decodes.runOn
  apply (decodes_timestamp _).bind
  apply (decodes_boolean _).bind
  apply (decodes_string _).bind
  have hbytes : [encodeCorsRules record.cors].flatten = encodeCorsRules record.cors := by simp
  rw [hbytes]
  exact hrules.map fun cors =>
    { name := record.name
      createdAt := record.createdAt
      publicRead := record.publicRead
      policy := record.policy
      cors := cors : BucketRecord }

/-! ### Looking a bucket up -/

section Lookup

variable (hash : Bytes → UInt64)

/-- What a cached entry says, when there is one and it reads. -/
def cachedBucket (name : Bytes) (cached : Option Bytes) : Option BucketRecord :=
  cached.bind fun stored => (decodeCachedBucket name stored).toOption

def requireBucket (rows : Rows) (ttlSeconds ticks : Int64) (cache : MemoryCache) (name : Bytes) :
    MemoryCache × Except HandlerError BucketRecord :=
  if isValidBucketName name then
    let (cache, cached) := cache.get hash ticks (bucketCacheKey name)
    match cachedBucket name cached with
    | some record => (cache, .ok record)
    | none =>
      match loadBucket rows name with
      | .error error => (cache, .error (.storage error))
      | .ok none => (cache, (throwCode .noSuchBucket).mapError .s3)
      | .ok (some record) =>
        (cache.set hash ticks (bucketCacheKey name) (encodeCachedBucket record) ttlSeconds, .ok record)
  else (cache, (throwCode .invalidBucketName).mapError .s3)

end Lookup

/-! ### Authorisation -/

/-- Who a verified signature belongs to. -/
structure SignedIdentity where
  role : Role
  username : Bytes
  grants : BucketGrants
  deriving DecidableEq

def accessDenied : Except HandlerError Unit := (throwCode .accessDenied).mapError .s3

/-- Whether a bucket's flags let an anonymous request perform an operation. -/
def publishes (bucket : BucketRecord) : Operation → Bool
  | .getObject | .headObject => bucket.publicRead
  | .listObjectsV1 | .listObjectsV2 | .headBucket => bucket.publicList
  | _ => false

/-- `authorize`, given what `requireBucket` answers for the bucket the request
names. The refusal of a signed request is also recorded in the audit log. -/
def authorize (lookup : Except HandlerError BucketRecord) (bucket : Bytes) (operation : Operation)
    (anonymous : Bool) (identity : Option SignedIdentity) : Except HandlerError Unit :=
  if anonymous then
    if isReadOnly operation then
      if bucket = [] then accessDenied
      else do
        let record ← lookup
        if publishes record operation then pure () else accessDenied
    else accessDenied
  else
    match identity with
    | none => accessDenied
    | some identity =>
      let needed := permissionFor operation
      if identity.role.allows needed then
        if bucket ≠ [] ∧ ¬ allowsIn identity.role identity.grants bucket needed then accessDenied
        else pure ()
      else accessDenied

/-- The fields of a bucket's record that an S3 answer is computed from: the
flags in `authorize`, the read flag in GetBucketAcl, the policy in
GetBucketPolicy, the rules in GetBucketCors, preflights and CORS headers. -/
def consulted (record : BucketRecord) : Bool × Bool × Text × Sized CorsRule :=
  (record.publicRead, record.publicList, record.policy, record.cors)

/-- Two look-ups authorise every request alike and answer everything else alike. -/
def SameAnswers (bucket : Bytes) (first second : Except HandlerError BucketRecord) : Prop :=
  (∀ operation anonymous identity,
    authorize first bucket operation anonymous identity =
      authorize second bucket operation anonymous identity) ∧
  first.map consulted = second.map consulted

/-! ### A warm cache against a cold one -/

section Warm

variable {hash : Bytes → UInt64} {rows : Rows} {ttlSeconds ticks later : Int64}
  {cache : MemoryCache} {name : Bytes}

/-- A lookup of a bucket with no readable entry is answered by the store, and
leaves an entry filled from that answer or none at all. -/
theorem requireBucket_of_miss {record : BucketRecord} (hvalid : isValidBucketName name = true)
    (hload : loadBucket rows name = .ok (some record))
    (hmiss : cachedBucket name (cache.get hash ticks (bucketCacheKey name)).2 = none) :
    requireBucket hash rows ttlSeconds ticks cache name =
      ((cache.get hash ticks (bucketCacheKey name)).1.set hash ticks (bucketCacheKey name)
        (encodeCachedBucket record) ttlSeconds, .ok record) := by
  simp only [requireBucket, hvalid, if_true, hmiss, hload]

/-- A lookup that finds the entry filled from a record answers what it carries. -/
theorem requireBucket_of_hit {record : BucketRecord} (hvalid : isValidBucketName record.name = true)
    (hstorable : record.Storable)
    (hhit : (cache.get hash ticks (bucketCacheKey record.name)).2 =
      some (encodeCachedBucket record)) :
    (requireBucket hash rows ttlSeconds ticks cache record.name).2 = .ok (carried record) := by
  have hcached : cachedBucket record.name (cache.get hash ticks (bucketCacheKey record.name)).2 =
      some (carried record) := by
    rw [hhit, cachedBucket]
    simp [decodeCachedBucket_encodeCachedBucket hstorable, Except.toOption]
  simp only [requireBucket, hvalid, if_true, hcached]

/-- A warm look-up in the cache that a cold one filled answers what the entry
carries of the record the store answered. -/
theorem requireBucket_warm {record : BucketRecord} (hvalid : isValidBucketName record.name = true)
    (hstorable : record.Storable) (hload : loadBucket rows record.name = .ok (some record))
    (hcold : cachedBucket record.name (cache.get hash ticks (bucketCacheKey record.name)).2 = none)
    (hwarm : ((requireBucket hash rows ttlSeconds ticks cache record.name).1.get hash later
      (bucketCacheKey record.name)).2.isSome) :
    (requireBucket hash rows ttlSeconds later
      (requireBucket hash rows ttlSeconds ticks cache record.name).1 record.name).2 =
        .ok (carried record) := by
  obtain ⟨stored, hstored⟩ := Option.isSome_iff_exists.mp hwarm
  refine requireBucket_of_hit hvalid hstorable ?_
  have hheld := MemoryCache.holds_of_get hstored
  rw [requireBucket_of_miss hvalid hload hcold] at hheld
  rcases hheld.of_set with ⟨-, rfl⟩ | ⟨hne, -⟩
  · exact hstored
  · exact absurd rfl hne

/-- An anonymous request to list a bucket or to ask whether it exists. -/
def isListing : Operation → Bool
  | .listObjectsV1 | .listObjectsV2 | .headBucket => true
  | _ => false

/-- On what an entry carries, a request is authorised as on the record itself
unless it is an anonymous listing of a bucket whose names are public. -/
theorem authorize_carried_iff (record : BucketRecord) {bucket : Bytes} (hbucket : bucket ≠ [])
    (operation : Operation) (anonymous : Bool) (identity : Option SignedIdentity) :
    authorize (.ok (carried record)) bucket operation anonymous identity =
        authorize (.ok record) bucket operation anonymous identity ↔
      ¬ (anonymous = true ∧ isListing operation = true ∧ record.publicList = true) := by
  have hdenied : ∀ allowed : Bool,
      (if allowed then pure () else accessDenied : Except HandlerError Unit) = accessDenied ↔
        allowed = false := by
    intro allowed
    cases allowed <;> decide
  cases anonymous with
  | false => simp [authorize]
  | true =>
      have hauthorize : ∀ answer : BucketRecord,
          authorize (.ok answer) bucket operation true identity =
            if isReadOnly operation then
              if publishes answer operation then pure () else accessDenied
            else accessDenied := by
        intro answer
        simp only [authorize, if_true, if_neg hbucket]
        rfl
      rw [hauthorize, hauthorize]
      have hlisting : isListing operation = true →
          publishes (carried record) operation = false ∧
            publishes record operation = record.publicList ∧ isReadOnly operation = true := by
        cases operation <;> simp [isListing, publishes, carried, isReadOnly]
      have hother : isListing operation = false →
          publishes (carried record) operation = publishes record operation := by
        cases operation <;> simp [isListing, publishes, carried]
      cases hcase : isListing operation with
      | false => simp [hother hcase]
      | true =>
          obtain ⟨hcarried, hrecord, hreads⟩ := hlisting hcase
          rw [hcarried, hrecord, hreads]
          simp only [if_true, Bool.false_eq_true, if_false, true_and]
          rw [eq_comm, hdenied, Bool.not_eq_true]

/-- A warm cache answers as a cold one exactly for buckets whose names are not
public. -/
theorem warm_sameAnswers_iff {bucket record : BucketRecord}
    (hvalid : isValidBucketName bucket.name = true)
    (hstored : rows.find? (Keys.bucket bucket.name) = some (encodeBucket bucket))
    (hload : loadBucket rows bucket.name = .ok (some record))
    (hcold : cachedBucket bucket.name (cache.get hash ticks (bucketCacheKey bucket.name)).2 = none)
    (hwarm : ((requireBucket hash rows ttlSeconds ticks cache bucket.name).1.get hash later
      (bucketCacheKey bucket.name)).2.isSome) :
    SameAnswers bucket.name
        (requireBucket hash rows ttlSeconds later
          (requireBucket hash rows ttlSeconds ticks cache bucket.name).1 bucket.name).2
        (requireBucket hash rows ttlSeconds ticks cache bucket.name).2 ↔
      bucket.publicList = false := by
  have hread := decodeBucket_of_load hstored hload
  have hstorable := storable_of_decodeBucket_encodeBucket hread
  have hrecord := eq_of_decodeBucket_encodeBucket hread
  have hname : bucket.name = record.name := by rw [hrecord]
  have hlist : bucket.publicList = record.publicList := by rw [hrecord]
  have hbucket : record.name ≠ [] := by
    intro hempty
    rw [hname, hempty] at hvalid
    exact absurd hvalid (by decide)
  rw [hname] at hvalid hload hcold hwarm
  rw [hname, hlist, requireBucket_warm hvalid hstorable hload hcold hwarm,
    requireBucket_of_miss hvalid hload hcold]
  constructor
  · intro hsame
    have hdecision := (authorize_carried_iff record hbucket .headBucket true none).mp
      (hsame.1 .headBucket true none)
    simpa [isListing] using hdecision
  · intro hprivate
    refine ⟨fun operation anonymous identity =>
      (authorize_carried_iff record hbucket operation anonymous identity).mpr (by simp [hprivate]), ?_⟩
    simp [Except.map, consulted, carried, hprivate]

end Warm

/-! ### Fixed buckets -/

section Fixed

/-- A bucket whose policy publishes its objects, and its key names if `listed`. -/
def publishedBucket (listed : Bool) : BucketRecord :=
  { name := ascii "photos", createdAt := 7, publicRead := true, publicList := listed,
    policy := ⟨ascii "\x7b\x7d", by decide⟩ }

def publishedRows (listed : Bool) : Rows :=
  Rows.write .empty
    [.put (Keys.bucket (publishedBucket listed).name) (encodeBucket (publishedBucket listed))]

/-- A cache of one shard. -/
def smallCache : MemoryCache := { shards := fun _ => { budget := 1000000 } }

/-- The cold look-up, at time 0. -/
def coldLookup (listed : Bool) : MemoryCache × Except HandlerError BucketRecord :=
  requireBucket (fun _ => 0) (publishedRows listed) 60 0 smallCache (publishedBucket listed).name

/-- The warm one, a second later. -/
def warmLookup (listed : Bool) : MemoryCache × Except HandlerError BucketRecord :=
  requireBucket (fun _ => 0) (publishedRows listed) 60 1000 (coldLookup listed).1
    (publishedBucket listed).name

theorem warm_sameAnswers_iff_unlisted :
    SameAnswers (publishedBucket false).name (warmLookup false).2 (coldLookup false).2 ↔
      (publishedBucket false).publicList = false := by
  have hstored : (publishedRows false).find? (Keys.bucket (publishedBucket false).name) =
      some (encodeBucket (publishedBucket false)) := by decide +kernel
  have hload : loadBucket (publishedRows false) (publishedBucket false).name =
      .ok (some (publishedBucket false)) := by decide +kernel
  exact warm_sameAnswers_iff (by decide +kernel) hstored hload (by decide +kernel) (by decide +kernel)

/-- The policy publishes the key names: the first anonymous listing is allowed,
and the next one, a second later, is refused. -/
theorem warm_listing_refused :
    authorize (coldLookup true).2 (publishedBucket true).name .listObjectsV2 true none = .ok () ∧
      authorize (warmLookup true).2 (publishedBucket true).name .listObjectsV2 true none =
        accessDenied ∧
      ¬ SameAnswers (publishedBucket true).name (warmLookup true).2 (coldLookup true).2 := by
  have hcold : authorize (coldLookup true).2 (publishedBucket true).name .listObjectsV2 true none =
      .ok () := by decide +kernel
  have hwarm : authorize (warmLookup true).2 (publishedBucket true).name .listObjectsV2 true none =
      accessDenied := by decide +kernel
  refine ⟨hcold, hwarm, fun hsame => ?_⟩
  have hequal := hsame.1 .listObjectsV2 true none
  rw [hcold, hwarm] at hequal
  cases hequal

end Fixed

end MonoBucket.S3

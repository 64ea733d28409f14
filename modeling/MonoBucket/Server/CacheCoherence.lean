/-
The bucket cache against the store

Entries under a bucket's key are filled from the record the store answers, and
every request that changes a field an entry carries drops the entry behind it,
except the console's deletion of a bucket. As long as that deletion finds no
entry for the bucket it removes, what the cache holds is a copy of what the store
has; once it finds one, the entry outlives the bucket and answers for the next
bucket of that name.
-/

import MonoBucket.Server.FrontDoors

namespace MonoBucket.FrontDoors

open S3 Codec

/-! ### Mirrored records -/

/-- What the cache holds for a bucket says what the store's record says, in every
field an entry carries; for a bucket that is gone it holds nothing. -/
structure Coherent (config : ServerConfig) (server : Server) : Prop where
  entries : ∀ name stored, server.cache.Holds config.hash (bucketCacheKey name) stored →
    ∃ record, loadBucket server.engine.metadata.rows name = .ok (some record) ∧
      decodeCachedBucket name stored = .ok (carried record)
  answers : ∀ ticks name answer,
    (S3.requireBucket config.hash server.engine.metadata.rows config.cacheTtlSeconds ticks
      server.cache name).2 = .ok answer →
    ∃ record, loadBucket server.engine.metadata.rows name = .ok (some record) ∧
      carried answer = carried record

/-- Every entry of a bucket was filled from the record the store has now. -/
structure Mirrors (config : ServerConfig) (server : Server) : Prop where
  records : BucketRows (fun _ => True) server.engine.metadata.rows
  entries : ∀ name stored, server.cache.Holds config.hash (bucketCacheKey name) stored →
    ∃ record, loadBucket server.engine.metadata.rows name = .ok (some record) ∧
      stored = encodeCachedBucket record

/-- A bucket `deleteBucket` would remove. -/
def Removable (rows : Rows) (name : Bytes) : Prop :=
  (∃ record, loadBucket rows name = .ok (some record)) ∧
    rows.hasAny (Keys.objectPrefix name) = false ∧ rows.hasAny (Keys.uploadByKeyPrefix name) = false

instance decidableLoaded (rows : Rows) (name : Bytes) :
    Decidable (∃ record, loadBucket rows name = .ok (some record)) :=
  match loadBucket rows name with
  | .ok (some record) => isTrue ⟨record, rfl⟩
  | .ok none => isFalse nofun
  | .error _ => isFalse nofun

instance decidableRemovable (rows : Rows) (name : Bytes) : Decidable (Removable rows name) :=
  instDecidableAnd

/-- No entry is there under a key, not even an expired one. -/
def Uncached (config : ServerConfig) (server : Server) (key : Bytes) : Prop :=
  ∀ node ∈ (server.cache.shardFor config.hash key).nodes, node.key ≠ key

instance (config : ServerConfig) (server : Server) (key : Bytes) :
    Decidable (Uncached config server key) :=
  inferInstanceAs (Decidable (∀ node ∈ _, _))

/-- The bucket the console is asked to delete. -/
def consoleDeleted : Request → Option Bytes
  | .consoleDeleteBucket name => some name
  | _ => none

/-- A console deletion that removes a bucket finds no entry for it. -/
def DeletesUncached (config : ServerConfig) (server : Server) (label : Label) : Prop :=
  ∀ name ∈ consoleDeleted label.2, Removable server.engine.metadata.rows name →
    Uncached config server (bucketCacheKey name)

instance (config : ServerConfig) (server : Server) (label : Label) :
    Decidable (DeletesUncached config server label) :=
  inferInstanceAs (Decidable (∀ name ∈ consoleDeleted label.2, _ → _))

section Records

variable {rows : Rows} {name : Bytes} {record : BucketRecord}

theorem storable_of_load (hrows : BucketRows (fun _ => True) rows)
    (h : loadBucket rows name = .ok (some record)) : record.Storable := by
  obtain ⟨stored, hfind, hdecode⟩ := decode_of_readRow h
  obtain ⟨bucket, rfl, rfl, -⟩ := hrows _ stored hfind name rfl
  exact storable_of_decodeBucket_encodeBucket hdecode

/-- A record that can be stored is read back. -/
theorem load_put (rows : Rows) (h : record.Storable) :
    loadBucket (rows.write [.put (Keys.bucket record.name) (encodeBucket record)]) record.name =
      .ok (some record) := by
  have hfind : (rows.write [.put (Keys.bucket record.name) (encodeBucket record)]).find?
      (Keys.bucket record.name) = some (encodeBucket record) :=
    Rows.find?_write_of_last rows [] (.put (Keys.bucket record.name) (encodeBucket record))
      (by simp)
  rw [loadBucket, readRow, hfind]
  simp [(decodeBucket_encodeBucket_iff record).mpr h, decoded, Except.map]

theorem loadBucket_congr {next : Rows}
    (h : next.find? (Keys.bucket name) = rows.find? (Keys.bucket name)) :
    loadBucket next name = loadBucket rows name := readRow_congr h

end Records

section Mirrored

variable {config : ServerConfig} {server next : Server}

theorem Mirrors.coherent (h : Mirrors config server) : Coherent config server := by
  have hentries : ∀ name stored,
      server.cache.Holds config.hash (bucketCacheKey name) stored →
      ∃ record, loadBucket server.engine.metadata.rows name = .ok (some record) ∧
        decodeCachedBucket name stored = .ok (carried record) := by
    intro name stored hheld
    obtain ⟨record, hload, rfl⟩ := h.entries name stored hheld
    have hdecode := decodeCachedBucket_encodeCachedBucket (storable_of_load h.records hload)
    rw [StorageEngine.name_of_loadBucket hload] at hdecode
    exact ⟨record, hload, hdecode⟩
  refine ⟨hentries, fun ticks name answer hanswer => ?_⟩
  rw [S3.requireBucket] at hanswer
  split_ifs at hanswer with hvalid
  · dsimp only at hanswer
    split at hanswer
    · rename_i cached hcached
      obtain rfl := Except.ok.inj hanswer
      obtain ⟨stored, hstored, hdecoded⟩ := Option.bind_eq_some_iff.mp hcached
      obtain ⟨record, hload, hdecode⟩ := hentries name stored (MemoryCache.holds_of_get hstored)
      rw [hdecode] at hdecoded
      refine ⟨record, hload, ?_⟩
      rw [← Option.some.inj hdecoded]
      rfl
    · split at hanswer
      · cases hanswer
      · cases hanswer
      · rename_i record hload
        obtain rfl := Except.ok.inj hanswer
        exact ⟨record, hload, rfl⟩
  · cases hanswer

/-- A step that leaves every bucket's row and puts nothing in the cache. -/
theorem Mirrors.of_sameBuckets (h : Mirrors config server)
    (hrows : ∀ name, next.engine.metadata.rows.find? (Keys.bucket name) =
      server.engine.metadata.rows.find? (Keys.bucket name))
    (hcache : ∀ key stored, next.cache.Holds config.hash key stored →
      server.cache.Holds config.hash key stored) : Mirrors config next where
  records := h.records.of_find? fun name stored hfind => by rw [← hrows name, hfind]
  entries name stored hheld := by
    obtain ⟨record, hload, hstored⟩ := h.entries name stored (hcache _ stored hheld)
    exact ⟨record, by rw [loadBucket_congr (hrows name), hload], hstored⟩

/-- A look-up fills the cache from the store. -/
theorem Mirrors.requireBucket (h : Mirrors config server) (ticks : Int64) (name : Bytes) :
    Mirrors config { server with
      cache := (S3.requireBucket config.hash server.engine.metadata.rows config.cacheTtlSeconds
        ticks server.cache name).1 } := by
  have hget : ∀ key stored,
      (server.cache.get config.hash ticks (bucketCacheKey name)).1.Holds config.hash key stored →
      server.cache.Holds config.hash key stored := fun _ _ hheld => hheld.of_get
  rw [S3.requireBucket]
  split_ifs with hvalid
  · dsimp only
    split
    · exact h.of_sameBuckets (fun _ => rfl) hget
    · split
      · exact h.of_sameBuckets (fun _ => rfl) hget
      · exact h.of_sameBuckets (fun _ => rfl) hget
      · rename_i record hload
        refine ⟨h.records, fun other stored hheld => ?_⟩
        rcases hheld.of_set with ⟨hkey, rfl⟩ | ⟨-, holder⟩
        · obtain rfl := bucketCacheKey_injective hkey
          exact ⟨record, hload, rfl⟩
        · exact h.entries other stored (hget _ stored holder)
  · exact h

/-! ### Operations on one bucket -/

/-- What an operation on one bucket leaves: its own row changed at most, every
bucket row still a record's encoding, and no change when it throws. -/
structure BucketChange (name : Bytes) (engine : StorageEngine)
    (outcome : StorageEngine × Except HandlerError Unit) : Prop where
  only : StorageEngine.OnlyBucket name engine.metadata.rows outcome.1.metadata.rows
  records : BucketRows (fun _ => True) outcome.1.metadata.rows
  unchanged : outcome.2 ≠ .ok () → outcome.1.metadata.rows = engine.metadata.rows

theorem BucketChange.refl {name : Bytes} {engine : StorageEngine}
    (hrecords : BucketRows (fun _ => True) engine.metadata.rows) (answer : Except HandlerError Unit) :
    BucketChange name engine (engine, answer) := ⟨.refl _, hrecords, fun _ => rfl⟩

theorem BucketChange.find?_of_ne {name other : Bytes} {engine : StorageEngine}
    {outcome : StorageEngine × Except HandlerError Unit} (h : BucketChange name engine outcome)
    (hother : other ≠ name) : outcome.1.metadata.rows.find? (Keys.bucket other) =
      engine.metadata.rows.find? (Keys.bucket other) :=
  h.only.find?_eq fun _ hop hkey => hother (Keys.bucket_injective (hkey.symm.trans hop))

theorem BucketChange.rows_of_throws {name : Bytes} {engine : StorageEngine}
    {outcome : StorageEngine × Except StoreError Unit}
    (h : BucketChange name engine (Visibility.fromStorage outcome)) (hthrows : outcome.2 ≠ .ok ()) :
    outcome.1.metadata.rows = engine.metadata.rows := by
  refine h.unchanged fun hpassed => hthrows ?_
  cases hanswer : outcome.2 with
  | error error => simp [Visibility.fromStorage, hanswer, Except.mapError] at hpassed
  | ok passed => rfl

/-- The entry dropped behind a change of its bucket. -/
theorem Mirrors.andThen_invalidateBucket (h : Mirrors config server) {name : Bytes}
    {outcome : StorageEngine × Except HandlerError Unit}
    (hchange : BucketChange name server.engine outcome) :
    Mirrors config (andThen server outcome (invalidateBucket config name)).1 := by
  rw [andThen]
  split
  · rename_i error herror
    have hsame := hchange.unchanged (by rw [herror]; simp)
    exact h.of_sameBuckets (fun _ => by rw [hsame]) fun _ _ hheld => hheld
  · refine ⟨hchange.records, fun other stored hheld => ?_⟩
    by_cases hother : other = name
    · subst hother
      exact absurd hheld MemoryCache.not_holds_del
    · obtain ⟨record, hload, hstored⟩ := h.entries other stored hheld.of_del
      refine ⟨record, ?_, hstored⟩
      rw [← hload]
      exact loadBucket_congr (hchange.find?_of_ne hother)

section Changes

variable {name : Bytes} {engine : StorageEngine}

theorem bucketChange_rewriteBucket (hrecords : BucketRows (fun _ => True) engine.metadata.rows)
    {change : BucketRecord → BucketRecord} (hname : ∀ bucket, (change bucket).name = bucket.name) :
    BucketChange name engine (Visibility.fromStorage (engine.rewriteBucket name change)) where
  only := (StorageEngine.rewrites_rewriteBucket hname).mono fun _ hop => hop.1
  records := StorageEngine.holds_rewriteBucket hrecords fun bucket _ =>
    BucketRow.encodeBucket (change bucket) trivial
  unchanged hthrows := by
    rw [Visibility.fromStorage, StorageEngine.rewriteBucket] at hthrows ⊢
    split
    · rfl
    · rfl
    · rename_i bucket hload
      rw [hload] at hthrows
      cases hupdate : updateBucket engine.metadata (change bucket) with
      | error error => rfl
      | ok metadata => simp [hupdate, StorageEngine.commit, Except.mapError] at hthrows

theorem load_of_rewriteBucket_ok {change : BucketRecord → BucketRecord} {next : StorageEngine}
    (h : engine.rewriteBucket name change = (next, .ok ())) :
    ∃ bucket, loadBucket engine.metadata.rows name = .ok (some bucket) := by
  rw [StorageEngine.rewriteBucket] at h
  split at h
  · cases h
  · cases h
  · rename_i bucket hload
    exact ⟨bucket, hload⟩

theorem bucketChange_createBucket (hrecords : BucketRows (fun _ => True) engine.metadata.rows)
    (quotaBytes : UInt64) (now : TimestampMs) :
    BucketChange name engine (Visibility.fromStorage (engine.createBucket name quotaBytes now)) where
  only := StorageEngine.onlyBucket_createBucket quotaBytes now
  records := StorageEngine.holds_createBucket hrecords
    (BucketRow.encodeBucket { name := name, createdAt := now, quotaBytes := quotaBytes } trivial)
  unchanged hthrows := by
    rw [Visibility.fromStorage, StorageEngine.createBucket] at hthrows ⊢
    split
    · rfl
    · rename_i hadmitted
      rw [hadmitted] at hthrows
      dsimp only at hthrows ⊢
      split
      · rfl
      · rename_i metadata hcreate
        simp [hcreate, Except.mapError] at hthrows

theorem bucketChange_deleteBucket (hrecords : BucketRows (fun _ => True) engine.metadata.rows) :
    BucketChange name engine (Visibility.fromStorage (engine.deleteBucket name)) where
  only := StorageEngine.rewrites_deleteBucket.mono fun _ hop => hop.1
  records := StorageEngine.holds_deleteBucket hrecords
  unchanged hthrows := by
    rw [Visibility.fromStorage, StorageEngine.deleteBucket] at hthrows ⊢
    split
    · rfl
    · rename_i metadata hdelete
      simp [hdelete, Except.mapError] at hthrows

theorem bucketChange_putPolicy (hrecords : BucketRows (fun _ => True) engine.metadata.rows)
    (parse : Bytes → Option Json) (document : Text) :
    BucketChange name engine (Visibility.putPolicy parse engine name document) := by
  rw [Visibility.putPolicy]
  split
  · exact .refl hrecords _
  · split
    · exact .refl hrecords _
    · exact bucketChange_rewriteBucket hrecords fun _ => rfl

theorem bucketChange_putCors (hrecords : BucketRows (fun _ => True) engine.metadata.rows)
    (rules : Sized CorsRule) : BucketChange name engine (Visibility.putCors engine name rules) := by
  rw [Visibility.putCors]
  split
  · exact .refl hrecords _
  · exact bucketChange_rewriteBucket hrecords fun _ => rfl

/-- A record written back with its rules as they were is read back. -/
theorem load_rewriteBucket (hrecords : BucketRows (fun _ => True) engine.metadata.rows)
    {bucket : BucketRecord} (hload : loadBucket engine.metadata.rows name = .ok (some bucket))
    (change : BucketRecord → BucketRecord) (hname : (change bucket).name = bucket.name)
    (hcors : (change bucket).cors = bucket.cors) :
    ∃ next, engine.rewriteBucket name change = (next, .ok ()) ∧
      loadBucket next.metadata.rows name = .ok (some (change bucket)) := by
  have hstorable := storable_of_load hrecords hload
  have hbucket := StorageEngine.name_of_loadBucket hload
  obtain ⟨next, hrewrite, hrows⟩ :=
    StorageEngine.rewriteBucket_of_load hload change (hname.trans hbucket)
  have hchanged : (change bucket).Storable :=
    ⟨by rw [hcors]; exact hstorable.ruleCount, by rw [hcors]; exact hstorable.listsFit,
      by rw [hcors]; exact hstorable.maxAges⟩
  have hread := load_put engine.metadata.rows hchanged
  rw [← hrows, hname, hbucket] at hread
  exact ⟨next, hrewrite, hread⟩

/-- The access route's second write does not throw once its first one did not. -/
theorem bucketChange_setAccess (hrecords : BucketRows (fun _ => True) engine.metadata.rows)
    (publicRead : Bool) (durability : Option (Option Durability)) :
    BucketChange name engine (setAccess engine name publicRead durability) := by
  have hfirst : BucketChange name engine
      (Visibility.fromStorage (engine.setBucketPublicRead name publicRead)) :=
    bucketChange_rewriteBucket hrecords fun _ => rfl
  rw [setAccess]
  split
  · rename_i hset
    rwa [hset] at hfirst
  · rename_i middle _ hset
    rw [hset] at hfirst
    cases durability with
    | none => exact hfirst
    | some override =>
        have hsecond : BucketChange name middle
            (Visibility.fromStorage (middle.setBucketDurability name override)) :=
          bucketChange_rewriteBucket hfirst.records fun _ => rfl
        refine ⟨hfirst.only.trans hsecond.only, hsecond.records, fun hthrows => ?_⟩
        obtain ⟨bucket, hload⟩ := load_of_rewriteBucket_ok hset
        obtain ⟨_, hmiddle, hreload⟩ := load_rewriteBucket hrecords hload
          (fun bucket => { bucket with publicRead := publicRead, publicList := false }) rfl rfl
        obtain rfl : middle = _ := congrArg Prod.fst (hset.symm.trans hmiddle)
        obtain ⟨last, hlast, -⟩ := load_rewriteBucket hfirst.records hreload
          (fun bucket => { bucket with durability := override }) rfl rfl
        have hok : middle.setBucketDurability name override = (last, .ok ()) := hlast
        exact absurd (congrArg (fun outcome => (Visibility.fromStorage outcome).2) hok) hthrows

end Changes

/-! ### Every request -/

/-- The rows of no bucket but through its objects and uploads. -/
theorem find?_bucket_of_touches {engine next : StorageEngine} {bucket : Bytes}
    {stores : Stored → Prop} (h : Touches engine bucket stores next) (name : Bytes) :
    next.metadata.rows.find? (Keys.bucket name) = engine.metadata.rows.find? (Keys.bucket name) :=
  h.find?_eq fun _ htouch hkey => htouch.head?_ne (by rw [hkey]; rfl)

theorem find?_bucket_systemWrite (store : MetadataStore) (write : SystemWrite) (name : Bytes) :
    (systemWrite store write).rows.find? (Keys.bucket name) =
      store.rows.find? (Keys.bucket name) := by
  refine (system_systemWrite store write).find?_eq fun op ⟨tag, hmem, htag⟩ hkey => ?_
  rw [hkey] at htag
  obtain rfl : Keys.kBucket = tag := Option.some.inj htag
  exact absurd hmem (by decide)

/-- What follows an operation puts nothing in the cache. -/
structure Forgets (config : ServerConfig) (rest : Server → Server) : Prop where
  engine : OnlyCache rest
  cache : ∀ server key stored, (rest server).cache.Holds config.hash key stored →
    server.cache.Holds config.hash key stored

theorem forgets_id : Forgets config id := ⟨onlyCache_id, fun _ _ _ hheld => hheld⟩

theorem forgets_invalidateObject {bucket key : Bytes} :
    Forgets config (invalidateObject config bucket key) :=
  ⟨onlyCache_invalidateObject, fun _ _ _ hheld => hheld.of_del⟩

theorem Mirrors.andThen_touches (h : Mirrors config server) {bucket : Bytes}
    (stores : Stored → Prop) {outcome : StorageEngine × Except HandlerError Unit}
    {rest : Server → Server} (htouches : Touches server.engine bucket stores outcome.1)
    (hrest : Forgets config rest) : Mirrors config (andThen server outcome rest).1 := by
  have hrows := find?_bucket_of_touches htouches
  rw [andThen]
  split
  · exact h.of_sameBuckets hrows fun _ _ hheld => hheld
  · refine h.of_sameBuckets (fun name => ?_) fun key stored hheld =>
      hrest.cache { server with engine := outcome.1 } key stored hheld
    rw [hrest.engine]
    exact hrows name

variable {ticks : Int64} {name : Bytes} {rest : Server → Answer}

theorem Mirrors.afterLookup (h : Mirrors config server)
    (hrest : ∀ cache, Mirrors config { server with cache := cache } →
      Mirrors config (rest { server with cache := cache }).1) :
    Mirrors config (FrontDoors.afterLookup config ticks server name rest).1 := by
  have hlooked := h.requireBucket ticks name
  rw [FrontDoors.afterLookup]
  dsimp only
  split
  · exact hlooked
  · exact hrest _ hlooked

theorem Mirrors.afterCheck (h : Mirrors config server) {check : Except HandlerError Unit}
    (hrest : Mirrors config (rest server).1) :
    Mirrors config (FrontDoors.afterCheck server check rest).1 := by
  cases check with
  | error error => exact h
  | ok passed => exact hrest

theorem Mirrors.named (h : Mirrors config server) (hrest : Mirrors config (rest server).1) :
    Mirrors config (FrontDoors.named server name rest).1 := by
  rw [FrontDoors.named]
  split_ifs
  · exact h
  · exact hrest

theorem Mirrors.onUpload (h : Mirrors config server) {key uploadId : Bytes}
    (hrest : (∀ upload, loadUpload server.engine.metadata.rows uploadId = .ok (some upload) →
      upload.bucket.items = name) → Mirrors config (rest server).1) :
    Mirrors config (FrontDoors.onUpload server name key uploadId rest).1 := by
  rw [FrontDoors.onUpload]
  split
  · exact h
  · rename_i upload hupload
    obtain ⟨hload, hname, -⟩ := requireUpload_ok hupload
    refine hrest fun found hfound => ?_
    rw [hload] at hfound
    rw [← hname, Option.some.inj (Except.ok.inj hfound)]

theorem Mirrors.changeBucket (h : Mirrors config server)
    {change : StorageEngine → StorageEngine × Except HandlerError Unit}
    (hchange : BucketChange name server.engine (change server.engine)) :
    Mirrors config (FrontDoors.changeBucket config ticks server name change).1 :=
  h.afterLookup fun _ hlooked => hlooked.andThen_invalidateBucket hchange

theorem absent_of_createBucket_ok {engine : StorageEngine} {quotaBytes : UInt64}
    {now : TimestampMs} (h : (engine.createBucket name quotaBytes now).2 = .ok ()) :
    engine.metadata.rows.find? (Keys.bucket name) = none := by
  cases hfind : engine.metadata.rows.find? (Keys.bucket name) with
  | none => rfl
  | some stored =>
      rw [StorageEngine.createBucket] at h
      split at h
      · cases h
      · simp [MonoBucket.createBucket, hfind, fail] at h

/-- Creating a bucket that is there throws, so nothing is held for a new one. -/
theorem Mirrors.createBucket (h : Mirrors config server) (quotaBytes : UInt64)
    (now : TimestampMs) {cache : MemoryCache}
    (hcache : ∀ key stored, cache.Holds config.hash key stored →
      server.cache.Holds config.hash key stored) :
    Mirrors config ⟨(server.engine.createBucket name quotaBytes now).1, cache⟩ := by
  have hchange : BucketChange name server.engine
      (Visibility.fromStorage (server.engine.createBucket name quotaBytes now)) :=
    bucketChange_createBucket h.records quotaBytes now
  by_cases hok : (server.engine.createBucket name quotaBytes now).2 = .ok ()
  · have habsent := absent_of_createBucket_ok hok
    refine ⟨hchange.records, fun other stored hheld => ?_⟩
    obtain ⟨record, hload, hstored⟩ := h.entries other stored (hcache _ stored hheld)
    have hother : other ≠ name := by
      rintro rfl
      have hpresent := StorageEngine.isSome_of_load hload
      rw [habsent] at hpresent
      cases hpresent
    refine ⟨record, ?_, hstored⟩
    rw [← hload]
    exact loadBucket_congr (hchange.find?_of_ne hother)
  · have hsame := hchange.rows_of_throws hok
    exact h.of_sameBuckets (fun other => by rw [hsame]) hcache

theorem Mirrors.handleCreateBucket (h : Mirrors config server) (now : TimestampMs) :
    Mirrors config (FrontDoors.handleCreateBucket config server name now).1 := by
  have hkept : Mirrors config
      { server with
        engine := (server.engine.createBucket name config.defaultBucketQuotaBytes now).1 } :=
    h.createBucket _ now fun _ _ hheld => hheld
  have hdropped : Mirrors config
      (invalidateBucket config name
        { server with
          engine := (server.engine.createBucket name config.defaultBucketQuotaBytes now).1 }) :=
    h.createBucket _ now fun _ _ hheld => hheld.of_del
  rw [FrontDoors.handleCreateBucket]
  by_cases hvalid : isValidBucketName name = true
  · rw [if_pos hvalid]
    by_cases hreserved : isReservedBucketName name = true
    · rw [if_pos hreserved]
      exact h
    · rw [if_neg hreserved]
      split
      · rename_i hcreate
        rwa [hcreate] at hdropped
      · rename_i hcreate
        rw [hcreate] at hkept hdropped
        split_ifs
        · exact hdropped
        · exact hkept
      · rename_i hcreate
        rwa [hcreate] at hkept
  · rw [if_neg hvalid]
    exact h

/-- The allocation is no field of an entry. -/
theorem Mirrors.setBucketQuota (h : Mirrors config server) (quotaBytes : UInt64) :
    Mirrors config { server with
      engine := (server.engine.setBucketQuota name quotaBytes).1 } := by
  have hsame : ∀ {next : StorageEngine}, next.metadata = server.engine.metadata →
      Mirrors config { server with engine := next } := by
    intro next hnext
    exact h.of_sameBuckets (fun other => by rw [hnext]) fun _ _ hheld => hheld
  rw [StorageEngine.setBucketQuota]
  split
  · exact h
  · exact h
  · rename_i bucket hload
    split
    · exact hsame rfl
    · split
      · rename_i metadata hupdate
        have hrows := StorageEngine.updateBucket_ok hupdate
        have hbucket := StorageEngine.name_of_loadBucket hload
        have hstorable := storable_of_load h.records hload
        have hread := load_put server.engine.metadata.rows
          (⟨hstorable.ruleCount, hstorable.listsFit, hstorable.maxAges⟩ :
            BucketRecord.Storable { bucket with quotaBytes := quotaBytes })
        rw [← hrows] at hread
        refine ⟨?_, fun other stored hheld => ?_⟩
        · show BucketRows _ metadata.rows
          rw [hrows]
          exact StorageEngine.holds_put h.records (BucketRow.encodeBucket _ trivial)
        · obtain ⟨record, hfound, hstored⟩ := h.entries other stored hheld
          by_cases hother : other = name
          · subst hother
            obtain rfl : bucket = record := by
              rw [hload] at hfound
              exact Option.some.inj (Except.ok.inj hfound)
            refine ⟨{ bucket with quotaBytes := quotaBytes }, ?_, hstored⟩
            rwa [← hbucket]
          · refine ⟨record, ?_, hstored⟩
            rw [← hfound]
            apply loadBucket_congr
            show metadata.rows.find? _ = _
            rw [hrows, Rows.find?_write_of_forall_ne]
            intro op hop hkey
            obtain rfl := List.mem_singleton.mp hop
            exact hother (Keys.bucket_injective (hkey.symm.trans (by rw [← hbucket]; rfl)))
      · split <;> exact hsame rfl

theorem removable_of_deleteBucket_ok {engine : StorageEngine}
    (h : (engine.deleteBucket name).2 = .ok ()) : Removable engine.metadata.rows name := by
  rw [StorageEngine.deleteBucket] at h
  split at h
  · cases h
  · rename_i metadata hdelete
    rw [MonoBucket.deleteBucket] at hdelete
    obtain ⟨found, hload, hdelete⟩ := Except.bind_eq_ok_iff.mp hdelete
    cases found with
    | none => cases hdelete
    | some record =>
        simp only [fail] at hdelete
        split_ifs at hdelete with hobjects huploads
        exact ⟨⟨record, hload⟩, Bool.eq_false_of_not_eq_true hobjects,
          Bool.eq_false_of_not_eq_true huploads⟩

/-- A deletion that keeps the cache as it is, of a bucket with no entry in it. -/
theorem Mirrors.deleteBucket (h : Mirrors config server)
    (huncached : Removable server.engine.metadata.rows name →
      Uncached config server (bucketCacheKey name)) :
    Mirrors config { server with engine := (server.engine.deleteBucket name).1 } := by
  have hchange : BucketChange name server.engine
      (Visibility.fromStorage (server.engine.deleteBucket name)) :=
    bucketChange_deleteBucket h.records
  by_cases hok : (server.engine.deleteBucket name).2 = .ok ()
  · refine ⟨hchange.records, fun other stored hheld => ?_⟩
    have hother : other ≠ name := by
      rintro rfl
      obtain ⟨node, hnode, hkey, -⟩ := hheld
      exact huncached (removable_of_deleteBucket_ok hok) node hnode hkey
    obtain ⟨record, hload, hstored⟩ := h.entries other stored hheld
    refine ⟨record, ?_, hstored⟩
    rw [← hload]
    exact loadBucket_congr (hchange.find?_of_ne hother)
  · have hsame := hchange.rows_of_throws hok
    exact h.of_sameBuckets (fun other => by rw [hsame]) fun _ _ hheld => hheld

theorem andThen_id (server : Server) (outcome : StorageEngine × Except HandlerError Unit) :
    (andThen server outcome id).1 = { server with engine := outcome.1 } := by
  rw [andThen]
  split <;> rfl

/-- One request keeps every entry a copy of its record. -/
theorem mirrors_perform (h : Mirrors config server) {request : Request}
    (hguard : DeletesUncached config server (ticks, request)) :
    Mirrors config (perform config ticks server request).1 := by
  cases request with
  | lookup name => exact h.afterLookup fun _ hlooked => hlooked
  | createBucket name now => exact h.handleCreateBucket now
  | deleteBucket name => exact h.andThen_invalidateBucket (bucketChange_deleteBucket h.records)
  | putBucketAcl name publicRead =>
      exact h.changeBucket (bucketChange_rewriteBucket h.records fun _ => rfl)
  | putBucketPolicy name document =>
      exact h.changeBucket (bucketChange_putPolicy h.records config.parse document)
  | deleteBucketPolicy name =>
      exact h.changeBucket (bucketChange_rewriteBucket h.records fun _ => rfl)
  | putBucketCors name rules => exact h.changeBucket (bucketChange_putCors h.records rules)
  | deleteBucketCors name =>
      exact h.changeBucket (bucketChange_rewriteBucket h.records fun _ => rfl)
  | putObject bucket object declared now =>
      apply h.afterLookup
      intro _ hlooked
      apply hlooked.afterCheck
      apply hlooked.afterCheck
      exact hlooked.andThen_touches _ (touches_putObject object declared) forgets_invalidateObject
  | deleteObject bucket key now =>
      apply h.afterLookup
      intro _ hlooked
      exact hlooked.andThen_touches (fun _ => False) (touches_deleteObject key)
        forgets_invalidateObject
  | createMultipartUpload upload =>
      apply h.afterLookup
      intro _ hlooked
      split_ifs
      · exact hlooked.andThen_touches _ (touches_createUpload upload) forgets_id
      · exact hlooked
  | uploadPart bucket key uploadId part declared now =>
      apply h.onUpload
      intro hname
      split
      · exact h
      · apply h.afterCheck
        exact h.andThen_touches (fun _ => False) (touches_putPart part declared hname)
          forgets_id
  | completeMultipartUpload bucket key uploadId requested assembled now =>
      apply h.onUpload
      intro hname
      exact h.andThen_touches _ (touches_completeUpload requested assembled hname)
        forgets_invalidateObject
  | abortMultipartUpload bucket key uploadId now =>
      apply h.onUpload
      intro hname
      exact h.andThen_touches (fun _ => False) (touches_abortUpload hname) forgets_id
  | consoleCreateBucket name quotaBytes now =>
      apply h.named
      split_ifs
      · exact h
      · rw [andThen_id]
        exact h.createBucket quotaBytes now fun _ _ hheld => hheld
  | consoleDeleteBucket name =>
      apply h.named
      rw [andThen_id]
      exact h.deleteBucket (hguard name rfl)
  | consoleAccess name publicRead durability =>
      apply h.named
      exact h.andThen_invalidateBucket (bucketChange_setAccess h.records publicRead durability)
  | consoleQuota name quotaBytes =>
      apply h.named
      rw [andThen_id]
      exact h.setBucketQuota quotaBytes
  | consoleCors name rules =>
      apply h.named
      exact h.andThen_invalidateBucket (bucketChange_putCors h.records rules)
  | consoleDeleteCors name =>
      apply h.named
      exact h.andThen_invalidateBucket (bucketChange_rewriteBucket h.records fun _ => rfl)
  | consolePolicy name document =>
      apply h.named
      exact h.andThen_invalidateBucket (bucketChange_putPolicy h.records config.parse document)
  | consoleDeletePolicy name =>
      apply h.named
      exact h.andThen_invalidateBucket (bucketChange_rewriteBucket h.records fun _ => rfl)
  | consoleUpload bucket object now =>
      apply h.named
      split_ifs
      · exact h
      · exact h
      · exact h
      · split
        · exact h
        · exact h
        · exact h.andThen_touches _ (touches_putObject object _) forgets_invalidateObject
  | consoleDeleteObject bucket key now =>
      apply h.named
      split_ifs
      · exact h
      · exact h.andThen_touches (fun _ => False) (touches_deleteObject key)
          forgets_invalidateObject
  | expireUpload uploadId now =>
      obtain ⟨bucket, hname⟩ : ∃ bucket, ∀ upload,
          loadUpload server.engine.metadata.rows uploadId = .ok (some upload) →
          upload.bucket.items = bucket := by
        by_cases hfound : ∃ upload,
            loadUpload server.engine.metadata.rows uploadId = .ok (some upload)
        · obtain ⟨upload, hload⟩ := hfound
          refine ⟨upload.bucket.items, fun other hother => ?_⟩
          rw [hload] at hother
          rw [Option.some.inj (Except.ok.inj hother)]
        · exact ⟨[], fun upload hload => absurd ⟨upload, hload⟩ hfound⟩
      exact h.andThen_touches (fun _ => False) (touches_abortUpload hname) forgets_id
  | evictCache budgetBytes => exact h.of_sameBuckets (fun _ => rfl) fun _ _ hheld => hheld.of_evict
  | system write =>
      exact h.of_sameBuckets (find?_bucket_systemWrite _ write) fun _ _ hheld => hheld

end Mirrored

/-- From a cold cache, as long as no console deletion removes a bucket that has an
entry, the cache never says anything of a bucket but what the store says. -/
theorem coherent_of_deletesUncached {config : ServerConfig} {start final : Server}
    {labels : List Label} (hrecords : BucketRows (fun _ => True) start.engine.metadata.rows)
    (hcold : ∀ key, Uncached config start key)
    (hdeletes : Trace.Every (step config) (DeletesUncached config) start labels)
    (hrun : Trace.run (step config) start labels = some final) : Coherent config final := by
  have hstart : Mirrors config start :=
    ⟨hrecords, fun name _ ⟨node, hnode, hkey, _⟩ => absurd hkey (hcold _ node hnode)⟩
  refine (hdeletes.run_invariant ?_ hstart hrun).coherent
  intro server label next hmirrors hguard hstep
  simp only [step] at hstep
  split_ifs at hstep
  obtain rfl := Option.some.inj hstep
  exact mirrors_perform hmirrors hguard

/-! ### Fixed runs -/

section Fixed

/-- A published bucket is looked up, and deleted over S3. -/
def deletedRun : List Label :=
  [(0, .consoleCreateBucket photos 1000 0), (0, .putBucketAcl photos true), (0, .lookup photos),
    (1, .deleteBucket photos), (2, .consoleCreateBucket photos 1000 2)]

theorem uncached_coldServer (key : Bytes) : Uncached smallConfig coldServer key := by
  intro node hnode
  cases hnode

theorem coherent_of_deletesUncached_deletedRun :
    Coherent smallConfig (after smallConfig coldServer deletedRun) := by
  have hruns : (Trace.run (step smallConfig) coldServer deletedRun).isSome := by decide +kernel
  obtain ⟨final, hfinal⟩ := Option.isSome_iff_exists.mp hruns
  have hafter : after smallConfig coldServer deletedRun = final := by rw [after, hfinal]; rfl
  rw [hafter]
  have hempty : BucketRows (fun _ => True) coldServer.engine.metadata.rows := Rows.Holds.empty
  exact coherent_of_deletesUncached hempty
    uncached_coldServer (by decide +kernel) hfinal

/-- The same bucket deleted and made again through the console. -/
def recreatedRun : List Label :=
  [(0, .consoleCreateBucket photos 1000 0), (0, .putBucketAcl photos true), (0, .lookup photos),
    (1, .consoleDeleteBucket photos), (2, .consoleCreateBucket photos 1000 2)]

/-- What an S3 request three milliseconds in learns of the bucket. -/
def recreatedLookup : Except HandlerError BucketRecord :=
  (S3.requireBucket smallConfig.hash
    (after smallConfig coldServer recreatedRun).engine.metadata.rows smallConfig.cacheTtlSeconds 3
    (after smallConfig coldServer recreatedRun).cache photos).2

/-- The new bucket is private, and anyone may read its objects. -/
theorem recreated_bucket_answers_old_visibility :
    (Trace.run (step smallConfig) coldServer recreatedRun).isSome ∧
      (loadBucket (after smallConfig coldServer recreatedRun).engine.metadata.rows photos).map
        (Option.map BucketRecord.publicRead) = .ok (some false) ∧
      authorize recreatedLookup photos .getObject true none = .ok () ∧
      ¬ Coherent smallConfig (after smallConfig coldServer recreatedRun) := by
  have hstored : (loadBucket
      (after smallConfig coldServer recreatedRun).engine.metadata.rows photos).map
        (Option.map BucketRecord.publicRead) = .ok (some false) := by decide +kernel
  have hlookup : recreatedLookup.map BucketRecord.publicRead = .ok true := by decide +kernel
  refine ⟨by decide +kernel, hstored, by decide +kernel, fun hcoherent => ?_⟩
  cases hanswer : recreatedLookup with
  | error error => simp [hanswer, Except.map] at hlookup
  | ok answer =>
      obtain ⟨record, hload, hcarried⟩ := hcoherent.answers 3 photos answer hanswer
      rw [hload] at hstored
      rw [hanswer] at hlookup
      simp only [Except.map, Except.ok.injEq, Option.map_some, Option.some.injEq] at hstored hlookup
      have hread := congrArg BucketRecord.publicRead hcarried
      simp only [carried, hstored, hlookup, Bool.true_eq_false] at hread

end Fixed

end MonoBucket.FrontDoors

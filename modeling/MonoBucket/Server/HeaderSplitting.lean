/-
Responses from rows that hold no line break

Every text that reaches a response's headers is followed from the rows and the cache
to the responses that carry it. Where none of them holds a line break, a read is split
exactly by an override that does, if it serves the object at all, and no answer to a
cross-origin request is split.
-/

import MonoBucket.Server.CacheCoherence
import MonoBucket.Server.ObjectAnswers

namespace MonoBucket.FrontDoors

open S3 Codec

/-! ### What rows and entries hold -/

structure RuleUnbroken (rule : CorsRule) : Prop where
  methods : ∀ method ∈ rule.allowedMethods.items, Unbroken method.items
  exposed : ∀ header ∈ rule.exposeHeaders.items, Unbroken header.items

/-- No rule of a bucket can split a header. -/
def BucketUnbroken (bucket : BucketRecord) : Prop := ∀ rule ∈ bucket.cors.items, RuleUnbroken rule

/-- A row whose record can split no header. -/
structure HeaderRow (key stored : Bytes) : Prop where
  object : key.head? = some Keys.kObject →
    ∃ record, stored = encodeObject record ∧ RecordUnbroken record
  upload : key.head? = some Keys.kUploadById →
    ∃ record, stored = encodeUpload record ∧ (Description.ofUpload record).Unbroken
  bucket : BucketRow BucketUnbroken key stored

/-- Neither the rows nor the cache hold text that can split a header. -/
structure ServerUnbroken (config : ServerConfig) (server : Server) : Prop where
  rows : server.engine.metadata.rows.Holds HeaderRow
  objects : ∀ bucket key stored, server.cache.Holds config.hash (objectCacheKey bucket key) stored →
    ∃ text record, stored = encodeCachedObject text record ∧ RecordUnbroken record
  buckets : ∀ name stored, server.cache.Holds config.hash (bucketCacheKey name) stored →
    ∃ record : BucketRecord, record.name = name ∧ record.Storable ∧ BucketUnbroken record ∧
      stored = encodeCachedBucket record

/-! ### What the responses carry -/

/-- The query parameters that stand for a header of the object. -/
def overrideParameters : List Bytes := contentParameters ++ [ascii "response-content-type"]

/-- No response the server gives can be split, whatever the request, once a read
overrides with nothing that could. -/
structure AnswersUnbroken (config : ServerConfig) (server : Server) : Prop where
  read : ∀ ticks parseHttpDate opens (request : ReadRequest) response,
    OverridesUnbroken request.query overrideParameters →
    (handleGetObject config ticks parseHttpDate opens server request).2 = .ok response →
    response.Unbroken
  /-- A read that serves the object carries every override. -/
  serves : ∀ ticks parseHttpDate opens (request : ReadRequest) response,
    (handleGetObject config ticks parseHttpDate opens server request).2 = .ok response →
    response.status = 200 ∨ response.status = 206 → response.Unbroken →
    OverridesUnbroken request.query overrideParameters
  preflight : ∀ ticks (request : CorsRequest) response, HeadersUnbroken request.http →
    (handlePreflight config ticks server request).2 = .ok response → response.Unbroken
  decorated : ∀ ticks (request : CorsRequest) headers, HeadersUnbroken request.http →
    (applyCorsHeaders config ticks server request).2 = .ok headers → HeadersUnbroken headers

section Answers

variable {config : ServerConfig} {server : Server} {ticks : Int64} {record : ObjectRecord}

theorem bucketRows_of_holds {rows : Rows} (h : rows.Holds HeaderRow) : BucketRows BucketUnbroken rows :=
  fun key stored hfind => (h key stored hfind).bucket

theorem BucketUnbroken.reread {bucket : BucketRecord} (h : BucketUnbroken bucket) :
    BucketUnbroken { bucket with cors := bucket.cors.map CorsRule.reread } := by
  intro rule hrule
  obtain ⟨source, hsource, rfl⟩ := List.mem_map.mp hrule
  exact ⟨(h source hsource).methods, (h source hsource).exposed⟩

/-- A record that is loaded is one that was written, and can be stored again. -/
theorem unbroken_of_loadBucket {rows : Rows} (h : rows.Holds HeaderRow) {name : Bytes}
    {bucket : BucketRecord} (hload : loadBucket rows name = .ok (some bucket)) :
    bucket.name = name ∧ bucket.Storable ∧ BucketUnbroken bucket := by
  have hrows := bucketRows_of_holds h
  obtain ⟨written, hwritten, hname, rfl⟩ := hrows.load hload
  have hanyRows : BucketRows (fun _ => True) rows := by
    intro key stored hfind name hkey
    obtain ⟨bucket, hbucket, hstored, -⟩ := hrows key stored hfind name hkey
    exact ⟨bucket, hbucket, hstored, trivial⟩
  exact ⟨hname, storable_of_load hanyRows hload, hwritten.reread⟩

theorem ServerUnbroken.of_cache (h : ServerUnbroken config server) {cache : MemoryCache}
    (hcache : ∀ key stored, cache.Holds config.hash key stored →
      server.cache.Holds config.hash key stored) :
    ServerUnbroken config { server with cache := cache } where
  rows := h.rows
  objects bucket key stored hheld := h.objects bucket key stored (hcache _ _ hheld)
  buckets name stored hheld := h.buckets name stored (hcache _ _ hheld)

/-- A look-up of a bucket leaves such a server, and answers such a record. -/
theorem ServerUnbroken.requireBucket (h : ServerUnbroken config server) (ticks : Int64) (name : Bytes) :
    ServerUnbroken config { server with
      cache := (S3.requireBucket config.hash server.engine.metadata.rows config.cacheTtlSeconds
        ticks server.cache name).1 } ∧
    ∀ bucket, (S3.requireBucket config.hash server.engine.metadata.rows config.cacheTtlSeconds ticks
      server.cache name).2 = .ok bucket → BucketUnbroken bucket := by
  have hget : ∀ key stored,
      (server.cache.get config.hash ticks (bucketCacheKey name)).1.Holds config.hash key stored →
      server.cache.Holds config.hash key stored := fun _ _ hheld => hheld.of_get
  rw [S3.requireBucket]
  split_ifs with hvalid
  · dsimp only
    split
    · rename_i bucket hcached
      refine ⟨h.of_cache hget, fun answer hanswer => ?_⟩
      obtain rfl := Except.ok.inj hanswer
      obtain ⟨stored, hstored, hdecoded⟩ := Option.bind_eq_some_iff.mp hcached
      obtain ⟨record, rfl, hstorable, hrecord, rfl⟩ :=
        h.buckets name stored (MemoryCache.holds_of_get hstored)
      rw [decodeCachedBucket_encodeCachedBucket hstorable] at hdecoded
      obtain rfl := Option.some.inj hdecoded
      exact hrecord
    · split
      · exact ⟨h.of_cache hget, fun _ hanswer => by cases hanswer⟩
      · exact ⟨h.of_cache hget, fun _ hanswer => by cases hanswer⟩
      · rename_i bucket hload
        obtain ⟨hname, hstorable, hbucket⟩ := unbroken_of_loadBucket h.rows hload
        refine ⟨⟨h.rows, fun other key stored hheld => ?_, fun other stored hheld => ?_⟩,
          fun answer hanswer => ?_⟩
        · rcases hheld.of_set with ⟨hkey, -⟩ | ⟨-, holder⟩
          · exact absurd hkey (objectCacheKey_ne_bucketCacheKey other key name)
          · exact h.objects other key stored (hget _ _ holder)
        · rcases hheld.of_set with ⟨hkey, rfl⟩ | ⟨-, holder⟩
          · obtain rfl := bucketCacheKey_injective hkey
            exact ⟨bucket, hname, hstorable, hbucket, rfl⟩
          · exact h.buckets other stored (hget _ _ holder)
        · obtain rfl := Except.ok.inj hanswer
          exact hbucket
  · exact ⟨h, fun _ hanswer => by cases hanswer⟩

/-- A record read out of the rows is one that was written. -/
theorem unbroken_of_getObject (h : server.engine.metadata.rows.Holds HeaderRow) {bucket key : Bytes}
    (hget : getObject server.engine.metadata.rows bucket key = .ok (some record)) :
    RecordUnbroken record := by
  obtain ⟨stored, hfind, hdecode⟩ := decode_of_readRow hget
  obtain ⟨written, rfl, hwritten⟩ := (h _ stored hfind).object rfl
  have hread := decodeObject_encodeObject { written with key := key }
  obtain rfl := Except.ok.inj (hread.symm.trans hdecode)
  exact ⟨hwritten.etag, hwritten.description⟩

/-- A look-up of an object likewise. -/
theorem ServerUnbroken.statObject (h : ServerUnbroken config server) (ticks : Int64) (bucket : Bytes) (key : Text) :
    ServerUnbroken config (statObject config ticks server bucket key).1 ∧
    ∀ record, (FrontDoors.statObject config ticks server bucket key).2 = .ok (some record) →
      RecordUnbroken record := by
  have hget : ∀ other stored,
      (server.cache.get config.hash ticks (objectCacheKey bucket key.items)).1.Holds config.hash other
        stored → server.cache.Holds config.hash other stored := fun _ _ hheld => hheld.of_get
  rw [FrontDoors.statObject]
  dsimp only
  split
  · rename_i cached hcached
    refine ⟨h.of_cache hget, fun record hrecord => ?_⟩
    obtain rfl := Option.some.inj (Except.ok.inj hrecord)
    obtain ⟨stored, hstored, hdecoded⟩ := Option.bind_eq_some_iff.mp hcached
    obtain ⟨text, filled, rfl, hfilled⟩ :=
      h.objects bucket key.items stored (MemoryCache.holds_of_get hstored)
    have hread : decodeCachedObject (encodeCachedObject text filled) =
        some { filled with key := text.items } :=
      @decodeCachedObject_encodeCachedObject text { filled with key := text.items } rfl
    obtain rfl := Option.some.inj (hread.symm.trans hdecoded)
    exact ⟨hfilled.etag, hfilled.description⟩
  · split
    · exact ⟨h.of_cache hget, fun _ hrecord => nomatch hrecord⟩
    · exact ⟨h.of_cache hget, fun _ hrecord => nomatch hrecord⟩
    · rename_i record hload
      have hrecord := unbroken_of_getObject h.rows hload
      refine ⟨⟨h.rows, fun other otherKey stored hheld => ?_, fun name stored hheld => ?_⟩,
        fun answer hanswer => ?_⟩
      · rcases hheld.of_set with ⟨-, rfl⟩ | ⟨-, holder⟩
        · exact ⟨key, record, rfl, hrecord⟩
        · exact h.objects other otherKey stored (hget _ _ holder)
      · rcases hheld.of_set with ⟨hkey, -⟩ | ⟨-, holder⟩
        · exact absurd hkey.symm (objectCacheKey_ne_bucketCacheKey bucket key.items name)
        · exact h.buckets name stored (hget _ _ holder)
      · obtain rfl := Option.some.inj (Except.ok.inj hanswer)
        exact hrecord

theorem unbroken_errorResponse (status : Nat) (request : ReadRequest) :
    (errorResponse status request).Unbroken :=
  ⟨(by decide : Unbroken (ascii "application/xml")), unbroken_commonHeaders request.drawn⟩

theorem overridesUnbroken_append {query : List QueryParam} {first second : List Bytes} :
    OverridesUnbroken query (first ++ second) ↔
      OverridesUnbroken query first ∧ OverridesUnbroken query second := List.forall_mem_append

theorem unbroken_notModified (h : RecordUnbroken record) {request : ReadRequest}
    (hoverrides : OverridesUnbroken request.query contentParameters) :
    (notModified record request).Unbroken where
  contentType := unbroken_nil
  headers := by
    have hresolved := (resolveContentHeaders_unbroken_iff h.description.content).mpr hoverrides
    refine headersUnbroken_append.mpr ⟨headersUnbroken_append.mpr ⟨?_, ?_⟩, unbroken_commonHeaders _⟩
    · exact headersUnbroken_cons.mpr ⟨⟨by decide, unbroken_quoteETag h.etag⟩,
        headersUnbroken_cons.mpr ⟨⟨by decide, unbroken_toHttpDate _⟩, headersUnbroken_nil⟩⟩
    · exact fun header hheader => hresolved header (List.mem_of_mem_filter hheader)

/-- A response that serves an object is whole exactly when the overrides are. -/
theorem served_unbroken_iff (h : RecordUnbroken record) {request : ReadRequest}
    (ranged : RangeResult) : (served record request ranged).Unbroken ↔
      OverridesUnbroken request.query overrideParameters := by
  have hchecksum : HeadersUnbroken
      (if ranged ≠ .satisfiable ∧ checksumModeEnabled request.http then
        S3.checksumHeaders record.checksum else []) := by
    split_ifs
    · exact unbroken_checksumHeaders _
    · exact headersUnbroken_nil
  have hheaders : HeadersUnbroken (served record request ranged).headers ↔
      OverridesUnbroken request.query contentParameters := by
    rw [served, headersUnbroken_append, headersUnbroken_append, objectHeaders_unbroken_iff h]
    exact ⟨fun hall => hall.1.1, fun hoverrides =>
      ⟨⟨hoverrides, hchecksum⟩, unbroken_commonHeaders _⟩⟩
  have htype : Unbroken (served record request ranged).contentType ↔
      OverridesUnbroken request.query [ascii "response-content-type"] := by
    have hsingle : OverridesUnbroken request.query [ascii "response-content-type"] ↔
        ∀ value ∈ overrideOf request.query (ascii "response-content-type"), Unbroken value :=
      List.forall_mem_singleton
    rw [hsingle, served]
    dsimp only
    cases overrideOf request.query (ascii "response-content-type") with
    | none => exact iff_of_true h.description.contentType fun _ hvalue => nomatch hvalue
    | some value =>
        exact ⟨fun hvalue _ hmem => Option.some.inj hmem ▸ hvalue, fun hall => hall value rfl⟩
  rw [overrideParameters, overridesUnbroken_append, ← hheaders, ← htype]
  exact ⟨fun hresponse => ⟨hresponse.headers, hresponse.contentType⟩,
    fun hboth => ⟨hboth.2, hboth.1⟩⟩

section Read

variable {parseHttpDate : Bytes → Option TimestampMs} {opens : Bool} {request : ReadRequest}
  {response : HttpResponse}

/-- What a read of a record is answered with. -/
theorem answerRead_unbroken (h : RecordUnbroken record)
    (hanswer : answerRead parseHttpDate opens request record = .ok response) :
    (OverridesUnbroken request.query overrideParameters → response.Unbroken) ∧
    (response.status = 200 ∨ response.status = 206 → response.Unbroken →
      OverridesUnbroken request.query overrideParameters) := by
  rw [answerRead] at hanswer
  split at hanswer
  · obtain rfl := Except.ok.inj hanswer
    exact ⟨fun _ => unbroken_errorResponse 412 request,
      fun hstatus => absurd hstatus (by decide : ¬ ((412 : Nat) = 200 ∨ (412 : Nat) = 206))⟩
  · obtain rfl := Except.ok.inj hanswer
    exact ⟨fun hoverrides => unbroken_notModified h (overridesUnbroken_append.mp hoverrides).1,
      fun hstatus => absurd hstatus (by decide : ¬ ((304 : Nat) = 200 ∨ (304 : Nat) = 206))⟩
  · dsimp only at hanswer
    split_ifs at hanswer with hrange hopens
    · obtain rfl := Except.ok.inj hanswer
      have hrefused := unbroken_errorResponse 416 request
      refine ⟨fun _ => ⟨hrefused.contentType, headersUnbroken_append.mpr ⟨hrefused.headers, ?_⟩⟩,
        fun hstatus => absurd hstatus (by decide : ¬ ((416 : Nat) = 200 ∨ (416 : Nat) = 206))⟩
      exact headersUnbroken_cons.mpr ⟨⟨by decide,
        unbroken_append.mpr ⟨by decide, unbroken_decimal _⟩⟩, headersUnbroken_nil⟩
    · obtain rfl := Except.ok.inj hanswer
      exact ⟨(served_unbroken_iff h _).mpr, fun _ => (served_unbroken_iff h _).mp⟩

/-- A read leaves such a server, and its answer is that of a record no text of which can
split a header. -/
theorem ServerUnbroken.handleGetObject (h : ServerUnbroken config server) :
    ServerUnbroken config
        (handleGetObject config ticks parseHttpDate opens server request).1 ∧
      ((FrontDoors.handleGetObject config ticks parseHttpDate opens server request).2 = .ok response →
        ∃ record, RecordUnbroken record ∧
          answerRead parseHttpDate opens request record = .ok response) := by
  obtain ⟨hlooked, -⟩ := h.requireBucket ticks request.bucket
  rw [FrontDoors.handleGetObject]
  split
  · rename_i cache error hbucket
    rw [hbucket] at hlooked
    exact ⟨hlooked, fun hanswer => nomatch hanswer⟩
  · rename_i cache bucket hbucket
    rw [hbucket] at hlooked
    obtain ⟨hfilled, hrecord⟩ := hlooked.statObject ticks request.bucket request.key
    split
    · rename_i next error hstat
      rw [hstat] at hfilled
      exact ⟨hfilled, fun hanswer => nomatch hanswer⟩
    · rename_i next hstat
      rw [hstat] at hfilled
      exact ⟨hfilled, fun hanswer => nomatch hanswer⟩
    · rename_i next record hstat
      rw [hstat] at hfilled hrecord
      refine ⟨hfilled, fun hanswer => ⟨record, hrecord record rfl, ?_⟩⟩
      cases hread : answerRead parseHttpDate opens request record with
      | error exception =>
          rw [hread] at hanswer
          cases hanswer
      | ok answer =>
          rw [hread] at hanswer
          exact congrArg Except.ok (Except.ok.inj hanswer)

end Read

section Cors

variable {request : CorsRequest}

/-- The rules a cross-origin request is judged by are those of a bucket. -/
theorem ServerUnbroken.bucketRules (h : ServerUnbroken config server) (ticks : Int64) (bucket : Bytes) :
    ServerUnbroken config (bucketRules config ticks server bucket).1 ∧
    ∀ rules, (FrontDoors.bucketRules config ticks server bucket).2 = .ok rules →
      ∀ rule ∈ rules, RuleUnbroken rule := by
  obtain ⟨hlooked, hbucket⟩ := h.requireBucket ticks bucket
  rw [FrontDoors.bucketRules]
  split
  · rename_i cache record hlookup
    rw [hlookup] at hlooked hbucket
    refine ⟨hlooked, fun rules hrules => ?_⟩
    obtain rfl := Except.ok.inj hrules
    exact hbucket record rfl
  · rename_i cache exception hlookup
    rw [hlookup] at hlooked
    refine ⟨hlooked, fun rules hrules => ?_⟩
    obtain rfl := Except.ok.inj hrules
    exact fun _ hrule => nomatch hrule
  · rename_i cache code what hlookup
    rw [hlookup] at hlooked
    refine ⟨hlooked, fun rules hrules => ?_⟩
    obtain rfl := Except.ok.inj hrules
    exact fun _ hrule => nomatch hrule
  · rename_i cache error _ _ hlookup
    rw [hlookup] at hlooked
    exact ⟨hlooked, fun _ hrules => nomatch hrules⟩

theorem unbroken_allowOrigin {origin : Bytes} {rule : CorsRule} (horigin : Unbroken origin)
    (h : RuleUnbroken rule) : HeadersUnbroken (allowOrigin origin rule) := by
  have hmethods : Unbroken (join (rule.allowedMethods.items.map Sized.items) (ascii ", ")) :=
    unbroken_join (by decide) (List.forall_mem_map.mpr h.methods)
  exact headersUnbroken_cons.mpr ⟨⟨by decide, horigin⟩,
    headersUnbroken_cons.mpr ⟨⟨by decide, hmethods⟩,
      headersUnbroken_cons.mpr ⟨⟨by decide, by decide⟩, headersUnbroken_nil⟩⟩⟩

theorem unbroken_exposedHeaders {rule : CorsRule} (h : RuleUnbroken rule) :
    HeadersUnbroken (exposedHeaders rule) := by
  rw [exposedHeaders]
  split_ifs
  · exact headersUnbroken_nil
  · have hexposed : Unbroken (join (rule.exposeHeaders.items.map Sized.items) (ascii ", ")) :=
      unbroken_join (by decide) (List.forall_mem_map.mpr h.exposed)
    exact headersUnbroken_cons.mpr ⟨⟨by decide, hexposed⟩, headersUnbroken_nil⟩

theorem unbroken_splitRequestedHeaders {value : Bytes} (h : Unbroken value) :
    ∀ name ∈ splitRequestedHeaders value, Unbroken name := by
  intro name hname
  obtain ⟨piece, hpiece, hkept⟩ := List.mem_filterMap.mp hname
  obtain ⟨source, hsource, rfl⟩ := List.mem_map.mp hpiece
  split_ifs at hkept with hempty
  obtain rfl := Option.some.inj hkept
  exact (h.splitOn source hsource).dropWhile.rdropWhile.toLowerText

theorem mem_of_matchCors {rules : List CorsRule} {query : CorsQuery} {decision : CorsDecision}
    (h : matchCors rules query = some decision) :
    decision.rule ∈ rules ∧ decision.allowedHeaders = query.requestedHeaders := by
  obtain ⟨rule, hrule, rfl⟩ := Option.map_eq_some_iff.mp h
  exact ⟨List.mem_of_find?_eq_some hrule, rfl⟩

theorem unbroken_permitted {origin : Bytes} {decision : CorsDecision} (horigin : Unbroken origin)
    (hrule : RuleUnbroken decision.rule) (hallowed : ∀ name ∈ decision.allowedHeaders, Unbroken name) :
    (permitted request origin decision).Unbroken where
  contentType := unbroken_nil
  headers := by
    have hvary : HeadersUnbroken [(ascii "Vary",
        ascii "Origin, Access-Control-Request-Method, Access-Control-Request-Headers")] :=
      headersUnbroken_cons.mpr ⟨⟨by decide, by decide⟩, headersUnbroken_nil⟩
    have hnames : HeadersUnbroken (if decision.allowedHeaders = [] then []
        else [(ascii "Access-Control-Allow-Headers", join decision.allowedHeaders (ascii ", "))]) := by
      split_ifs
      · exact headersUnbroken_nil
      · exact headersUnbroken_cons.mpr ⟨⟨by decide, unbroken_join (by decide) hallowed⟩,
          headersUnbroken_nil⟩
    have hage : HeadersUnbroken (if 0 ≤ decision.rule.maxAgeSeconds then
        [(ascii "Access-Control-Max-Age", decimal decision.rule.maxAgeSeconds.toInt.toNat)]
        else []) := by
      split_ifs
      · exact headersUnbroken_cons.mpr ⟨⟨by decide, unbroken_decimal _⟩, headersUnbroken_nil⟩
      · exact headersUnbroken_nil
    simp only [permitted, headersUnbroken_append]
    exact ⟨⟨⟨⟨⟨unbroken_commonHeaders _, unbroken_allowOrigin horigin hrule⟩, hvary⟩, hnames⟩,
      unbroken_exposedHeaders hrule⟩, hage⟩

theorem ServerUnbroken.handlePreflight (h : ServerUnbroken config server)
    (hhttp : HeadersUnbroken request.http) {response : HttpResponse}
    (hanswer : (handlePreflight config ticks server request).2 = .ok response) :
    response.Unbroken := by
  obtain ⟨-, hrules⟩ := h.bucketRules ticks request.bucket
  rw [FrontDoors.handlePreflight] at hanswer
  dsimp only at hanswer
  split_ifs at hanswer with hmissing hroot
  · cases hanswer
  · split at hanswer
    · cases hanswer
    · rename_i next rules hlookup
      rw [hlookup] at hrules
      split_ifs at hanswer
      · cases hanswer
      · split at hanswer
        · cases hanswer
        · rename_i decision hdecision
          obtain rfl := Except.ok.inj hanswer
          obtain ⟨hmem, hallowed⟩ := mem_of_matchCors hdecision
          refine unbroken_permitted (unbroken_getHeader hhttp _) (hrules rules rfl _ hmem) ?_
          rw [hallowed]
          exact unbroken_splitRequestedHeaders (unbroken_getHeader hhttp _)

theorem ServerUnbroken.applyCorsHeaders (h : ServerUnbroken config server)
    (hhttp : HeadersUnbroken request.http) {headers : List Header}
    (hanswer : (applyCorsHeaders config ticks server request).2 = .ok headers) :
    HeadersUnbroken headers := by
  have hvary : HeadersUnbroken [(ascii "Vary", ascii "Origin")] :=
    headersUnbroken_cons.mpr ⟨⟨by decide, by decide⟩, headersUnbroken_nil⟩
  obtain ⟨-, hrules⟩ := h.bucketRules ticks request.bucket
  rw [FrontDoors.applyCorsHeaders] at hanswer
  split_ifs at hanswer
  · obtain rfl := Except.ok.inj hanswer
    exact headersUnbroken_nil
  · obtain rfl := Except.ok.inj hanswer
    exact hvary
  · split at hanswer
    · cases hanswer
    · rename_i next rules hlookup
      rw [hlookup] at hrules
      split at hanswer
      · obtain rfl := Except.ok.inj hanswer
        exact hvary
      · rename_i decision hdecision
        obtain rfl := Except.ok.inj hanswer
        have hrule := hrules rules rfl _ (mem_of_matchCors hdecision).1
        exact headersUnbroken_append.mpr ⟨headersUnbroken_append.mpr
          ⟨hvary, unbroken_allowOrigin (unbroken_getHeader hhttp _) hrule⟩,
          unbroken_exposedHeaders hrule⟩

end Cors

theorem ServerUnbroken.answers (h : ServerUnbroken config server) : AnswersUnbroken config server where
  read ticks parseHttpDate opens request response hoverrides hanswer := by
    obtain ⟨record, hrecord, hread⟩ := h.handleGetObject.2 hanswer
    exact (answerRead_unbroken hrecord hread).1 hoverrides
  serves ticks parseHttpDate opens request response hanswer := by
    obtain ⟨record, hrecord, hread⟩ := h.handleGetObject.2 hanswer
    exact (answerRead_unbroken hrecord hread).2
  preflight _ _ _ hhttp hanswer := h.handlePreflight hhttp hanswer
  decorated _ _ _ hhttp hanswer := h.applyCorsHeaders hhttp hanswer

end Answers

end MonoBucket.FrontDoors

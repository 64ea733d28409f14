/-
No response is split

What a request stores with an object comes from its own headers, and each content
header is checked on the way in. Two texts are not checked anywhere: the names a CORS
rule exposes, and the values a query names in place of an object's own headers. As
long as the configurations that were written expose no name with a line break, and a
query overrides with none, no response is split in any state the server reaches.
-/

import MonoBucket.Server.HeaderSplitting

namespace MonoBucket.FrontDoors

open S3 Codec

/-! ### Operations that keep a relation of rows -/

section Storing

variable {Q : Bytes → Bytes → Prop} {engine : StorageEngine} {bucket : Bytes} {now : TimestampMs}

/-- Every marker is in the relation. -/
def AdmitsMarkers (Q : Bytes → Bytes → Prop) : Prop :=
  ∀ blobId queuedAt, Q (Keys.orphan blobId) (encodeOrphan queuedAt)

theorem holds_trackBlob (hmarkers : AdmitsMarkers Q) (hrows : engine.metadata.rows.Holds Q)
    (blobId : Bytes) : (engine.trackBlob blobId now).metadata.rows.Holds Q := by
  apply hrows.write
  intro key value hput
  obtain ⟨rfl, rfl⟩ := RowOp.put.inj (List.mem_singleton.mp hput)
  exact hmarkers blobId now

theorem holds_reclaimNow (hrows : engine.metadata.rows.Holds Q) (blobIds : List Bytes) :
    (engine.reclaimNow blobIds).metadata.rows.Holds Q := by
  show (forgetOrphans engine.metadata blobIds).rows.Holds Q
  rw [rows_forgetOrphans]
  apply hrows.write
  intro key value hput
  obtain ⟨blobId, -, hdelete⟩ := List.mem_map.mp hput
  cases hdelete

theorem holds_publish {rows : Rows} (hmarkers : AdmitsMarkers Q) (hrows : rows.Holds Q)
    {storedKey value blobId : Bytes} (hrow : Q storedKey value) (released : Option Bytes) :
    (rows.write (publishBatch storedKey value blobId released now)).Holds Q := by
  apply hrows.write
  intro key stored hput
  rcases List.mem_append.mp hput with hfront | hmarker
  · rcases List.mem_cons.mp hfront with hsame | hdrop
    · obtain ⟨rfl, rfl⟩ := RowOp.put.inj hsame
      exact hrow
    · cases List.mem_singleton.mp hdrop
  · obtain ⟨released, -, hmarker⟩ := List.mem_map.mp hmarker
    obtain ⟨rfl, rfl⟩ := RowOp.put.inj hmarker
    exact hmarkers released now

/-- Ending an upload puts markers only. -/
theorem holds_endUpload {rows : Rows} (hmarkers : AdmitsMarkers Q) (hrows : rows.Holds Q)
    (upload : UploadRecord) (parts : List PartRecord) :
    (rows.write (releasePartsBatch upload.uploadId parts now ++ dropUploadBatch upload)).Holds Q := by
  apply hrows.write
  intro key stored hput
  rcases List.mem_append.mp hput with hpart | hdrop
  · obtain ⟨part, -, hpart⟩ := List.mem_flatMap.mp hpart
    rcases List.mem_cons.mp hpart with hdelete | hmarker
    · cases hdelete
    · obtain ⟨rfl, rfl⟩ := RowOp.put.inj (List.mem_singleton.mp hmarker)
      exact hmarkers part.blobId.items now
  · rcases List.mem_cons.mp hdrop with hdelete | hdelete
    · cases hdelete
    · cases List.mem_singleton.mp hdelete

theorem holds_putObject (hmarkers : AdmitsMarkers Q) (hrows : engine.metadata.rows.Holds Q)
    {object : ObjectRecord} (hobject : Q (Keys.object bucket object.key) (encodeObject object))
    (declared : UInt64) : (engine.putObject bucket object declared now).1.metadata.rows.Holds Q := by
  rw [StorageEngine.putObject]
  split
  · exact hrows
  · rename_i quotas reservation _
    have htracked : (StorageEngine.trackBlob { engine with quotas := quotas } object.blobId.items
        now).metadata.rows.Holds Q := holds_trackBlob hmarkers hrows _
    dsimp only
    rw [StorageEngine.finishWrite]
    dsimp only
    split
    · exact htracked
    · split
      · exact htracked
      · rename_i metadata outcome hput
        obtain ⟨previous, -, hwritten, -⟩ := putObject_ok hput
        refine holds_reclaimNow ?_ _
        show metadata.rows.Holds Q
        rw [hwritten]
        exact holds_publish hmarkers htracked hobject _

theorem holds_createUpload (hrows : engine.metadata.rows.Holds Q) {upload : UploadRecord}
    (hupload : Q (Keys.uploadById upload.uploadId) (encodeUpload upload))
    (hkey : Q (Keys.uploadByKey upload.bucket.items upload.key.items upload.uploadId) []) :
    (engine.createUpload upload).1.metadata.rows.Holds Q := by
  rw [StorageEngine.createUpload]
  cases hcreate : MonoBucket.createUpload engine.metadata upload with
  | error error => exact hrows
  | ok metadata =>
      show metadata.rows.Holds Q
      rw [createUpload_ok hcreate]
      apply hrows.write
      intro key stored hput
      rcases List.mem_cons.mp hput with hsame | hsecond
      · obtain ⟨rfl, rfl⟩ := RowOp.put.inj hsame
        exact hupload
      · obtain ⟨rfl, rfl⟩ := RowOp.put.inj (List.mem_singleton.mp hsecond)
        exact hkey

theorem holds_completeUpload (hmarkers : AdmitsMarkers Q) (hrows : engine.metadata.rows.Holds Q)
    {uploadId : Bytes} {requested : List StorageEngine.RequestedPart} {assembled : ObjectRecord}
    (hobject : ∀ upload, loadUpload engine.metadata.rows uploadId = .ok (some upload) →
      Q (Keys.object upload.bucket.items upload.key.items)
        (encodeObject { assembled with key := upload.key.items })) :
    (engine.completeUpload uploadId requested assembled now).1.metadata.rows.Holds Q := by
  rw [StorageEngine.completeUpload]
  split
  · exact hrows
  · rename_i upload ordered hmanifest
    have hload := loadUpload_of_checkManifest hmanifest
    have htracked : (engine.trackBlob assembled.blobId.items now).metadata.rows.Holds Q :=
      holds_trackBlob hmarkers hrows _
    dsimp only
    split
    · exact htracked
    · rename_i metadata outcome hcomplete
      obtain ⟨found, previous, parts, -, -, -, hwritten, -⟩ := completeUpload_ok hcomplete
      refine holds_reclaimNow (holds_reclaimNow ?_ _) _
      show metadata.rows.Holds Q
      rw [hwritten, completeUploadBatch, List.append_assoc, Rows.write_append]
      exact holds_endUpload hmarkers (holds_publish hmarkers htracked (hobject upload hload) _) _ _

end Storing

/-! ### Requests -/

/-- What happens to the server: a request of either door, or a read. -/
inductive Exchange
  | request (label : Label)
  | read (ticks : Int64) (parseHttpDate : Bytes → Option TimestampMs) (opens : Bool)
    (request : ReadRequest)

def exchange (config : ServerConfig) (server : Server) : Exchange → Option Server
  | .request label => step config server label
  | .read ticks parseHttpDate opens request =>
    some (handleGetObject config ticks parseHttpDate opens server request).1

/-- The record a request stores was made from its headers, and its ETag from digests. -/
def Sent (server : Server) : Exchange → Prop
  | .request (_, .putObject _ object _ _) =>
    (∃ http, HeadersUnbroken http ∧ (Description.ofObject object).ReadFrom http) ∧
      ∃ digest, object.etag.items = toHex digest
  | .request (_, .consoleUpload _ object _) =>
    (∃ http, HeadersUnbroken http ∧ (Description.ofObject object).ConsoleReadFrom http) ∧
      ∃ digest, object.etag.items = toHex digest
  | .request (_, .createMultipartUpload upload) =>
    ∃ http, HeadersUnbroken http ∧ (Description.ofUpload upload).ReadFrom http
  | .request (_, .completeMultipartUpload _ _ uploadId _ assembled _) =>
    (∀ upload, loadUpload server.engine.metadata.rows uploadId = .ok (some upload) →
      Description.ofObject assembled = Description.ofUpload upload) ∧
      ∃ digest count, assembled.etag.items = toHex digest ++ [letter '-'] ++ decimal count
  | _ => True

/-- A configuration that is written exposes no name with a line break. -/
def ExposesUnbroken : Exchange → Prop
  | .request (_, .putBucketCors _ rules) | .request (_, .consoleCors _ rules) =>
    ∀ rule ∈ rules.items, ∀ header ∈ rule.exposeHeaders.items, Unbroken header.items
  | _ => True

section Rows

variable {key stored : Bytes}

theorem headerRow_of_tag {tag : UInt8} (hkey : key.head? = some tag)
    (htag : tag ∉ [Keys.kObject, Keys.kUploadById, Keys.kBucket]) : HeaderRow key stored := by
  simp only [List.mem_cons, List.not_mem_nil, or_false, not_or] at htag
  obtain ⟨hobject, hupload, hbucket⟩ := htag
  have hne : ∀ {other : UInt8}, tag ≠ other → key.head? ≠ some other := fun hother h =>
    hother (Option.some.inj (hkey.symm.trans h))
  refine ⟨fun h => absurd h (hne hobject), fun h => absurd h (hne hupload), ?_⟩
  rintro name rfl
  exact absurd rfl (hne hbucket)

theorem admitsMarkers_headerRow : AdmitsMarkers HeaderRow := fun _ _ =>
  headerRow_of_tag rfl (by decide)

theorem headerRow_object {bucket : Bytes} {record : ObjectRecord} (h : RecordUnbroken record)
    (objectKey : Bytes) : HeaderRow (Keys.object bucket objectKey) (encodeObject record) := by
  have hhead : (Keys.object bucket objectKey).head? = some Keys.kObject := rfl
  refine ⟨fun _ => ⟨record, rfl, h⟩, fun hupload => ?_, ?_⟩
  · rw [hhead] at hupload
    exact absurd hupload (by decide)
  · intro name hname
    rw [hname] at hhead
    exact absurd hhead (by decide : some Keys.kBucket ≠ some Keys.kObject)

theorem headerRow_upload {upload : UploadRecord} (h : (Description.ofUpload upload).Unbroken) :
    HeaderRow (Keys.uploadById upload.uploadId) (encodeUpload upload) := by
  have hhead : (Keys.uploadById upload.uploadId).head? = some Keys.kUploadById := rfl
  refine ⟨fun hobject => ?_, fun _ => ⟨upload, rfl, h⟩, ?_⟩
  · rw [hhead] at hobject
    exact absurd hobject (by decide)
  · intro name hname
    rw [hname] at hhead
    exact absurd hhead (by decide : some Keys.kBucket ≠ some Keys.kUploadById)

theorem headerRow_bucket {bucket : BucketRecord} (h : BucketUnbroken bucket) :
    HeaderRow (Keys.bucket bucket.name) (encodeBucket bucket) := by
  have hhead : (Keys.bucket bucket.name).head? = some Keys.kBucket := rfl
  refine ⟨fun hobject => ?_, fun hupload => ?_, BucketRow.encodeBucket bucket h⟩
  · rw [hhead] at hobject
    exact absurd hobject (by decide)
  · rw [hhead] at hupload
    exact absurd hupload (by decide)

/-- Touches that store nothing keep such rows. -/
theorem holds_of_touches {engine next : StorageEngine} {bucket : Bytes}
    (hrows : engine.metadata.rows.Holds HeaderRow)
    (h : Touches engine bucket (fun _ => False) next) : next.metadata.rows.Holds HeaderRow := by
  obtain ⟨batch, hnext, hbatch⟩ := h
  rw [hnext]
  apply hrows.write
  intro key value hput
  cases hbatch _ hput with
  | marker _ blobId hkey =>
      obtain rfl : key = Keys.orphan blobId := hkey
      exact headerRow_of_tag rfl (by decide)
  | putObject object _ hstores => exact hstores.elim
  | putUpload upload _ _ hstores => exact hstores.elim
  | putUploadKey upload _ _ hstores => exact hstores.elim
  | putPart part upload _ _ => exact headerRow_of_tag rfl (by decide)

end Rows

/-! ### What a request leaves -/

section Requests

variable {config : ServerConfig} {server : Server} {ticks : Int64} {name : Bytes}
  {rest : Server → Answer}

theorem forgets_invalidateBucket : Forgets config (invalidateBucket config name) :=
  ⟨onlyCache_invalidateBucket, fun _ _ _ hheld => hheld.of_del⟩

theorem ServerUnbroken.andThen (h : ServerUnbroken config server)
    {outcome : StorageEngine × Except HandlerError Unit} {rest : Server → Server}
    (hrows : outcome.1.metadata.rows.Holds HeaderRow) (hrest : Forgets config rest) :
    ServerUnbroken config (andThen server outcome rest).1 := by
  have hkept : ServerUnbroken config { server with engine := outcome.1 } :=
    ⟨hrows, h.objects, h.buckets⟩
  rw [FrontDoors.andThen]
  split
  · exact hkept
  · refine ⟨?_, fun bucket key stored hheld => ?_, fun name stored hheld => ?_⟩
    · rw [hrest.engine]
      exact hrows
    · exact hkept.objects bucket key stored (hrest.cache _ _ _ hheld)
    · exact hkept.buckets name stored (hrest.cache _ _ _ hheld)

theorem ServerUnbroken.afterLookup (h : ServerUnbroken config server)
    (hrest : ∀ cache, ServerUnbroken config { server with cache := cache } →
      ServerUnbroken config (rest { server with cache := cache }).1) :
    ServerUnbroken config (afterLookup config ticks server name rest).1 := by
  obtain ⟨hlooked, -⟩ := h.requireBucket ticks name
  rw [FrontDoors.afterLookup]
  dsimp only
  split
  · exact hlooked
  · exact hrest _ hlooked

theorem ServerUnbroken.afterCheck (h : ServerUnbroken config server) {check : Except HandlerError Unit}
    (hrest : ServerUnbroken config (rest server).1) :
    ServerUnbroken config (afterCheck server check rest).1 := by
  cases check with
  | error error => exact h
  | ok passed => exact hrest

theorem ServerUnbroken.named (h : ServerUnbroken config server)
    (hrest : ServerUnbroken config (rest server).1) :
    ServerUnbroken config (named server name rest).1 := by
  rw [FrontDoors.named]
  split_ifs
  · exact h
  · exact hrest

theorem ServerUnbroken.onUpload (h : ServerUnbroken config server) {key uploadId : Bytes}
    (hrest : (∀ upload, loadUpload server.engine.metadata.rows uploadId = .ok (some upload) →
      upload.bucket.items = name) → ServerUnbroken config (rest server).1) :
    ServerUnbroken config (onUpload server name key uploadId rest).1 := by
  rw [FrontDoors.onUpload]
  split
  · exact h
  · rename_i upload hupload
    obtain ⟨hload, hname, -⟩ := requireUpload_ok hupload
    refine hrest fun found hfound => ?_
    rw [hload] at hfound
    rw [← hname, Option.some.inj (Except.ok.inj hfound)]

theorem ServerUnbroken.changeBucket (h : ServerUnbroken config server)
    {change : StorageEngine → StorageEngine × Except HandlerError Unit}
    (hchange : (change server.engine).1.metadata.rows.Holds HeaderRow) :
    ServerUnbroken config (changeBucket config ticks server name change).1 :=
  h.afterLookup fun _ hlooked => hlooked.andThen hchange forgets_invalidateBucket

/-- A change of a bucket's record that keeps its rules, or sets rules that expose no name
with a line break. -/
theorem holds_change {engine : StorageEngine} (hrows : engine.metadata.rows.Holds HeaderRow)
    {change : BucketRecord → BucketRecord}
    (hchange : ∀ bucket, BucketUnbroken bucket → BucketUnbroken (change bucket)) :
    (engine.rewriteBucket name change).1.metadata.rows.Holds HeaderRow :=
  StorageEngine.holds_rewriteBucket hrows fun bucket hload =>
    headerRow_bucket (hchange bucket (unbroken_of_loadBucket hrows hload).2.2)

theorem holds_createBucket {engine : StorageEngine} (hrows : engine.metadata.rows.Holds HeaderRow)
    (quotaBytes : UInt64) (now : TimestampMs) :
    (engine.createBucket name quotaBytes now).1.metadata.rows.Holds HeaderRow := by
  refine StorageEngine.holds_createBucket hrows ?_
  have hnew : BucketUnbroken { name := name, createdAt := now, quotaBytes := quotaBytes } :=
    fun _ hrule => nomatch hrule
  exact headerRow_bucket hnew

theorem holds_putPolicy {engine : StorageEngine} (hrows : engine.metadata.rows.Holds HeaderRow)
    (parse : Bytes → Option Json) (document : Text) :
    (Visibility.putPolicy parse engine name document).1.metadata.rows.Holds HeaderRow := by
  rw [Visibility.putPolicy]
  split
  · exact hrows
  · split
    · exact hrows
    · exact holds_change hrows fun _ h => h

/-- The methods an accepted rule allows are among five names. -/
theorem ruleUnbroken_of_validate {rules accepted : Sized CorsRule}
    (hexposed : ∀ rule ∈ rules.items, ∀ header ∈ rule.exposeHeaders.items, Unbroken header.items)
    (h : validateCorsRules rules = .ok accepted) : ∀ rule ∈ accepted.items, RuleUnbroken rule := by
  obtain ⟨-, -, hchecked, rfl⟩ := validateCorsRules_ok h
  intro rule hrule
  obtain ⟨source, hsource, rfl⟩ := List.mem_map.mp hrule
  refine ⟨fun method hmethod => ?_, hexposed source hsource⟩
  have hnames : ∀ name ∈ allowedMethodNames, Unbroken name := by decide
  exact hnames _ (mem_of_checkCorsRule (hchecked source hsource) method hmethod)

theorem holds_putCors {engine : StorageEngine} (hrows : engine.metadata.rows.Holds HeaderRow)
    {rules : Sized CorsRule}
    (hexposed : ∀ rule ∈ rules.items, ∀ header ∈ rule.exposeHeaders.items, Unbroken header.items) :
    (Visibility.putCors engine name rules).1.metadata.rows.Holds HeaderRow := by
  rw [Visibility.putCors]
  split
  · exact hrows
  · rename_i accepted haccepted
    exact holds_change hrows fun _ _ => ruleUnbroken_of_validate hexposed haccepted

theorem holds_setAccess {engine : StorageEngine} (hrows : engine.metadata.rows.Holds HeaderRow)
    (publicRead : Bool) (durability : Option (Option Durability)) :
    (setAccess engine name publicRead durability).1.metadata.rows.Holds HeaderRow := by
  have hfirst : (engine.setBucketPublicRead name publicRead).1.metadata.rows.Holds HeaderRow :=
    holds_change hrows fun _ h => h
  rw [setAccess]
  split
  · rename_i middle _ hset
    rwa [hset] at hfirst
  · rename_i middle _ hset
    rw [hset] at hfirst
    cases durability with
    | none => exact hfirst
    | some override => exact holds_change hfirst fun _ h => h

theorem holds_setBucketQuota {engine : StorageEngine} (hrows : engine.metadata.rows.Holds HeaderRow)
    (quotaBytes : UInt64) :
    (engine.setBucketQuota name quotaBytes).1.metadata.rows.Holds HeaderRow := by
  refine StorageEngine.holds_setBucketQuota hrows fun bucket hload => ?_
  have hbucket : BucketUnbroken { bucket with quotaBytes := quotaBytes } :=
    (unbroken_of_loadBucket hrows hload).2.2
  exact headerRow_bucket hbucket

theorem holds_systemWrite {store : MetadataStore} (hrows : store.rows.Holds HeaderRow)
    (write : SystemWrite) : (systemWrite store write).rows.Holds HeaderRow := by
  obtain ⟨batch, hnext, hbatch⟩ := system_systemWrite store write
  rw [hnext]
  apply hrows.write
  intro key value hput
  obtain ⟨tag, hmem, hkey⟩ := hbatch _ hput
  have hdisjoint : ∀ tag ∈ systemTags, tag ∉ [Keys.kObject, Keys.kUploadById, Keys.kBucket] := by
    decide
  exact headerRow_of_tag hkey (hdisjoint tag hmem)

theorem ServerUnbroken.handleCreateBucket (h : ServerUnbroken config server) (now : TimestampMs) :
    ServerUnbroken config (handleCreateBucket config server name now).1 := by
  have hrows := @holds_createBucket name server.engine h.rows config.defaultBucketQuotaBytes now
  have hkept : ServerUnbroken config
      { server with
        engine := (server.engine.createBucket name config.defaultBucketQuotaBytes now).1 } :=
    ⟨hrows, h.objects, h.buckets⟩
  have hdropped : ServerUnbroken config
      (invalidateBucket config name
        { server with
          engine := (server.engine.createBucket name config.defaultBucketQuotaBytes now).1 }) :=
    ⟨hrows, fun bucket key stored hheld => h.objects bucket key stored hheld.of_del,
      fun other stored hheld => h.buckets other stored hheld.of_del⟩
  rw [FrontDoors.handleCreateBucket]
  by_cases hvalid : isValidBucketName name = true
  · rw [if_pos hvalid]
    by_cases hreserved : isReservedBucketName name = true
    · rw [if_pos hreserved]
      exact h
    · rw [if_neg hreserved]
      split
      · rename_i hcreate
        rwa [hcreate] at hdropped
      · rename_i hcreate
        rw [hcreate] at hkept hdropped
        split_ifs
        · exact hdropped
        · exact hkept
      · rename_i hcreate
        rwa [hcreate] at hkept
  · rw [if_neg hvalid]
    exact h

/-- An object that is stored as the request described it. -/
theorem recordUnbroken_of_sent {object : ObjectRecord}
    (hdescription : (Description.ofObject object).Unbroken)
    (hetag : ∃ digest, object.etag.items = toHex digest) : RecordUnbroken object where
  etag := by
    obtain ⟨digest, hdigest⟩ := hetag
    rw [hdigest]
    exact unbroken_toHex digest
  description := hdescription

theorem ServerUnbroken.putObject (h : ServerUnbroken config server) {bucket : Bytes}
    {object : ObjectRecord} (hobject : RecordUnbroken object) (declared : UInt64)
    (now : TimestampMs) : ServerUnbroken config (FrontDoors.andThen server
      (Visibility.fromStorage (server.engine.putObject bucket object declared now))
      (invalidateObject config bucket object.key)).1 :=
  h.andThen (holds_putObject admitsMarkers_headerRow h.rows (headerRow_object hobject _) declared)
    forgets_invalidateObject

/-- An assembled object is described as its upload was. -/
theorem ServerUnbroken.completeUpload (h : ServerUnbroken config server) {bucket key uploadId : Bytes}
    {requested : List StorageEngine.RequestedPart} {assembled : ObjectRecord} {now : TimestampMs}
    (hdescribed : ∀ upload, loadUpload server.engine.metadata.rows uploadId = .ok (some upload) →
      Description.ofObject assembled = Description.ofUpload upload)
    (hetag : ∃ digest count, assembled.etag.items = toHex digest ++ [letter '-'] ++ decimal count) :
    ServerUnbroken config (FrontDoors.andThen server
      (Visibility.fromStorage (server.engine.completeUpload uploadId requested assembled now))
      (invalidateObject config bucket key)).1 := by
  refine h.andThen (holds_completeUpload admitsMarkers_headerRow h.rows fun upload hload => ?_)
    forgets_invalidateObject
  refine headerRow_object ⟨?_, ?_⟩ _
  · obtain ⟨digest, count, hdigest⟩ := hetag
    show Unbroken assembled.etag.items
    rw [hdigest]
    exact unbroken_append.mpr ⟨unbroken_append.mpr ⟨unbroken_toHex digest, by decide⟩,
      unbroken_decimal count⟩
  · show (Description.ofObject assembled).Unbroken
    rw [hdescribed upload hload]
    obtain ⟨stored, hfind, hdecode⟩ := decode_of_readRow hload
    obtain ⟨written, rfl, hwritten⟩ := (h.rows _ stored hfind).upload rfl
    have hread := decodeUpload_encodeUpload { written with uploadId := uploadId }
    obtain rfl := Except.ok.inj (hread.symm.trans hdecode)
    exact hwritten

/-- A read keeps them so as well. -/
theorem ServerUnbroken.read (h : ServerUnbroken config server) (ticks : Int64)
    (parseHttpDate : Bytes → Option TimestampMs) (opens : Bool) (request : ReadRequest) :
    ServerUnbroken config
      (FrontDoors.handleGetObject config ticks parseHttpDate opens server request).1 :=
  (@ServerUnbroken.handleGetObject config server ticks parseHttpDate opens request { status := 0 } h).1

/-- One request keeps the rows and the cache so. -/
theorem ServerUnbroken.perform (h : ServerUnbroken config server) {request : Request}
    (hsent : Sent server (.request (ticks, request)))
    (hexposes : ExposesUnbroken (.request (ticks, request))) :
    ServerUnbroken config (perform config ticks server request).1 := by
  cases request with
  | lookup name => exact h.afterLookup fun _ hlooked => hlooked
  | createBucket name now => exact h.handleCreateBucket now
  | deleteBucket name =>
      exact h.andThen (StorageEngine.holds_deleteBucket h.rows) forgets_invalidateBucket
  | putBucketAcl name publicRead => exact h.changeBucket (holds_change h.rows fun _ h => h)
  | putBucketPolicy name document => exact h.changeBucket (holds_putPolicy h.rows config.parse document)
  | deleteBucketPolicy name => exact h.changeBucket (holds_change h.rows fun _ h => h)
  | putBucketCors name rules => exact h.changeBucket (holds_putCors h.rows hexposes)
  | deleteBucketCors name =>
      exact h.changeBucket (holds_change h.rows fun _ _ _ hrule => nomatch hrule)
  | putObject bucket object declared now =>
      obtain ⟨⟨http, hhttp, hread⟩, hetag⟩ := hsent
      have hobject := recordUnbroken_of_sent (hread.unbroken hhttp) hetag
      apply h.afterLookup
      intro _ hlooked
      apply hlooked.afterCheck
      apply hlooked.afterCheck
      exact hlooked.putObject hobject declared now
  | deleteObject bucket key now =>
      apply h.afterLookup
      intro _ hlooked
      exact hlooked.andThen (holds_of_touches hlooked.rows (touches_deleteObject key))
        forgets_invalidateObject
  | createMultipartUpload upload =>
      obtain ⟨http, hhttp, hread⟩ := hsent
      apply h.afterLookup
      intro _ hlooked
      split_ifs
      · refine hlooked.andThen ?_ forgets_id
        exact holds_createUpload hlooked.rows (headerRow_upload (hread.unbroken hhttp))
          (headerRow_of_tag rfl (by decide))
      · exact hlooked
  | uploadPart bucket key uploadId part declared now =>
      apply h.onUpload
      intro hname
      split
      · exact h
      · apply h.afterCheck
        exact h.andThen (holds_of_touches h.rows (touches_putPart part declared hname)) forgets_id
  | completeMultipartUpload bucket key uploadId requested assembled now =>
      obtain ⟨hdescribed, hetag⟩ := hsent
      apply h.onUpload
      intro _
      exact h.completeUpload hdescribed hetag
  | abortMultipartUpload bucket key uploadId now =>
      apply h.onUpload
      intro hname
      exact h.andThen (holds_of_touches h.rows (touches_abortUpload hname)) forgets_id
  | consoleCreateBucket name quotaBytes now =>
      apply h.named
      split_ifs
      · exact h
      · exact h.andThen (holds_createBucket h.rows quotaBytes now) forgets_id
  | consoleDeleteBucket name =>
      apply h.named
      exact h.andThen (StorageEngine.holds_deleteBucket h.rows) forgets_id
  | consoleAccess name publicRead durability =>
      apply h.named
      exact h.andThen (holds_setAccess h.rows publicRead durability) forgets_invalidateBucket
  | consoleQuota name quotaBytes =>
      apply h.named
      exact h.andThen (holds_setBucketQuota h.rows quotaBytes) forgets_id
  | consoleCors name rules =>
      apply h.named
      exact h.andThen (holds_putCors h.rows hexposes) forgets_invalidateBucket
  | consoleDeleteCors name =>
      apply h.named
      exact h.andThen (holds_change h.rows fun _ _ _ hrule => nomatch hrule) forgets_invalidateBucket
  | consolePolicy name document =>
      apply h.named
      exact h.andThen (holds_putPolicy h.rows config.parse document) forgets_invalidateBucket
  | consoleDeletePolicy name =>
      apply h.named
      exact h.andThen (holds_change h.rows fun _ h => h) forgets_invalidateBucket
  | consoleUpload bucket object now =>
      obtain ⟨⟨http, hhttp, hread⟩, hetag⟩ := hsent
      have hobject := recordUnbroken_of_sent (hread.unbroken hhttp) hetag
      apply h.named
      split_ifs
      · exact h
      · exact h
      · exact h
      · split
        · exact h
        · exact h
        · exact h.putObject hobject object.size now
  | consoleDeleteObject bucket key now =>
      apply h.named
      split_ifs
      · exact h
      · exact h.andThen (holds_of_touches h.rows (touches_deleteObject key)) forgets_invalidateObject
  | expireUpload uploadId now =>
      obtain ⟨bucket, hname⟩ : ∃ bucket, ∀ upload,
          loadUpload server.engine.metadata.rows uploadId = .ok (some upload) →
          upload.bucket.items = bucket := by
        by_cases hfound : ∃ upload,
            loadUpload server.engine.metadata.rows uploadId = .ok (some upload)
        · obtain ⟨upload, hload⟩ := hfound
          refine ⟨upload.bucket.items, fun other hother => ?_⟩
          rw [hload] at hother
          rw [Option.some.inj (Except.ok.inj hother)]
        · exact ⟨[], fun upload hload => absurd ⟨upload, hload⟩ hfound⟩
      exact h.andThen (holds_of_touches h.rows (touches_abortUpload hname)) forgets_id
  | evictCache budgetBytes =>
      exact h.of_cache fun _ _ hheld => hheld.of_evict
  | system write => exact ⟨holds_systemWrite h.rows write, h.objects, h.buckets⟩

end Requests

/-! ### Every response of a run -/

/-- As long as no configuration that is written exposes a name with a line break, no
response in any state reached is split by anything but what the read itself overrides
with. -/
theorem answersUnbroken_of_exposesUnbroken {config : ServerConfig} {start final : Server}
    {exchanges : List Exchange} (hempty : start.engine.metadata.rows = .empty)
    (hcold : ∀ key stored, ¬ start.cache.Holds config.hash key stored)
    (hsent : Trace.Every (exchange config) Sent start exchanges)
    (hexposes : ∀ exchange ∈ exchanges, ExposesUnbroken exchange)
    (hrun : Trace.run (exchange config) start exchanges = some final) :
    AnswersUnbroken config final := by
  have hstart : ServerUnbroken config start := by
    refine ⟨?_, fun _ _ _ hheld => absurd hheld (hcold _ _), fun _ _ hheld => absurd hheld (hcold _ _)⟩
    rw [hempty]
    exact Rows.Holds.empty
  suffices hfinal : ServerUnbroken config final from hfinal.answers
  clear hempty hcold
  induction exchanges generalizing start with
  | nil =>
      obtain rfl := Option.some.inj hrun
      exact hstart
  | cons first rest ih =>
      obtain ⟨next, hnext, hrest⟩ := Trace.run_cons_eq_some.mp hrun
      obtain ⟨hfirst, hothers⟩ := List.forall_mem_cons.mp hexposes
      refine ih (hsent.2 next hnext) hothers hrest ?_
      cases first with
      | request label =>
          simp only [exchange, step] at hnext
          split_ifs at hnext
          obtain rfl := Option.some.inj hnext
          exact hstart.perform hsent.1 hfirst
      | read ticks parseHttpDate opens request =>
          obtain rfl := Option.some.inj hnext
          exact hstart.read ticks parseHttpDate opens request

section Fixed

/-- An object of a request without headers. -/
def plainObject : ObjectRecord := { key := ascii "a", blobId := ⟨ascii "blob", fits_blob⟩ }

/-- An anonymous read of it, with the query as it stands in the URI. -/
def readOf (query : Bytes) : ReadRequest :=
  { bucket := photos, key := ⟨ascii "a", fits_a⟩, query := parseQuery query }

/-- A bucket, an object in it, and a read of that object. -/
def storedExchanges : List Exchange :=
  [.request (0, .createBucket photos 0), .request (1, .consoleUpload photos plainObject 1),
    .read 2 (fun _ => none) true (readOf [])]

/-- The server the exchanges leave. -/
def serving : Server := (Trace.run (exchange smallConfig) coldServer storedExchanges).getD coldServer

theorem sent_plainObject : Description.ConsoleReadFrom [] (Description.ofObject plainObject) where
  contentType := by decide
  userMetadata := rfl
  content := ⟨⟨[], [], [], [], []⟩, rfl, rfl, rfl, rfl, rfl, rfl⟩

theorem answersUnbroken_of_exposesUnbroken_serving : AnswersUnbroken smallConfig serving := by
  have hruns : (Trace.run (exchange smallConfig) coldServer storedExchanges).isSome := by
    decide +kernel
  obtain ⟨final, hfinal⟩ := Option.isSome_iff_exists.mp hruns
  have hserving : serving = final := by rw [serving, hfinal]; rfl
  have hcold : ∀ key stored, ¬ coldServer.cache.Holds smallConfig.hash key stored := by
    rintro key stored ⟨node, hnode, -⟩
    cases hnode
  have hsent : Trace.Every (exchange smallConfig) Sent coldServer storedExchanges :=
    ⟨trivial, fun _ _ => ⟨⟨⟨[], headersUnbroken_nil, sent_plainObject⟩, [], rfl⟩,
      fun _ _ => ⟨trivial, fun _ _ => trivial⟩⟩⟩
  have hexposes : ∀ exchange ∈ storedExchanges, ExposesUnbroken exchange := by
    simp [storedExchanges, ExposesUnbroken]
  rw [hserving]
  exact answersUnbroken_of_exposesUnbroken rfl hcold hsent hexposes hfinal

/-- A line break in an override, percent-encoded. -/
def splittingQuery : Bytes := ascii "response-cache-control=a%0D%0ASet-Cookie:%20b"

/-- The answer to a read with that override. -/
def splitAnswer : Except HandlerError HttpResponse :=
  (handleGetObject smallConfig 3 (fun _ => none) true serving (readOf splittingQuery)).2

/-- The override ends its header, and what follows it stands on a line of its own. -/
theorem override_splits_response :
    splitAnswer.map (fun response => (response.status, response.headers.lookup (ascii "Cache-Control"))) =
        .ok (200, some (ascii "a" ++ [0x0D, 0x0A] ++ ascii "Set-Cookie: b")) ∧
      ¬ ∀ ticks parseHttpDate opens (request : ReadRequest) response, HeadersUnbroken request.http →
        (handleGetObject smallConfig ticks parseHttpDate opens serving request).2 = .ok response →
        response.Unbroken := by
  have hanswer : splitAnswer.map
      (fun response => (response.status, response.headers.lookup (ascii "Cache-Control"))) =
        .ok (200, some (ascii "a" ++ [0x0D, 0x0A] ++ ascii "Set-Cookie: b")) := by
    decide +kernel
  refine ⟨hanswer, fun hall => ?_⟩
  cases hsplit : splitAnswer with
  | error error =>
      rw [hsplit] at hanswer
      cases hanswer
  | ok response =>
      have hwhole := hall 3 (fun _ => none) true (readOf splittingQuery) response headersUnbroken_nil hsplit
      rw [hsplit] at hanswer
      obtain ⟨-, hlookup⟩ := Prod.mk.inj (Except.ok.inj hanswer)
      obtain ⟨front, back, hheaders, -⟩ := List.lookup_eq_some_iff.mp hlookup
      have hvalue := (hwhole.headers _ (by rw [hheaders]; exact List.mem_append_cons_self)).2
      exact absurd hvalue (by decide)

end Fixed

end MonoBucket.FrontDoors

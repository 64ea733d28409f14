/-
Every record the server writes reads back

The writes of the store and of both front doors, and restarts, in any order. As
long as no accepted CORS rule and no account is past a bound only the decoder
knows, every row is one the server's own readers read: no listing, no point read
and no restart fails on it.
-/

import MonoBucket.Server.Visibility
import MonoBucket.Storage.Written

namespace MonoBucket.ReadBack

open S3 Codec

inductive WriteOp
  | bucket (op : Visibility.Op)
  | putUser (user : UserRecord)
  | deleteUser (username : Bytes)
  | putAdmin (admin : AdminRecord)
  | deleteAdmin
  | putInstanceSettings (settings : InstanceSettings)
  | putAccessKey (key : AccessKeyRecord)
  | deleteAccessKey (accessKeyId : Bytes)
  | appendAudit (entry : AuditRecord)
  | putObject (bucket : Bytes) (object : ObjectRecord) (now : TimestampMs)
  | deleteObject (bucket key : Bytes) (now : TimestampMs)
  | createUpload (upload : UploadRecord)
  | putPart (uploadId : Bytes) (part : PartRecord) (now : TimestampMs)
  | abortUpload (uploadId : Bytes) (now : TimestampMs)
  | completeUpload (bucket uploadId : Bytes) (object : ObjectRecord) (now : TimestampMs)
  | trackBlob (blobId : Bytes) (now : TimestampMs)
  | forgetOrphans (blobIds : List Bytes)

/-- The store after a mutation; one that throws leaves it. -/
def settle {α : Type} (store : MetadataStore) : Except StoreError (MetadataStore × α) → MetadataStore
  | .ok (next, _) => next
  | .error _ => store

/-- The store after a write that is not on a bucket's record. -/
def write (store : MetadataStore) : WriteOp → MetadataStore
  | .bucket _ => store
  | .putUser user => MonoBucket.putUser store user
  | .deleteUser username => (MonoBucket.deleteUser store username).1
  | .putAdmin admin => MonoBucket.putAdmin store admin
  | .deleteAdmin => MonoBucket.deleteAdmin store
  | .putInstanceSettings settings => MonoBucket.putInstanceSettings store settings
  | .putAccessKey key => MonoBucket.putAccessKey store key
  | .deleteAccessKey accessKeyId => (MonoBucket.deleteAccessKey store accessKeyId).1
  | .appendAudit entry => (MonoBucket.appendAudit store entry).1
  | .putObject bucket object now => settle store (MonoBucket.putObject store bucket object now)
  | .deleteObject bucket key now => settle store (MonoBucket.deleteObject store bucket key now)
  | .createUpload upload =>
    settle store ((MonoBucket.createUpload store upload).map fun next => (next, ()))
  | .putPart uploadId part now => settle store (MonoBucket.putPart store uploadId part now)
  | .abortUpload uploadId now => settle store (MonoBucket.abortUpload store uploadId now)
  | .completeUpload bucket uploadId object now =>
    settle store (MonoBucket.completeUpload store bucket uploadId object now)
  | .trackBlob blobId now => MonoBucket.trackBlob store blobId now
  | .forgetOrphans blobIds => MonoBucket.forgetOrphans store blobIds

section Runs

variable (parse : Bytes → Option Json) (options : EngineOptions)

def step (engine : StorageEngine) : WriteOp → Option StorageEngine
  | .bucket op => Visibility.step parse options engine op
  | op => some { engine with metadata := write engine.metadata op }

/-- The write is within the bounds the decoder puts on what it accepts. -/
def WithinBounds : WriteOp → Prop
  | .bucket (.putCors _ rules) => ∀ rule ∈ rules.items, rule.ListsFit ∧ -1 ≤ rule.maxAgeSeconds
  | .putUser user => user.Storable
  | _ => True

/-- Every read of the store, and a restart, returns. -/
structure ReadsBack (engine : StorageEngine) : Prop where
  bucket : ∀ name, (loadBucket engine.metadata.rows name).Returns
  buckets : (listBuckets engine.metadata.rows).Returns
  object : ∀ bucket key, (getObject engine.metadata.rows bucket key).Returns
  upload : ∀ uploadId, (loadUpload engine.metadata.rows uploadId).Returns
  part : ∀ uploadId number, (loadPart engine.metadata.rows uploadId number).Returns
  parts : ∀ uploadId, (collectParts engine.metadata.rows uploadId).Returns
  user : ∀ username, (getUser engine.metadata.rows username).Returns
  users : (listUsers engine.metadata.rows).Returns
  admin : (getAdmin engine.metadata.rows).Returns
  settings : (getInstanceSettings engine.metadata.rows).Returns
  accessKey : ∀ accessKeyId, (getAccessKey engine.metadata.rows accessKeyId).Returns
  accessKeys : (listAccessKeys engine.metadata.rows).Returns
  audit : ∀ limit, (listAudit engine.metadata.rows limit).Returns
  restart : ∀ now, (restart parse options now engine).2.Returns

/-- A bucket record that reads back, with a policy the next start can analyse. -/
structure Kept (bucket : BucketRecord) : Prop where
  storable : bucket.Storable
  analysable : bucket.policy.items ≠ [] →
    (analyseBucketPolicy parse bucket.policy.items bucket.name).Returns

variable {parse options}

/-! ### Reads -/

section Reads

variable {rows : Rows} (hrows : rows.Holds (Written (Kept parse)))

include hrows

theorem bucketRows_of_holds : BucketRows (Kept parse) rows := by
  rintro key stored hfind name rfl
  obtain ⟨record, hname, hstored, hrecord⟩ := (hrows _ _ hfind).bucket_inv rfl
  exact ⟨record, (Keys.bucket_injective hname).symm, hstored, hrecord⟩

/-- A point read of a bucket gives back the record that was written. -/
theorem load_kept {name : Bytes} {read : BucketRecord}
    (h : loadBucket rows name = .ok (some read)) : Kept parse read ∧ read.name = name := by
  obtain ⟨bucket, hbucket, hname, rfl⟩ := (bucketRows_of_holds hrows).load h
  have hwritten := (decodeBucket_encodeBucket_iff bucket).mpr hbucket.storable
  rw [decodeBucket_encodeBucket hbucket.storable.ruleCount hbucket.storable.listsFit] at hwritten
  rw [Except.ok.inj hwritten]
  exact ⟨hbucket, hname⟩

theorem loadBucket_returns (name : Bytes) : (loadBucket rows name).Returns :=
  readRow_returns fun _ hfind =>
    (hrows _ _ hfind).decodeBucket (fun _ h => h.storable) rfl name

theorem getInstanceSettings_returns : (getInstanceSettings rows).Returns :=
  readRow_returns fun _ hfind => by
    obtain ⟨record, rfl⟩ := (hrows _ _ hfind).settings_inv rfl
    exact ⟨record, decodeSettings_encodeSettings record⟩

theorem getAdmin_returns : (getAdmin rows).Returns :=
  readRow_returns fun _ hfind => by
    obtain ⟨record, rfl⟩ := (hrows _ _ hfind).admin_inv rfl
    exact ⟨record, decodeAdmin_encodeAdmin record⟩

theorem listAudit_returns (limit : Nat) : (listAudit rows limit).Returns := by
  apply readAll_returns
  intro row hrow
  have hentry := (List.mem_filter.mp (List.mem_reverse.mp
    ((List.takeWhile_prefix _).subset (List.mem_of_mem_take hrow)))).1
  split
  · exact ⟨none, rfl⟩
  · rename_i sequence hsequence
    have htag := Keys.head?_of_auditSequence hsequence
    exact ((hrows.of_mem hentry).decodeAudit htag sequence).map some

end Reads

/-! ### Restarts -/

section Start

variable {rows : Rows} (hrows : rows.Holds (Written (Kept parse)))

include hrows

theorem verifyFormatVersion_yields :
    (verifyFormatVersion rows).Yields fun verified => verified.Holds (Written (Kept parse)) := by
  rw [verifyFormatVersion]
  split
  · refine ⟨_, rfl, hrows.write fun key value hput => ?_⟩
    obtain ⟨rfl, rfl⟩ := RowOp.put.inj (List.mem_singleton.mp hput)
    exact Written.formatVersion
  · rename_i stored hfind
    obtain rfl := (hrows _ _ hfind).formatVersion_inv rfl
    exact ⟨rows, if_pos (by decide +kernel), hrows⟩

theorem openMetadataStore_yields :
    (openMetadataStore rows).Yields fun opened => opened.1.rows.Holds (Written (Kept parse)) := by
  apply (verifyFormatVersion_yields hrows).bind
  intro verified hkept
  apply (scanRows_returns (fun row hrow => hkept.of_mem hrow) {}).yields.bind
  intro scan _
  exact ⟨_, rfl, hkept⟩

omit hrows in
theorem seedUploadLimit_yields {metadata : MetadataStore}
    (hkept : metadata.rows.Holds (Written (Kept parse))) :
    (StorageEngine.seedUploadLimit options metadata).Yields fun seeded =>
      seeded.1.rows.Holds (Written (Kept parse)) := by
  apply (getInstanceSettings_returns hkept).yields.bind
  intro stored _
  dsimp only
  by_cases hlimit : stored.map InstanceSettings.maxUploadBytes =
      some (StorageEngine.uploadLimit options stored)
  · exact ⟨_, if_pos hlimit, hkept⟩
  · exact ⟨_, if_neg hlimit, holds_putRow hkept (Written.settings _)⟩

/-- A start reads every row it needs and leaves rows of the same kinds. -/
theorem start_yields (now : TimestampMs) :
    (StorageEngine.start options now rows).Yields fun engine =>
      engine.metadata.rows.Holds (Written (Kept parse)) := by
  apply (openMetadataStore_yields hrows).bind
  rintro ⟨opened, charges⟩ hopened
  have hquotas : (StorageEngine.seedQuotas options.allocatableBytes charges opened.rows).Returns :=
    (listBuckets_returns (fun _ h => h.storable) hopened).bind fun _ => ⟨_, rfl⟩
  apply hquotas.yields.bind
  intro quotas _
  apply (seedUploadLimit_yields hopened).bind
  rintro ⟨metadata, limit⟩ hmetadata
  exact ⟨_, rfl, holds_forgetOrphans hmetadata _⟩

end Start

/-- A bucket row that is there reads as a record. -/
theorem load_of_find? {rows : Rows} (hrows : rows.Holds (Written (Kept parse))) {name : Bytes}
    (hpresent : (rows.find? (Keys.bucket name)).isSome) :
    ∃ read, loadBucket rows name = .ok (some read) := by
  obtain ⟨stored, hfind⟩ := Option.isSome_iff_exists.mp hpresent
  obtain ⟨read, hread⟩ := (hrows _ _ hfind).decodeBucket (fun _ h => h.storable) rfl name
  exact ⟨read, by simp [loadBucket, readRow, hfind, hread, decoded, Except.map]⟩

/-- Writing a policy that can be analysed to a bucket that is there succeeds,
leaves rows of the same kinds, and loses no bucket. -/
theorem setBucketPolicy_kept {engine : StorageEngine} {name : Bytes} {policy : Text}
    (hrows : engine.metadata.rows.Holds (Written (Kept parse)))
    (hpresent : (engine.metadata.rows.find? (Keys.bucket name)).isSome)
    (hpolicy : policy.items ≠ [] → (analyseBucketPolicy parse policy.items name).Returns)
    (publicRead publicList : Bool) :
    ∃ next, engine.setBucketPolicy name policy publicRead publicList = (next, .ok ()) ∧
      next.metadata.rows.Holds (Written (Kept parse)) ∧
      ∀ other, (engine.metadata.rows.find? (Keys.bucket other)).isSome →
        (next.metadata.rows.find? (Keys.bucket other)).isSome := by
  obtain ⟨read, hload⟩ := load_of_find? hrows hpresent
  obtain ⟨hkept, rfl⟩ := load_kept hrows hload
  obtain ⟨next, hnext, hwritten⟩ := StorageEngine.rewriteBucket_of_load hload
    (fun bucket => { bucket with
      policy := policy, publicRead := publicRead, publicList := publicList }) rfl
  refine ⟨next, hnext, ?_, fun other hother => ?_⟩
  · rw [hwritten]
    apply StorageEngine.holds_put hrows
    exact Written.bucket _
      ⟨⟨hkept.storable.ruleCount, hkept.storable.listsFit, hkept.storable.maxAges⟩, hpolicy⟩
  · rw [hwritten, Rows.write_cons, Rows.write_nil, Rows.find?_apply]
    split_ifs
    · rfl
    · exact hother

/-- The pass over buckets that are there returns and leaves rows of the same
kinds. -/
theorem reconcileBuckets_kept {buckets : List BucketRecord} {engine : StorageEngine}
    (hrows : engine.metadata.rows.Holds (Written (Kept parse)))
    (hkept : ∀ bucket ∈ buckets, Kept parse bucket)
    (hpresent : ∀ bucket ∈ buckets,
      (engine.metadata.rows.find? (Keys.bucket bucket.name)).isSome)
    (report : PolicyReconciliation) :
    (reconcileBuckets parse buckets report engine).2.Returns ∧
      (reconcileBuckets parse buckets report engine).1.metadata.rows.Holds
        (Written (Kept parse)) := by
  induction buckets generalizing engine report with
  | nil => exact ⟨⟨report, rfl⟩, hrows⟩
  | cons bucket rest ih =>
      have hrest : ∀ {next : StorageEngine}, next.metadata.rows.Holds (Written (Kept parse)) →
          (∀ other, (engine.metadata.rows.find? (Keys.bucket other)).isSome →
            (next.metadata.rows.find? (Keys.bucket other)).isSome) → ∀ report,
          (reconcileBuckets parse rest report next).2.Returns ∧
            (reconcileBuckets parse rest report next).1.metadata.rows.Holds
              (Written (Kept parse)) :=
        fun hnext hfound report =>
          ih hnext (fun other hother => hkept other (List.mem_cons_of_mem _ hother))
            (fun other hother => hfound _ (hpresent other (List.mem_cons_of_mem _ hother))) report
      have hbucket := hkept bucket (List.mem_cons_self ..)
      rw [reconcileBuckets]
      by_cases hempty : bucket.policy.items = []
      · rw [if_pos hempty]
        exact hrest hrows (fun _ h => h) report
      · obtain ⟨analysis, hanalysis⟩ := hbucket.analysable hempty
        rw [if_neg hempty, hanalysis]
        dsimp only
        by_cases hflags : analysis.enforced = bucket.flags
        · rw [if_pos hflags]
          exact hrest hrows (fun _ h => h) _
        · rw [if_neg hflags]
          obtain ⟨next, hnext, hnextRows, hfound⟩ := setBucketPolicy_kept hrows
            (hpresent bucket (List.mem_cons_self ..)) hbucket.analysable
            analysis.enforced.readObjects analysis.enforced.listBucket
          rw [hnext]
          dsimp only
          split_ifs <;> exact hrest hnextRows hfound _

/-- A restart returns and leaves rows of the same kinds. -/
theorem restart_kept {engine : StorageEngine}
    (hrows : engine.metadata.rows.Holds (Written (Kept parse))) (now : TimestampMs) :
    (restart parse options now engine).2.Returns ∧
      (restart parse options now engine).1.metadata.rows.Holds (Written (Kept parse)) := by
  obtain ⟨started, hstarted, hkept⟩ := start_yields hrows now
  obtain ⟨buckets, hbuckets⟩ := listBuckets_returns (fun _ h => h.storable) hkept
  rw [restart, hstarted]
  dsimp only
  rw [reconcileBucketPolicies, hbuckets]
  have hload := fun bucket (hbucket : bucket ∈ buckets) =>
    mem_listBuckets (bucketRows_of_holds hkept) hbuckets hbucket
  refine reconcileBuckets_kept hkept (fun bucket hbucket => (load_kept hkept (hload bucket hbucket)).1)
    (fun bucket hbucket => ?_) {}
  by_contra hmissing
  have hnone := Option.not_isSome_iff_eq_none.mp hmissing
  have hread := hload bucket hbucket
  rw [loadBucket, readRow, hnone] at hread
  cases hread

/-! ### Runs -/

/-- Rows the server wrote read back. -/
theorem readsBack_of_holds {engine : StorageEngine}
    (hrows : engine.metadata.rows.Holds (Written (Kept parse))) :
    ReadsBack parse options engine where
  bucket := loadBucket_returns hrows
  buckets := listBuckets_returns (fun _ h => h.storable) hrows
  object _ key := readRow_returns fun _ hfind => (hrows _ _ hfind).decodeObject rfl key
  upload uploadId := readRow_returns fun _ hfind => (hrows _ _ hfind).decodeUpload rfl uploadId
  part _ number := readRow_returns fun _ hfind => (hrows _ _ hfind).decodePart rfl number
  parts := collectParts_returns hrows
  user username := by
    rw [getUser]
    split_ifs
    · exact ⟨none, rfl⟩
    · exact readRow_returns fun _ hfind => (hrows _ _ hfind).decodeUser rfl username
  users := readAll_behind_returns fun _ hrow hfront =>
    (hrows.of_mem hrow).decodeUser (head?_of_tag_front hfront)
  admin := getAdmin_returns hrows
  settings := getInstanceSettings_returns hrows
  accessKey accessKeyId := by
    rw [getAccessKey]
    split_ifs
    · exact ⟨none, rfl⟩
    · exact readRow_returns fun _ hfind => (hrows _ _ hfind).decodeAccessKey rfl accessKeyId
  accessKeys := readAll_behind_returns fun _ hrow hfront =>
    (hrows.of_mem hrow).decodeAccessKey (head?_of_tag_front hfront)
  audit := listAudit_returns hrows
  restart now := (restart_kept hrows now).1

theorem Kept.congr {bucket other : BucketRecord} (h : Kept parse bucket)
    (hname : other.name = bucket.name) (hcors : other.cors = bucket.cors)
    (hpolicy : other.policy = bucket.policy) : Kept parse other where
  storable :=
    ⟨hcors ▸ h.storable.ruleCount, hcors ▸ h.storable.listsFit, hcors ▸ h.storable.maxAges⟩
  analysable := by
    rw [hname, hpolicy]
    exact h.analysable

/-- Each operation on buckets leaves rows of the same kinds, a CORS
configuration under its bounds. -/
theorem bucketOp_kept {engine : StorageEngine} {op : Visibility.Op}
    (hrows : engine.metadata.rows.Holds (Written (Kept parse)))
    (hbounds : WithinBounds (.bucket op)) :
    (Visibility.perform parse options engine op).1.metadata.rows.Holds (Written (Kept parse)) := by
  have hrewrite : ∀ {name : Bytes} {change : BucketRecord → BucketRecord},
      (∀ bucket, bucket.name = name → Kept parse bucket → Kept parse (change bucket)) →
      (engine.rewriteBucket name change).1.metadata.rows.Holds (Written (Kept parse)) := by
    intro name change hchange
    apply StorageEngine.holds_rewriteBucket hrows
    intro bucket hload
    obtain ⟨hkept, hname⟩ := load_kept hrows hload
    exact Written.bucket _ (hchange bucket hname hkept)
  cases op with
  | createBucket name quotaBytes now =>
      have hnew : Kept parse { name := name, createdAt := now, quotaBytes := quotaBytes } :=
        ⟨BucketRecord.storable_of_empty rfl, fun h => absurd rfl h⟩
      exact StorageEngine.holds_createBucket hrows (Written.bucket _ hnew)
  | deleteBucket name => exact StorageEngine.holds_deleteBucket hrows
  | putPolicy name document =>
      simp only [Visibility.perform, Visibility.putPolicy]
      split
      · exact hrows
      · rename_i hvalid
        obtain ⟨-, grants, hgrants⟩ := validateBucketPolicy_ok parse hvalid
        rw [hgrants]
        refine hrewrite fun bucket hname hkept => ⟨?_, fun _ => ⟨_, hname ▸ hgrants⟩⟩
        exact ⟨hkept.storable.ruleCount, hkept.storable.listsFit, hkept.storable.maxAges⟩
  | deletePolicy name =>
      refine hrewrite fun bucket _ hkept => ⟨?_, fun h => absurd rfl h⟩
      exact ⟨hkept.storable.ruleCount, hkept.storable.listsFit, hkept.storable.maxAges⟩
  | setPublicRead name publicRead => exact hrewrite fun _ _ h => h.congr rfl rfl rfl
  | putCors name rules =>
      simp only [Visibility.perform, Visibility.putCors]
      split
      · exact hrows
      · rename_i accepted haccepted
        obtain ⟨hcount, hbound⟩ := storable_of_validateCorsRules haccepted
        have hrules := hbound.mpr hbounds
        exact hrewrite fun _ _ h => ⟨⟨hcount, fun rule hrule => (hrules rule hrule).1,
          fun rule hrule => (hrules rule hrule).2⟩, h.analysable⟩
  | deleteCors name =>
      exact hrewrite fun _ _ h => ⟨BucketRecord.storable_of_empty rfl, h.analysable⟩
  | setDurability name durability => exact hrewrite fun _ _ h => h.congr rfl rfl rfl
  | setQuota name quotaBytes =>
      apply StorageEngine.holds_setBucketQuota hrows
      intro bucket hload
      have hkept := (load_kept hrows hload).1
      exact Written.bucket { bucket with quotaBytes := quotaBytes } (hkept.congr rfl rfl rfl)
  | restart now => exact (restart_kept hrows now).2

/-- A mutation that may throw leaves rows of the same kinds if its batch does. -/
theorem holds_settle {α : Type} {store : MetadataStore}
    {result : Except StoreError (MetadataStore × α)}
    (hrows : store.rows.Holds (Written (Kept parse)))
    (hresult : ∀ next outcome, result = .ok (next, outcome) →
      next.rows.Holds (Written (Kept parse))) :
    (settle store result).rows.Holds (Written (Kept parse)) := by
  cases result with
  | error error => exact hrows
  | ok settled => exact hresult settled.1 settled.2 rfl

/-- So does every other write, an account under its bound. -/
theorem write_kept {store : MetadataStore} {op : WriteOp}
    (hrows : store.rows.Holds (Written (Kept parse))) (hbounds : WithinBounds op) :
    (write store op).rows.Holds (Written (Kept parse)) := by
  cases op with
  | bucket op => exact hrows
  | putUser user => exact holds_putRow hrows (Written.user user hbounds)
  | deleteUser username =>
      simp only [write, MonoBucket.deleteUser]
      split
      · exact hrows
      · exact holds_deleteRow hrows _
  | putAdmin admin => exact holds_putRow hrows (Written.admin admin)
  | deleteAdmin => exact holds_deleteRow hrows _
  | putInstanceSettings settings => exact holds_putRow hrows (Written.settings settings)
  | putAccessKey key => exact holds_putRow hrows (Written.accessKey key)
  | deleteAccessKey accessKeyId =>
      simp only [write, MonoBucket.deleteAccessKey]
      split
      · exact hrows
      · exact holds_deleteRow hrows _
  | appendAudit entry => exact holds_appendAudit hrows entry
  | putObject bucket object now =>
      apply holds_settle hrows
      intro next outcome h
      obtain ⟨previous, -, hnext, -⟩ := putObject_ok h
      exact hnext ▸ holds_putObjectBatch hrows bucket object previous now
  | deleteObject bucket key now =>
      apply holds_settle hrows
      intro next outcome h
      rcases deleteObject_ok h with rfl | ⟨existing, -, hnext, -⟩
      · exact hrows
      · exact hnext ▸ holds_deleteObjectBatch hrows bucket key existing now
  | createUpload upload =>
      apply holds_settle hrows
      intro next outcome h
      cases hcreate : MonoBucket.createUpload store upload with
      | error error => simp [hcreate, Except.map] at h
      | ok created =>
          simp only [hcreate, Except.map, Except.ok.injEq, Prod.mk.injEq] at h
          rw [← h.1, createUpload_ok hcreate]
          exact holds_createUploadBatch hrows upload
  | putPart uploadId part now =>
      apply holds_settle hrows
      intro next outcome h
      obtain ⟨previous, -, hnext, -⟩ := putPart_ok h
      exact hnext ▸ holds_putPartBatch hrows uploadId part previous now
  | abortUpload uploadId now =>
      apply holds_settle hrows
      intro next outcome h
      obtain ⟨upload, parts, -, -, hnext, -⟩ := abortUpload_ok h
      exact hnext ▸ holds_abortUploadBatch hrows upload parts now
  | completeUpload bucket uploadId object now =>
      apply holds_settle hrows
      intro next outcome h
      obtain ⟨upload, previous, parts, -, -, -, hnext, -⟩ := completeUpload_ok h
      exact hnext ▸ holds_completeUploadBatch hrows bucket upload object previous parts now
  | trackBlob blobId now => exact holds_putRow hrows (Written.orphan blobId now)
  | forgetOrphans blobIds => exact holds_forgetOrphans hrows blobIds

theorem step_kept {engine next : StorageEngine} {op : WriteOp}
    (hrows : engine.metadata.rows.Holds (Written (Kept parse))) (hbounds : WithinBounds op)
    (hstep : step parse options engine op = some next) :
    next.metadata.rows.Holds (Written (Kept parse)) := by
  cases op with
  | bucket op =>
      obtain rfl := Option.some.inj hstep
      exact bucketOp_kept hrows hbounds
  | _ =>
      obtain rfl := Option.some.inj hstep
      exact write_kept hrows hbounds

/-- Encoding loses nothing on the records that reads bound exactly within the
bound and on every other record always; and in every run whose writes are within
the bounds, every read and a restart return in the state reached. -/
theorem written_records_read_back (parse : Bytes → Option Json) (options : EngineOptions) :
    ((∀ bucket : BucketRecord,
        decodeBucket bucket.name (encodeBucket bucket) = .ok bucket ↔ bucket.Storable) ∧
      (∀ user : UserRecord,
        decodeUser user.username (encodeUser user) = .ok user ↔ user.Storable) ∧
      (∀ object, decodeObject object.key (encodeObject object) = .ok object) ∧
      (∀ upload, decodeUpload upload.uploadId (encodeUpload upload) = .ok upload) ∧
      (∀ part, decodePart part.partNumber (encodePart part) = .ok part) ∧
      (∀ key, decodeAccessKey key.accessKeyId (encodeAccessKey key) = .ok key) ∧
      (∀ entry, decodeAudit entry.sequence (encodeAudit entry) = .ok entry) ∧
      (∀ admin, decodeAdmin (encodeAdmin admin) = .ok admin) ∧
      ∀ settings, decodeSettings (encodeSettings settings) = .ok settings) ∧
    (∀ rules accepted : Sized CorsRule, validateCorsRules rules = .ok accepted →
      ∀ bucket : BucketRecord, bucket.cors = accepted →
        (bucket.Storable ↔
          ∀ rule ∈ rules.items, rule.ListsFit ∧ -1 ≤ rule.maxAgeSeconds)) ∧
    ∀ (labels : List WriteOp) (final : StorageEngine),
      Trace.Every (step parse options) (fun _ => WithinBounds) {} labels →
      Trace.run (step parse options) {} labels = some final → ReadsBack parse options final := by
  refine ⟨⟨decodeBucket_encodeBucket_iff, decodeUser_encodeUser_iff, decodeObject_encodeObject,
    decodeUpload_encodeUpload, decodePart_encodePart, decodeAccessKey_encodeAccessKey,
    decodeAudit_encodeAudit, decodeAdmin_encodeAdmin, decodeSettings_encodeSettings⟩, ?_, ?_⟩
  · rintro rules accepted haccepted bucket rfl
    obtain ⟨hcount, hbound⟩ := storable_of_validateCorsRules haccepted
    rw [← hbound]
    exact ⟨fun h rule hrule => ⟨h.listsFit rule hrule, h.maxAges rule hrule⟩,
      fun h => ⟨hcount, fun rule hrule => (h rule hrule).1, fun rule hrule => (h rule hrule).2⟩⟩
  · intro labels final hevery hrun
    apply readsBack_of_holds
    exact hevery.run_invariant (fun hrows hbounds hstep => step_kept hrows hbounds hstep)
      Rows.Holds.empty hrun

end Runs

/-! ### Fixed runs -/

section FixedRuns

def anyOrigin : Text := ⟨ascii "*", fits_star⟩

def getMethod : Text := ⟨ascii "get", by decide⟩

/-- One rule that names an origin `count` times. -/
def repeatedOrigins (count : Nat) (h : count < 2 ^ 64) : Sized CorsRule :=
  ⟨[{ allowedOrigins := ⟨List.replicate count anyOrigin, by simpa using h⟩,
      allowedMethods := ⟨[getMethod], by decide⟩ }], by simp⟩

def originRun (rules : Sized CorsRule) : List WriteOp :=
  [.bucket (.restart 0), .bucket (.createBucket Visibility.photos 0 1),
    .bucket (.putCors Visibility.photos rules)]

def shortRule : Sized CorsRule := repeatedOrigins 2 (by decide)

def longRule : Sized CorsRule := repeatedOrigins 1001 (by decide)

instance : ∀ op, Decidable (WithinBounds op)
  | .bucket (.putCors _ rules) =>
    inferInstanceAs (Decidable (∀ rule ∈ rules.items, rule.ListsFit ∧ -1 ≤ rule.maxAgeSeconds))
  | .putUser user =>
    inferInstanceAs (Decidable (user.buckets.exceptions.toSized.size ≤ maxGrantExceptions))
  | .bucket (.createBucket _ _ _) => isTrue trivial
  | .bucket (.deleteBucket _) => isTrue trivial
  | .bucket (.putPolicy _ _) => isTrue trivial
  | .bucket (.deletePolicy _) => isTrue trivial
  | .bucket (.setPublicRead _ _) => isTrue trivial
  | .bucket (.deleteCors _) => isTrue trivial
  | .bucket (.setDurability _ _) => isTrue trivial
  | .bucket (.setQuota _ _) => isTrue trivial
  | .bucket (.restart _) => isTrue trivial
  | .deleteUser _ => isTrue trivial
  | .putAdmin _ => isTrue trivial
  | .deleteAdmin => isTrue trivial
  | .putInstanceSettings _ => isTrue trivial
  | .putAccessKey _ => isTrue trivial
  | .deleteAccessKey _ => isTrue trivial
  | .appendAudit _ => isTrue trivial
  | .putObject _ _ _ => isTrue trivial
  | .deleteObject _ _ _ => isTrue trivial
  | .createUpload _ => isTrue trivial
  | .putPart _ _ _ => isTrue trivial
  | .abortUpload _ _ => isTrue trivial
  | .completeUpload _ _ _ _ => isTrue trivial
  | .trackBlob _ _ => isTrue trivial
  | .forgetOrphans _ => isTrue trivial

/-- A configuration within the bound, and the reads after it. -/
theorem written_records_read_back_originRun :
    ∃ final, Trace.run (step Visibility.parseReadPolicy {}) {} (originRun shortRule) =
        some final ∧
      ReadsBack Visibility.parseReadPolicy {} final := by
  obtain ⟨final, hrun⟩ : ∃ final, Trace.run (step Visibility.parseReadPolicy {}) {}
      (originRun shortRule) = some final := Option.isSome_iff_exists.mp (by decide +kernel)
  have hevery : Trace.Every (step Visibility.parseReadPolicy {}) (fun _ => WithinBounds) {}
      (originRun shortRule) := by decide +kernel
  exact ⟨final, hrun, (written_records_read_back _ _).2.2 _ _ hevery hrun⟩

/-- A rule with one origin more than the decoder reads is accepted, and from then
on the buckets cannot be listed and the server does not start. -/
theorem long_rule_refuses_restart :
    validateCorsRules longRule = .ok (longRule.map normaliseCorsRule) ∧
      ∃ final, Trace.run (step Visibility.parseReadPolicy {}) {} (originRun longRule) =
          some final ∧
        listBuckets final.metadata.rows = .error (.decode .listTooLong) ∧
        (restart Visibility.parseReadPolicy {} 2 final).2 =
          .error (.storage (.decode .listTooLong)) := by
  refine ⟨by decide +kernel,
    (Trace.run (step Visibility.parseReadPolicy {}) {} (originRun longRule)).get
      (by decide +kernel), (Option.some_get _).symm, ?_, ?_⟩
  · decide +kernel
  · decide +kernel

end FixedRuns

end MonoBucket.ReadBack

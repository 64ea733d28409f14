/-
Who can read a bucket

The operations on bucket records as both front doors perform them, and restarts,
in any order. A bucket with a policy answers anonymous requests as the policy
says as long as the public-read toggle is not used against it: the toggle writes
the flags and leaves the document, and the next start believes the document.

The S3 handlers first look the bucket up through a cache. That look-up can only
refuse, so the operations here are what is left of both doors once it passed.
-/

import MonoBucket.Lib.Trace
import MonoBucket.S3.Cors
import MonoBucket.Server.PolicyReconcile
import MonoBucket.Storage.BucketRows

namespace MonoBucket.Visibility

open S3 Codec

inductive Op
  | createBucket (name : Bytes) (quotaBytes : UInt64) (now : TimestampMs)
  | deleteBucket (name : Bytes)
  | putPolicy (name : Bytes) (document : Text)
  | deletePolicy (name : Bytes)
  | setPublicRead (name : Bytes) (publicRead : Bool)
  | putCors (name : Bytes) (rules : Sized CorsRule)
  | deleteCors (name : Bytes)
  | setDurability (name : Bytes) (durability : Option Durability)
  | setQuota (name : Bytes) (quotaBytes : UInt64)
  | restart (now : TimestampMs)
  deriving DecidableEq

/-- What a storage operation threw goes through the handler. -/
def fromStorage (outcome : StorageEngine × Except StoreError Unit) :
    StorageEngine × Except HandlerError Unit :=
  (outcome.1, outcome.2.mapError .storage)

section Perform

variable (parse : Bytes → Option Json) (options : EngineOptions)

/-- Validate the document, read it again for its grants, and store both. -/
def putPolicy (engine : StorageEngine) (name : Bytes) (document : Text) :
    StorageEngine × Except HandlerError Unit :=
  match validateBucketPolicy parse document.items name with
  | .error error => (engine, .error error)
  | .ok _ =>
    match analyseBucketPolicy parse document.items name with
    | .error what => (engine, .error (.json what))
    | .ok analysis =>
      fromStorage (engine.setBucketPolicy name document analysis.grants.readObjects
        analysis.grants.listBucket)

def putCors (engine : StorageEngine) (name : Bytes) (rules : Sized CorsRule) :
    StorageEngine × Except HandlerError Unit :=
  match validateCorsRules rules with
  | .error exception => (engine, .error (.s3 exception))
  | .ok accepted => fromStorage (engine.setBucketCors name accepted)

def perform (engine : StorageEngine) : Op → StorageEngine × Except HandlerError Unit
  | .createBucket name quotaBytes now => fromStorage (engine.createBucket name quotaBytes now)
  | .deleteBucket name => fromStorage (engine.deleteBucket name)
  | .putPolicy name document => putPolicy parse engine name document
  | .deletePolicy name => fromStorage (engine.setBucketPolicy name .empty false false)
  | .setPublicRead name publicRead => fromStorage (engine.setBucketPublicRead name publicRead)
  | .putCors name rules => putCors engine name rules
  | .deleteCors name => fromStorage (engine.setBucketCors name .empty)
  | .setDurability name durability => fromStorage (engine.setBucketDurability name durability)
  | .setQuota name quotaBytes => fromStorage (engine.setBucketQuota name quotaBytes)
  | .restart now =>
    let outcome := restart parse options now engine
    (outcome.1, outcome.2.map fun _ => ())

/-- An operation that throws is still a step: what it left is the next state. -/
def step (engine : StorageEngine) (op : Op) : Option StorageEngine :=
  some (perform parse options engine op).1

/-- The flags are what the bucket's own policy grants, if it has one. -/
def Agrees (bucket : BucketRecord) : Prop :=
  bucket.policy.items ≠ [] →
    analyseBucketPolicy parse bucket.policy.items bucket.name = .ok { grants := bucket.flags }

instance (bucket : BucketRecord) : Decidable (Agrees parse bucket) :=
  inferInstanceAs (Decidable (_ → _))

/-- The record the toggle writes. -/
def toggled (bucket : BucketRecord) (publicRead : Bool) : BucketRecord :=
  { bucket with publicRead := publicRead, publicList := false }

/-- The toggle is used only where it says nothing against a stored policy. -/
def Deferring (engine : StorageEngine) : Op → Prop
  | .setPublicRead name publicRead =>
    ∀ bucket, loadBucket engine.metadata.rows name = .ok (some bucket) →
      Agrees parse (toggled bucket publicRead)
  | _ => True

/-! ### What each operation keeps -/

variable {parse options}

theorem Agrees.congr {bucket other : BucketRecord} (h : Agrees parse bucket)
    (hname : other.name = bucket.name) (hpolicy : other.policy = bucket.policy)
    (hflags : other.flags = bucket.flags) : Agrees parse other := by
  intro hempty
  rw [hname, hpolicy, hflags]
  exact h (hpolicy ▸ hempty)

/-- A record without a policy agrees with it whatever its flags are. -/
theorem Agrees.of_empty {bucket : BucketRecord} (h : bucket.policy.items = []) :
    Agrees parse bucket := fun hempty => absurd h hempty

/-- A read of an agreeing row agrees: reading back only normalises CORS rules. -/
theorem agrees_of_load {rows : Rows} (hrows : BucketRows (Agrees parse) rows) {name : Bytes}
    {read : BucketRecord} (h : loadBucket rows name = .ok (some read)) :
    Agrees parse read ∧ read.name = name := by
  obtain ⟨bucket, hbucket, hname, rfl⟩ := hrows.load h
  exact ⟨hbucket.congr rfl rfl rfl, hname⟩

theorem agrees_putPolicy {engine : StorageEngine}
    (hrows : BucketRows (Agrees parse) engine.metadata.rows) (name : Bytes) (document : Text) :
    BucketRows (Agrees parse) (putPolicy parse engine name document).1.metadata.rows := by
  rw [putPolicy]
  split
  · exact hrows
  · rename_i hvalid
    obtain ⟨-, grants, hgrants⟩ := validateBucketPolicy_ok parse hvalid
    rw [hgrants]
    apply StorageEngine.holds_rewriteBucket hrows
    intro bucket hload
    apply BucketRow.encodeBucket (P := Agrees parse)
    intro _
    obtain ⟨-, rfl⟩ := agrees_of_load hrows hload
    exact hgrants

/-- A start finds nothing to write: every flag already is what its policy grants. -/
theorem restart_eq_start {engine started : StorageEngine} {now : TimestampMs}
    (hstart : StorageEngine.start options now engine.metadata.rows = .ok started)
    (hrows : BucketRows (Agrees parse) started.metadata.rows) :
    (restart parse options now engine).1 = started := by
  rw [restart, hstart]
  dsimp only
  rw [reconcileBucketPolicies]
  split
  · rfl
  · rename_i buckets hlist
    obtain ⟨report, hreconcile⟩ := reconcileBuckets_eq_self parse
      (fun bucket hbucket hempty => by
        obtain ⟨hagrees, -⟩ := agrees_of_load hrows (mem_listBuckets hrows hlist hbucket)
        exact ⟨_, hagrees hempty, rfl⟩) {}
    rw [hreconcile]

/-- A restart leaves every bucket row as it was. -/
theorem find?_bucket_restart {engine : StorageEngine}
    (hrows : BucketRows (Agrees parse) engine.metadata.rows) (now : TimestampMs) (name : Bytes) :
    (restart parse options now engine).1.metadata.rows.find? (Keys.bucket name) =
      engine.metadata.rows.find? (Keys.bucket name) := by
  cases hstart : StorageEngine.start options now engine.metadata.rows with
  | error error => rw [restart, hstart]
  | ok started =>
      have hfind := StorageEngine.find?_bucket_start hstart
      have hstarted : BucketRows (Agrees parse) started.metadata.rows :=
        hrows.of_find? fun other stored h => hfind other ▸ h
      rw [restart_eq_start hstart hstarted, hfind name]

/-- Every operation keeps the agreement, the toggle under its condition. -/
theorem agrees_step {engine next : StorageEngine} {op : Op}
    (hrows : BucketRows (Agrees parse) engine.metadata.rows)
    (hdeferring : Deferring parse engine op) (hstep : step parse options engine op = some next) :
    BucketRows (Agrees parse) next.metadata.rows := by
  obtain rfl := Option.some.inj hstep
  have hrewrite : ∀ {name : Bytes} {change : BucketRecord → BucketRecord},
      (∀ bucket, Agrees parse bucket → Agrees parse (change bucket)) →
      BucketRows (Agrees parse) (engine.rewriteBucket name change).1.metadata.rows :=
    fun hchange => StorageEngine.holds_rewriteBucket hrows fun bucket hload =>
      BucketRow.encodeBucket _ (hchange bucket (agrees_of_load hrows hload).1)
  cases op with
  | createBucket name quotaBytes now =>
      let bucket : BucketRecord := { name := name, createdAt := now, quotaBytes := quotaBytes }
      exact StorageEngine.holds_createBucket hrows
        (BucketRow.encodeBucket bucket (Agrees.of_empty rfl))
  | deleteBucket name => exact StorageEngine.holds_deleteBucket hrows
  | putPolicy name document => exact agrees_putPolicy hrows name document
  | deletePolicy name => exact hrewrite fun _ _ => Agrees.of_empty rfl
  | setPublicRead name publicRead =>
      exact StorageEngine.holds_rewriteBucket hrows fun bucket hload =>
        BucketRow.encodeBucket _ (hdeferring bucket hload)
  | putCors name rules =>
      simp only [perform, putCors]
      split
      · exact hrows
      · exact hrewrite fun _ h => h.congr rfl rfl rfl
  | deleteCors name => exact hrewrite fun _ h => h.congr rfl rfl rfl
  | setDurability name durability => exact hrewrite fun _ h => h.congr rfl rfl rfl
  | setQuota name quotaBytes =>
      apply StorageEngine.holds_setBucketQuota hrows
      intro bucket hload
      have hagrees := (agrees_of_load hrows hload).1
      exact BucketRow.encodeBucket { bucket with quotaBytes := quotaBytes }
        (hagrees.congr rfl rfl rfl)
  | restart now =>
      exact hrows.of_find? fun name stored h => find?_bucket_restart hrows now name ▸ h

/-- In every run that defers to stored policies, every bucket's flags are what
its policy grants, and a restart changes no bucket's record at all. -/
theorem flags_eq_policy_grants {labels : List Op} {final : StorageEngine}
    (hevery : Trace.Every (step parse options) (Deferring parse) {} labels)
    (hrun : Trace.run (step parse options) {} labels = some final) :
    (∀ name bucket, loadBucket final.metadata.rows name = .ok (some bucket) →
      bucket.policy.items ≠ [] →
        analyseBucketPolicy parse bucket.policy.items name = .ok { grants := bucket.flags }) ∧
    ∀ now name, loadBucket (restart parse options now final).1.metadata.rows name =
      loadBucket final.metadata.rows name := by
  have hrows : BucketRows (Agrees parse) final.metadata.rows :=
    hevery.run_invariant (fun hrows hdeferring hstep => agrees_step hrows hdeferring hstep)
      Rows.Holds.empty hrun
  constructor
  · intro name bucket hload hempty
    obtain ⟨hagrees, rfl⟩ := agrees_of_load hrows hload
    exact hagrees hempty
  · intro now name
    simp only [loadBucket, readRow, find?_bucket_restart hrows now name]

end Perform

/-! ### Fixed runs -/

section Runs

/-- A policy that publishes the objects and not their names. -/
def readPolicyText : Text :=
  ⟨ascii "\x7b\"Statement\":\x7b\"Effect\":\"Allow\",\"Principal\":\"*\"," ++
    ascii "\"Action\":\"s3:GetObject\",\"Resource\":\"*\"\x7d\x7d", by decide⟩

def readPolicyJson : Json :=
  .object [(ascii "Statement", .object
    [(ascii "Action", .string (ascii "s3:GetObject")), (ascii "Effect", .string (ascii "Allow")),
      (ascii "Principal", .string (ascii "*")), (ascii "Resource", .string (ascii "*"))])]

/-- The JSON library on the one document the runs below store. -/
def parseReadPolicy (document : Bytes) : Option Json :=
  if document = readPolicyText.items then some readPolicyJson else none

def photos : Bytes := ascii "photos"

instance (engine : StorageEngine) : ∀ op, Decidable (Deferring parseReadPolicy engine op)
  | .setPublicRead name publicRead =>
    match hload : loadBucket engine.metadata.rows name with
    | .ok (some bucket) =>
      decidable_of_iff (Agrees parseReadPolicy (toggled bucket publicRead))
        ⟨fun h other hother => by rw [hload] at hother; cases hother; exact h,
          fun h => h bucket hload⟩
    | .ok none => isTrue fun other hother => by rw [hload] at hother; cases hother
    | .error _ => isTrue fun other hother => by rw [hload] at hother; cases hother
  | .createBucket _ _ _ => isTrue trivial
  | .deleteBucket _ => isTrue trivial
  | .putPolicy _ _ => isTrue trivial
  | .deletePolicy _ => isTrue trivial
  | .putCors _ _ => isTrue trivial
  | .deleteCors _ => isTrue trivial
  | .setDurability _ _ => isTrue trivial
  | .setQuota _ _ => isTrue trivial
  | .restart _ => isTrue trivial

/-- The toggle repeats what the policy says, and later makes a bucket without a
policy private. -/
def deferringRun : List Op :=
  [.restart 0, .createBucket photos 0 1, .putPolicy photos readPolicyText,
    .setPublicRead photos true, .deletePolicy photos, .setPublicRead photos false, .restart 2,
    .putPolicy photos readPolicyText]

theorem flags_eq_policy_grants_deferringRun :
    ∃ final, Trace.run (step parseReadPolicy {}) {} deferringRun = some final ∧
      (∀ name bucket, loadBucket final.metadata.rows name = .ok (some bucket) →
        bucket.policy.items ≠ [] →
          analyseBucketPolicy parseReadPolicy bucket.policy.items name =
            .ok { grants := bucket.flags }) ∧
      ∀ now name, loadBucket (restart parseReadPolicy {} now final).1.metadata.rows name =
        loadBucket final.metadata.rows name := by
  obtain ⟨final, hrun⟩ : ∃ final, Trace.run (step parseReadPolicy {}) {} deferringRun =
      some final := Option.isSome_iff_exists.mp (by decide +kernel)
  have hevery : Trace.Every (step parseReadPolicy {}) (Deferring parseReadPolicy) {} deferringRun :=
    by decide +kernel
  exact ⟨final, hrun, flags_eq_policy_grants hevery hrun⟩

/-- The bucket is published by its policy and made private with the toggle. -/
def toggledRun : List Op :=
  [.restart 0, .createBucket photos 0 1, .putPolicy photos readPolicyText,
    .setPublicRead photos false]

/-- What the store says about a bucket: the policy's text and the flags. -/
def stored (engine : StorageEngine) (name : Bytes) :
    Except StoreError (Option (Text × AnonymousGrants)) :=
  (loadBucket engine.metadata.rows name).map (Option.map fun bucket =>
    (bucket.policy, bucket.flags))

/-- The toggle left a policy that grants what the flags deny, and the restart
publishes the bucket again. -/
theorem toggle_undone_by_restart :
    ∃ final, Trace.run (step parseReadPolicy {}) {} toggledRun = some final ∧
      stored final photos = .ok (some (readPolicyText, ⟨false, false⟩)) ∧
      analyseBucketPolicy parseReadPolicy readPolicyText.items photos =
        .ok { grants := ⟨true, false⟩ } ∧
      stored (restart parseReadPolicy {} 2 final).1 photos =
        .ok (some (readPolicyText, ⟨true, false⟩)) := by
  refine ⟨(Trace.run (step parseReadPolicy {}) {} toggledRun).get (by decide +kernel),
    (Option.some_get _).symm, ?_, ?_, ?_⟩
  · decide +kernel
  · decide +kernel
  · decide +kernel

end Runs

end MonoBucket.Visibility

/-
Re-deriving access at a start

Anonymous access is stored twice: as the policy's text and as the two flags the
request path consults. A start reads every stored policy again and writes the
flags it finds there.
-/

import MonoBucket.S3.BucketPolicy
import MonoBucket.Storage.StorageEngine

namespace MonoBucket

open S3

/-- What the pass found. -/
structure PolicyReconciliation where
  examined : Nat := 0
  narrowed : List Bytes := []
  unenforceable : List Bytes := []
  deriving DecidableEq

/-- What a document grants once only what was understood in full counts. -/
def S3.PolicyAnalysis.enforced (analysis : PolicyAnalysis) : AnonymousGrants :=
  ⟨analysis.understood && analysis.grants.readObjects,
    analysis.understood && analysis.grants.listBucket⟩

/-- The flags of a bucket, as grants. -/
def BucketRecord.flags (bucket : BucketRecord) : AnonymousGrants :=
  ⟨bucket.publicRead, bucket.publicList⟩

section Reconcile

variable (parse : Bytes → Option Json)

/-- The loop over the buckets. An exception ends the pass where it is. -/
def reconcileBuckets : List BucketRecord → PolicyReconciliation → StorageEngine →
    StorageEngine × Except HandlerError PolicyReconciliation
  | [], report, engine => (engine, .ok report)
  | bucket :: rest, report, engine =>
    if bucket.policy.items = [] then reconcileBuckets rest report engine
    else
      match analyseBucketPolicy parse bucket.policy.items bucket.name with
      | .error what => (engine, .error (.json what))
      | .ok analysis =>
        let report := { report with examined := report.examined + 1 }
        if analysis.enforced = bucket.flags then reconcileBuckets rest report engine
        else
          match engine.setBucketPolicy bucket.name bucket.policy analysis.enforced.readObjects
              analysis.enforced.listBucket with
          | (engine, .error error) => (engine, .error (.storage error))
          | (engine, .ok _) =>
            if analysis.understood then
              reconcileBuckets rest { report with narrowed := report.narrowed ++ [bucket.name] }
                engine
            else
              reconcileBuckets rest
                { report with unenforceable := report.unenforceable ++ [bucket.name] } engine

def reconcileBucketPolicies (engine : StorageEngine) :
    StorageEngine × Except HandlerError PolicyReconciliation :=
  match listBuckets engine.metadata.rows with
  | .error error => (engine, .error (.storage error))
  | .ok buckets => reconcileBuckets parse buckets {} engine

/-- A restart on the rows the last run left. One that fails leaves them. -/
def restart (options : EngineOptions) (now : TimestampMs) (engine : StorageEngine) :
    StorageEngine × Except HandlerError PolicyReconciliation :=
  match StorageEngine.start options now engine.metadata.rows with
  | .error error => (engine, .error (.storage error))
  | .ok engine => reconcileBucketPolicies parse engine

/-- Buckets whose flags are what their policies grant are left alone. -/
theorem reconcileBuckets_eq_self {buckets : List BucketRecord} {engine : StorageEngine}
    (hagree : ∀ bucket ∈ buckets, bucket.policy.items ≠ [] →
      ∃ analysis, analyseBucketPolicy parse bucket.policy.items bucket.name = .ok analysis ∧
        analysis.enforced = bucket.flags)
    (report : PolicyReconciliation) :
    ∃ final, reconcileBuckets parse buckets report engine = (engine, .ok final) := by
  induction buckets generalizing report with
  | nil => exact ⟨report, rfl⟩
  | cons bucket rest ih =>
      have hrest := ih fun other hother => hagree other (List.mem_cons_of_mem _ hother)
      by_cases hempty : bucket.policy.items = []
      · simpa [reconcileBuckets, hempty] using hrest report
      · obtain ⟨analysis, hanalysis, hflags⟩ := hagree bucket (List.mem_cons_self ..) hempty
        simpa [reconcileBuckets, hempty, hanalysis, hflags] using hrest _

end Reconcile

end MonoBucket

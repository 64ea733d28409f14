/-
The bucket's settings, set at once

Five setters read a bucket's record, change fields of their own and write the
record back whole, with nothing held in between. A setter that writes over another
one's write takes back every field it had read before, its own or not.

As long as no setter writes over a change it has not read, of a field it does not
set, the records are the ones left by running the setters one after another, and
no write changes a field its setter does not set.
-/

import MonoBucket.Lib.Trace
import MonoBucket.Storage.BucketRows

namespace MonoBucket.BucketSettings

open Codec

/-! ### Setters -/

/-- What a setter sets. -/
inductive Setting
  | publicRead (publicRead : Bool)
  | policy (policy : Text) (publicRead publicList : Bool)
  | cors (rules : Sized CorsRule)
  | durability (durability : Option Durability)
  | quota (quotaBytes : UInt64)
  deriving DecidableEq

inductive Field
  | publicRead | publicList | policy | cors | durability | quotaBytes
  deriving DecidableEq

namespace Setting

def change : Setting → BucketRecord → BucketRecord
  | .publicRead read, bucket => { bucket with publicRead := read, publicList := false }
  | .policy document read list, bucket =>
    { bucket with policy := document, publicRead := read, publicList := list }
  | .cors rules, bucket => { bucket with cors := rules }
  | .durability override, bucket => { bucket with durability := override }
  | .quota quotaBytes, bucket => { bucket with quotaBytes := quotaBytes }

/-- The fields a setter is for. -/
def sets : Setting → List Field
  | .publicRead _ => [.publicRead, .publicList]
  | .policy .. => [.policy, .publicRead, .publicList]
  | .cors _ => [.cors]
  | .durability _ => [.durability]
  | .quota _ => [.quotaBytes]

/-- The engine's operation. -/
def call (engine : StorageEngine) (name : Bytes) :
    Setting → StorageEngine × Except StoreError Unit
  | .publicRead read => engine.setBucketPublicRead name read
  | .policy document read list => engine.setBucketPolicy name document read list
  | .cors rules => engine.setBucketCors name rules
  | .durability override => engine.setBucketDurability name override
  | .quota quotaBytes => engine.setBucketQuota name quotaBytes

/-- What a setter does to the records when nobody comes between. -/
def rewrite (rows : Rows) (name : Bytes) (setting : Setting) : Except StoreError Rows := do
  match ← loadBucket rows name with
  | none => noSuchBucket name
  | some bucket =>
    pure (rows.write [.put (Keys.bucket name) (encodeBucket (setting.change bucket))])

theorem name_change (setting : Setting) (bucket : BucketRecord) :
    (setting.change bucket).name = bucket.name := by
  cases setting <;> rfl

end Setting

/-- Two records agree in a field. An age below -1 is no age and reads back as -1. -/
def Field.Same : Field → BucketRecord → BucketRecord → Prop
  | .publicRead, record, other => record.publicRead = other.publicRead
  | .publicList, record, other => record.publicList = other.publicList
  | .policy, record, other => record.policy = other.policy
  | .cors, record, other =>
    record.cors.map CorsRule.reread = other.cors.map CorsRule.reread
  | .durability, record, other => record.durability = other.durability
  | .quotaBytes, record, other => record.quotaBytes = other.quotaBytes

/-! ### Calls -/

/-- Where a call is. A change of the allocation asks the ledger between its read
and its write, and takes its answer back when the write fails. -/
inductive Call
  | idle
  | entered (name : Bytes) (setting : Setting)
  | loaded (name : Bytes) (setting : Setting) (bucket : BucketRecord)
  | writing (name : Bytes) (setting : Setting) (bucket : BucketRecord)
  | undoing (name : Bytes) (setting : Setting) (bucket : BucketRecord) (error : StoreError)
  | returned (name : Bytes) (setting : Setting) (result : Except StoreError Unit)

/-- One step of a call. -/
def advance (engine : StorageEngine) : Call → Option (StorageEngine × Call)
  | .idle | .returned .. => none
  | .entered name setting =>
    match loadBucket engine.metadata.rows name with
    | .error error => some (engine, .returned name setting (.error error))
    | .ok none => some (engine, .returned name setting (noSuchBucket name))
    | .ok (some bucket) => some (engine, .loaded name setting bucket)
  | .loaded name (.quota quotaBytes) bucket =>
    match engine.quotas.setQuota name quotaBytes with
    | (quotas, .error error) =>
      some ({ engine with quotas := quotas }, .returned name (.quota quotaBytes) (.error error))
    | (quotas, .ok _) => some ({ engine with quotas := quotas }, .writing name (.quota quotaBytes) bucket)
  | .loaded name setting bucket => some (engine, .writing name setting bucket)
  | .writing name setting bucket =>
    match updateBucket engine.metadata (setting.change bucket) with
    | .ok metadata => some ({ engine with metadata := metadata }, .returned name setting (.ok ()))
    | .error error =>
      match setting with
      | .quota _ => some (engine, .undoing name setting bucket error)
      | _ => some (engine, .returned name setting (.error error))
  | .undoing name setting bucket error =>
    match engine.quotas.setQuota name bucket.quotaBytes with
    | (quotas, .ok _) =>
      some ({ engine with quotas := quotas }, .returned name setting (.error error))
    | (quotas, .error other) =>
      some ({ engine with quotas := quotas }, .returned name setting (.error other))

/-- A call nobody comes between. -/
def alone (engine : StorageEngine) (call : Call) : Nat → StorageEngine × Call
  | 0 => (engine, call)
  | fuel + 1 =>
    match advance engine call with
    | none => (engine, call)
    | some (engine, call) => alone engine call fuel

section Alone

variable {engine : StorageEngine} {name : Bytes}

theorem alone_rewriteBucket {setting : Setting} (hsetting : ∀ quotaBytes, setting ≠ .quota quotaBytes) :
    alone engine (.entered name setting) 4 =
      ((engine.rewriteBucket name setting.change).1,
        .returned name setting (engine.rewriteBucket name setting.change).2) := by
  rw [StorageEngine.rewriteBucket]
  cases hload : loadBucket engine.metadata.rows name with
  | error error => simp [alone, advance, hload]
  | ok found =>
      cases found with
      | none => simp [alone, advance, hload]
      | some bucket =>
          cases hupdate : updateBucket engine.metadata (setting.change bucket) <;>
            cases setting <;>
            first
              | exact absurd rfl (hsetting _)
              | simp [alone, advance, hload, hupdate, StorageEngine.commit]

/-- The steps of a call, one after another, are the engine's operation. -/
theorem alone_eq_call (setting : Setting) :
    alone engine (.entered name setting) 4 =
      ((setting.call engine name).1, .returned name setting (setting.call engine name).2) := by
  cases setting with
  | quota quotaBytes =>
      show _ = ((engine.setBucketQuota name quotaBytes).1, _)
      rw [Setting.call, StorageEngine.setBucketQuota]
      cases hload : loadBucket engine.metadata.rows name with
      | error error => simp [alone, advance, hload]
      | ok found =>
          cases found with
          | none => simp [alone, advance, hload]
          | some bucket =>
              rcases hquota : engine.quotas.setQuota name quotaBytes with ⟨quotas, error | ⟨⟨⟩⟩⟩
              · simp [alone, advance, hload, hquota]
              · have hchange : Setting.change (.quota quotaBytes) bucket =
                  { bucket with quotaBytes := quotaBytes } := rfl
                cases hupdate : updateBucket engine.metadata
                    { bucket with quotaBytes := quotaBytes } with
                | ok metadata => simp [alone, advance, hload, hquota, hchange, hupdate]
                | error error =>
                    rcases hback : quotas.setQuota name bucket.quotaBytes with ⟨back, other | ⟨⟨⟩⟩⟩
                    · simp [alone, advance, hload, hquota, hchange, hupdate, hback]
                    · simp [alone, advance, hload, hquota, hchange, hupdate, hback]
  | publicRead publicRead => exact alone_rewriteBucket fun _ h => by cases h
  | policy policy publicRead publicList => exact alone_rewriteBucket fun _ h => by cases h
  | cors rules => exact alone_rewriteBucket fun _ h => by cases h
  | durability durability => exact alone_rewriteBucket fun _ h => by cases h

end Alone

/-! ### Runs -/

abbrev State (ι : Type) := Pool ι StorageEngine Call

def State.rows {ι : Type} (state : State ι) : Rows := state.shared.metadata.rows

inductive Label (ι : Type)
  | call (who : ι) (name : Bytes) (setting : Setting)
  | step (who : ι)

section Steps

variable {ι : Type} [DecidableEq ι]

def step (state : State ι) : Label ι → Option (State ι)
  | .call who name setting =>
    match state.calls who with
    | .idle => some (state.move who state.shared (.entered name setting))
    | _ => none
  | .step who =>
    (advance state.shared (state.calls who)).map fun (engine, next) => state.move who engine next

/-- An engine before any call. -/
def starting (engine : StorageEngine) : State ι := ⟨engine, fun _ => .idle⟩

end Steps

/-- What a call was acknowledged for. -/
def Call.acknowledged : Call → Option (Bytes × Setting)
  | .returned name setting (.ok _) => some (name, setting)
  | _ => none

/-- A call about to write: the bucket, the setter and the record it read. -/
def Call.writes : Call → Option (Bytes × Setting × BucketRecord)
  | .writing name setting bucket => some (name, setting, bucket)
  | _ => none

/-- Setters run one after another. -/
def inTurn (rows : Rows) (setters : List (Bytes × Setting)) : Except StoreError Rows :=
  setters.foldlM (fun rows setter => setter.2.rewrite rows setter.1) rows

/-- The records are the ones the acknowledged calls leave in some order. -/
def Linearized {ι : Type} (rows : Rows) (state : State ι) : Prop :=
  ∃ order : List ι, order.Nodup ∧
    (∀ who, who ∈ order ↔ (state.calls who).acknowledged.isSome) ∧
    inTurn rows (order.filterMap fun who => (state.calls who).acknowledged) = .ok state.rows

/-- A step changes the fields its setter sets and no other. -/
def SetsItsOwn {ι : Type} [DecidableEq ι] (state : State ι) : Label ι → Prop
  | .call .. => True
  | .step who => ∀ next, step state (.step who) = some next →
    ∀ name before after, loadBucket state.rows name = .ok (some before) →
      loadBucket next.rows name = .ok (some after) →
      ∀ field : Field, ¬ field.Same after before →
        ∃ setting, (next.calls who).acknowledged = some (name, setting) ∧ field ∈ setting.sets

/-- What a setter writes of the record it read is what it would write of the record
that is there: the two differ at most in fields the setter sets. -/
def KeepsOthers (rows : Rows) : Bytes × Setting × BucketRecord → Prop
  | (name, setting, bucket) =>
    match loadBucket rows name with
    | .ok (some current) => setting.change bucket = setting.change current
    | _ => True

instance (rows : Rows) : ∀ write, Decidable (KeepsOthers rows write)
  | (name, setting, bucket) => by
    rw [KeepsOthers]
    split <;> infer_instance

def WritesKeepOthers {ι : Type} (state : State ι) : Label ι → Prop
  | .call .. => True
  | .step who => ∀ write ∈ (state.calls who).writes, KeepsOthers state.rows write

instance {ι : Type} (state : State ι) : ∀ label, Decidable (WritesKeepOthers state label)
  | .call .. => isTrue trivial
  | .step who => inferInstanceAs (Decidable (∀ write ∈ (state.calls who).writes, _))

/-! ### What a step does -/

/-- A record that was read is read under its own name. -/
def Call.Named : Call → Prop
  | .loaded name _ bucket | .writing name _ bucket => bucket.name = name
  | _ => True

/-- A step reads, asks the ledger or gives up, or it writes and returns. -/
theorem advance_cases {engine next : StorageEngine} {call after : Call}
    (h : advance engine call = some (next, after)) (hnamed : call.Named) :
    after.Named ∧ call.acknowledged = none ∧
      ((next.metadata = engine.metadata ∧ after.acknowledged = none) ∨
        ∃ name setting bucket, call = .writing name setting bucket ∧
          updateBucket engine.metadata (setting.change bucket) = .ok next.metadata ∧
          after = .returned name setting (.ok ())) := by
  cases call with
  | idle => cases h
  | returned name setting result => cases h
  | entered name setting =>
      rw [advance] at h
      split at h
      · obtain ⟨rfl, rfl⟩ := Prod.mk.inj (Option.some.inj h)
        exact ⟨trivial, rfl, Or.inl ⟨rfl, rfl⟩⟩
      · obtain ⟨rfl, rfl⟩ := Prod.mk.inj (Option.some.inj h)
        exact ⟨trivial, rfl, Or.inl ⟨rfl, rfl⟩⟩
      · rename_i bucket hload
        obtain ⟨rfl, rfl⟩ := Prod.mk.inj (Option.some.inj h)
        exact ⟨StorageEngine.name_of_loadBucket hload, rfl, Or.inl ⟨rfl, rfl⟩⟩
  | loaded name setting bucket =>
      cases setting with
      | quota quotaBytes =>
          rw [advance] at h
          split at h
          · obtain ⟨rfl, rfl⟩ := Prod.mk.inj (Option.some.inj h)
            exact ⟨trivial, rfl, Or.inl ⟨rfl, rfl⟩⟩
          · obtain ⟨rfl, rfl⟩ := Prod.mk.inj (Option.some.inj h)
            exact ⟨hnamed, rfl, Or.inl ⟨rfl, rfl⟩⟩
      | _ =>
          obtain ⟨rfl, rfl⟩ := Prod.mk.inj (Option.some.inj h)
          exact ⟨hnamed, rfl, Or.inl ⟨rfl, rfl⟩⟩
  | writing name setting bucket =>
      rw [advance] at h
      split at h
      · rename_i metadata hupdate
        obtain ⟨rfl, rfl⟩ := Prod.mk.inj (Option.some.inj h)
        exact ⟨trivial, rfl, Or.inr ⟨name, setting, bucket, rfl, hupdate, rfl⟩⟩
      · split at h
        · obtain ⟨rfl, rfl⟩ := Prod.mk.inj (Option.some.inj h)
          exact ⟨trivial, rfl, Or.inl ⟨rfl, rfl⟩⟩
        · obtain ⟨rfl, rfl⟩ := Prod.mk.inj (Option.some.inj h)
          exact ⟨trivial, rfl, Or.inl ⟨rfl, rfl⟩⟩
  | undoing name setting bucket error =>
      rw [advance] at h
      split at h
      · obtain ⟨rfl, rfl⟩ := Prod.mk.inj (Option.some.inj h)
        exact ⟨trivial, rfl, Or.inl ⟨rfl, rfl⟩⟩
      · obtain ⟨rfl, rfl⟩ := Prod.mk.inj (Option.some.inj h)
        exact ⟨trivial, rfl, Or.inl ⟨rfl, rfl⟩⟩

section Writes

variable {rows : Rows} {store next : MetadataStore} {name : Bytes} {setting : Setting}
  {bucket current : BucketRecord}

/-- A write that keeps the others' fields is the setter's own, run on the records
that are there. -/
theorem rewrite_of_keepsOthers (hnamed : bucket.name = name)
    (hupdate : updateBucket store (setting.change bucket) = .ok next)
    (hkeeps : KeepsOthers store.rows (name, setting, bucket)) :
    setting.rewrite store.rows name = .ok next.rows := by
  have hname : (setting.change bucket).name = name := (setting.name_change bucket).trans hnamed
  have hrows := StorageEngine.updateBucket_ok hupdate
  rw [updateBucket, hname] at hupdate
  obtain ⟨found, hload, hupdate⟩ := Except.bind_eq_ok_iff.mp hupdate
  cases found with
  | none => cases hupdate
  | some current =>
      have hsame : setting.change bucket = setting.change current := by
        rwa [KeepsOthers, hload] at hkeeps
      rw [Setting.rewrite, hload, hrows, hname, hsame]
      rfl

theorem same_change {field : Field} (hfield : field ∉ setting.sets) :
    field.Same (setting.change current) current := by
  cases setting <;> cases field <;> first | rfl | simp [Setting.sets] at hfield

theorem same_reread (field : Field) (record : BucketRecord) :
    field.Same { record with cors := record.cors.map CorsRule.reread } record := by
  cases field with
  | cors =>
      show (record.cors.map CorsRule.reread).map CorsRule.reread = record.cors.map CorsRule.reread
      ext1
      simp
  | _ => rfl

theorem Field.Same.trans {field : Field} {first second third : BucketRecord}
    (h : field.Same first second) (hnext : field.Same second third) : field.Same first third := by
  cases field <;> exact Eq.trans h hnext

theorem Field.same_self (field : Field) (record : BucketRecord) : field.Same record record := by
  cases field <;> rfl

/-- What reads back after a setter ran agrees with what was there in every field the
setter does not set. -/
theorem same_of_rewrite {before after : BucketRecord} {field : Field} {other : Bytes}
    (hrewrite : setting.rewrite rows name = .ok next.rows)
    (hbefore : loadBucket rows other = .ok (some before))
    (hafter : loadBucket next.rows other = .ok (some after))
    (hfield : other = name → field ∉ setting.sets) : field.Same after before := by
  rw [Setting.rewrite] at hrewrite
  obtain ⟨found, hload, hrewrite⟩ := Except.bind_eq_ok_iff.mp hrewrite
  cases found with
  | none => cases hrewrite
  | some current =>
      have hrows := Except.pure_eq_ok_iff.mp hrewrite
      have hfind : next.rows.find? (Keys.bucket other) =
          if Keys.bucket other = Keys.bucket name then some (encodeBucket (setting.change current))
          else rows.find? (Keys.bucket other) := by
        rw [← hrows]
        exact Rows.find?_apply rows (.put (Keys.bucket name) _) (Keys.bucket other)
      by_cases hother : other = name
      · subst hother
        obtain rfl := Option.some.inj (Except.ok.inj (hload.symm.trans hbefore))
        obtain ⟨stored, hstored, hdecode⟩ := decode_of_readRow hafter
        rw [hfind, if_pos rfl] at hstored
        obtain rfl := Option.some.inj hstored
        have hname : (setting.change current).name = other :=
          (setting.name_change current).trans (StorageEngine.name_of_loadBucket hload)
        rw [← hname] at hdecode
        rw [eq_of_decodeBucket_encodeBucket hdecode]
        exact (same_reread field _).trans (same_change (hfield rfl))
      · rw [if_neg fun h : Keys.bucket other = Keys.bucket name => hother (List.cons.inj h).2] at hfind
        have hsame : loadBucket next.rows other = loadBucket rows other := readRow_congr hfind
        rw [hsame, hbefore] at hafter
        obtain rfl := Option.some.inj (Except.ok.inj hafter)
        exact field.same_self before

end Writes

/-! ### Every run -/

section Runs

variable {ι : Type} [DecidableEq ι] {rows : Rows} {state next : State ι}

structure Kept (rows : Rows) (state : State ι) : Prop where
  named : ∀ who, (state.calls who).Named
  linearized : Linearized rows state

omit [DecidableEq ι] in
/-- Calls that are acknowledged for what they were leave the records linearized. -/
theorem Linearized.congr (h : Linearized rows state) (hrows : next.rows = state.rows)
    (hcalls : ∀ who, (next.calls who).acknowledged = (state.calls who).acknowledged) :
    Linearized rows next := by
  obtain ⟨order, hnodup, hmem, hturn⟩ := h
  refine ⟨order, hnodup, fun who => ?_, ?_⟩
  · rw [hcalls, hmem]
  · simp only [hcalls, hrows, hturn]

theorem acknowledged_move {who : ι} {engine : StorageEngine} {call : Call}
    (hsame : call.acknowledged = (state.calls who).acknowledged) (other : ι) :
    ((state.move who engine call).calls other).acknowledged = (state.calls other).acknowledged := by
  by_cases hother : other = who
  · rw [hother, Pool.move_calls_self, hsame]
  · rw [state.move_calls_of_ne engine call hother]

/-- The write of a setter comes last in the order. -/
theorem Linearized.write (h : Linearized rows state) {who : ι} {engine : StorageEngine}
    {name : Bytes} {setting : Setting} (hfree : (state.calls who).acknowledged = none)
    (hrewrite : setting.rewrite state.rows name = .ok engine.metadata.rows) :
    Linearized rows (state.move who engine (.returned name setting (.ok ()))) := by
  obtain ⟨order, hnodup, hmem, hturn⟩ := h
  have hnew : who ∉ order := fun hwho => by
    have hsome := (hmem who).mp hwho
    rw [hfree] at hsome
    cases hsome
  have hothers : ∀ other ∈ order,
      ((state.move who engine (.returned name setting (.ok ()))).calls other).acknowledged =
        (state.calls other).acknowledged := by
    intro other hother
    rw [state.move_calls_of_ne]
    rintro rfl
    exact hnew hother
  refine ⟨order ++ [who], ?_, fun other => ?_, ?_⟩
  · exact List.nodup_append.mpr ⟨hnodup, List.nodup_singleton who, fun first hfirst last hlast hsame =>
      hnew (by rwa [← List.mem_singleton.mp hlast, ← hsame])⟩
  · by_cases hother : other = who
    · rw [hother, Pool.move_calls_self]
      exact iff_of_true (List.mem_append_right _ (List.mem_singleton_self who)) rfl
    · rw [state.move_calls_of_ne _ _ hother, ← hmem, List.mem_append, List.mem_singleton]
      exact or_iff_left hother
  · rw [List.filterMap_append, List.filterMap_congr hothers, inTurn, List.foldlM_append]
    have hlast : [who].filterMap (fun other =>
        ((state.move who engine (.returned name setting (.ok ()))).calls other).acknowledged) =
        [(name, setting)] := by
      rw [List.filterMap_cons, Pool.move_calls_self]
      rfl
    rw [hlast]
    refine Except.bind_eq_ok_iff.mpr ⟨state.rows, hturn, ?_⟩
    exact Except.bind_eq_ok_iff.mpr ⟨_, hrewrite, rfl⟩

theorem Kept.step (h : Kept rows state) {label : Label ι} (hkeeps : WritesKeepOthers state label)
    (hstep : step state label = some next) : Kept rows next := by
  cases label with
  | call who name setting =>
      rw [BucketSettings.step] at hstep
      split at hstep
      · rename_i hidle
        obtain rfl := Option.some.inj hstep
        refine ⟨(Pool.forall_move (P := fun _ call => Call.Named call) ..).mpr
          ⟨trivial, fun other _ => h.named other⟩, h.linearized.congr rfl ?_⟩
        exact acknowledged_move (by rw [hidle]; rfl)
      · cases hstep
  | step who =>
      obtain ⟨⟨engine, call⟩, hadvance, rfl⟩ := Option.map_eq_some_iff.mp hstep
      obtain ⟨hnamed, hfree, hcases⟩ := advance_cases hadvance (h.named who)
      refine ⟨(Pool.forall_move (P := fun _ call => Call.Named call) ..).mpr
        ⟨hnamed, fun other _ => h.named other⟩, ?_⟩
      rcases hcases with ⟨hmetadata, hnone⟩ | ⟨name, setting, bucket, hcall, hupdate, rfl⟩
      · exact h.linearized.congr (congrArg MetadataStore.rows hmetadata)
          (acknowledged_move (hnone.trans hfree.symm))
      · have hwho := h.named who
        rw [hcall] at hwho
        refine h.linearized.write hfree (rewrite_of_keepsOthers hwho hupdate ?_)
        exact hkeeps _ (by rw [hcall]; rfl)

theorem setsItsOwn_of_keepsOthers (h : Kept rows state) {label : Label ι}
    (hkeeps : WritesKeepOthers state label) : SetsItsOwn state label := by
  cases label with
  | call who name setting => trivial
  | step who =>
      intro next hstep other before after hbefore hafter field hdiffers
      obtain ⟨⟨engine, call⟩, hadvance, rfl⟩ := Option.map_eq_some_iff.mp hstep
      obtain ⟨-, -, hcases⟩ := advance_cases hadvance (h.named who)
      rcases hcases with ⟨hmetadata, -⟩ | ⟨name, setting, bucket, hcall, hupdate, rfl⟩
      · have hrows : engine.metadata.rows = state.rows := congrArg MetadataStore.rows hmetadata
        have hafter : loadBucket engine.metadata.rows other = .ok (some after) := hafter
        rw [hrows, hbefore] at hafter
        obtain rfl := Option.some.inj (Except.ok.inj hafter)
        exact absurd (field.same_self before) hdiffers
      · have hwho := h.named who
        rw [hcall] at hwho
        have hrewrite := rewrite_of_keepsOthers hwho hupdate (hkeeps _ (by rw [hcall]; rfl))
        by_contra hnone
        refine hdiffers (same_of_rewrite hrewrite hbefore hafter ?_)
        rintro rfl hfield
        exact hnone ⟨setting, by rw [Pool.move_calls_self]; rfl, hfield⟩

/-- As long as what each setter writes of the record it read is what it would write
of the record that is there, the acknowledged setters leave the records they leave
in some order, and no write changes a field its setter does not set. -/
theorem linearized_of_writesKeepOthers {engine : StorageEngine} {final : State ι}
    {labels : List (Label ι)}
    (hkeeps : Trace.Every step WritesKeepOthers (starting engine) labels)
    (hrun : Trace.run step (starting engine) labels = some final) :
    Linearized engine.metadata.rows final ∧
      Trace.Every step SetsItsOwn (starting engine) labels := by
  have hstart : Kept engine.metadata.rows (starting engine : State ι) :=
    ⟨fun _ => trivial, [], List.nodup_nil, fun _ => iff_of_false nofun nofun, rfl⟩
  have hkept : ∀ {before after : State ι} {label : Label ι}, Kept engine.metadata.rows before →
      WritesKeepOthers before label → step before label = some after →
      Kept engine.metadata.rows after :=
    fun h hwrites hstep => h.step hwrites hstep
  exact ⟨(hkeeps.run_invariant hkept hstart hrun).linearized,
    hkeeps.imp hkept (fun h hwrites => setsItsOwn_of_keepsOthers h hwrites) hstart⟩

end Runs

/-! ### Fixed runs -/

section Fixed

def published : BucketRecord := { name := ascii "photos", publicRead := true }

def withPublished : StorageEngine where
  metadata := { rows := Rows.write .empty [.put (Keys.bucket published.name) (encodeBucket published)] }

def after (labels : List (Label Bool)) : State Bool :=
  (Trace.run step (starting withPublished) labels).getD (starting withPublished)

/-- One call makes the bucket private, the other one sets its durability. -/
def bothCalled : List (Label Bool) :=
  [.call false (ascii "photos") (.publicRead false),
    .call true (ascii "photos") (.durability (some .strict))]

def wholly (who : Bool) : List (Label Bool) := [.step who, .step who, .step who]

theorem linearized_of_writesKeepOthers_inTurn :
    Linearized withPublished.metadata.rows (after (bothCalled ++ wholly false ++ wholly true)) := by
  have hruns : (Trace.run step (starting withPublished)
      (bothCalled ++ wholly false ++ wholly true)).isSome := by decide +kernel
  obtain ⟨final, hfinal⟩ := Option.isSome_iff_exists.mp hruns
  have hafter : after (bothCalled ++ wholly false ++ wholly true) = final := by
    rw [after, hfinal]
    rfl
  rw [hafter]
  exact (linearized_of_writesKeepOthers (by decide +kernel) hfinal).1

/-- The second call reads before the first one's write and writes after it. -/
def overlapping : List (Label Bool) :=
  bothCalled ++ [.step true] ++ wholly false ++ [.step true, .step true]

/-- Both calls are acknowledged, and the bucket that was made private is public
again, as no order of the two leaves it. -/
theorem private_taken_back :
    (Trace.run step (starting withPublished) overlapping).isSome ∧
      (∀ who, ((after overlapping).calls who).acknowledged.isSome) ∧
      loadBucket (after overlapping).rows (ascii "photos") =
        .ok (some { published with durability := some .strict }) ∧
      ¬ Linearized withPublished.metadata.rows (after overlapping) := by
  refine ⟨by decide +kernel, by decide +kernel, by decide +kernel, ?_⟩
  rintro ⟨order, hnodup, hmem, hturn⟩
  have hboth : ∀ who, who ∈ order ↔ who ∈ [false, true] := fun who =>
    (hmem who).trans (iff_of_true (by revert who; decide +kernel) (by cases who <;> decide))
  have hperm : order ∈ [false, true].permutations' :=
    List.mem_permutations'.mpr ((List.perm_ext_iff_of_nodup hnodup (by decide)).mpr hboth)
  have hnone : ∀ order ∈ [false, true].permutations',
      inTurn withPublished.metadata.rows
        (order.filterMap fun who => ((after overlapping).calls who).acknowledged) ≠
          .ok (after overlapping).rows := by decide +kernel
  exact hnone order hperm hturn

end Fixed

end MonoBucket.BucketSettings

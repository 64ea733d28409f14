/-
Changing an allocation

`setBucketQuota` asks the ledger, writes the bucket's record and, when the record
cannot be written, asks the ledger for the old allocation back. The ledger may
refuse that as it may refuse any allocation: the bucket may hold more by then, and
the instance may be over its capacity. The ledger then keeps the new allocation,
the record the old one, and the caller gets the refusal in place of the failure.

Here each bucket has one change at a time, beside the changes of other buckets and
the claims of writers, and RocksDB may fail at any write.
-/

import MonoBucket.Storage.BlobRows
import MonoBucket.Storage.BucketSettings

namespace MonoBucket

open Codec

/-! ### What the ledger accepts -/

namespace QuotaLedger

variable {ledger : QuotaLedger} {bucket other : Bytes} {quotaBytes : UInt64}

/-- An allocation `setQuota` lets through: no limit, or one that covers what is
charged and fits the capacity beside the others. -/
def Accepts (ledger : QuotaLedger) (bucket : Bytes) (quotaBytes : UInt64) : Prop :=
  quotaBytes = 0 ∨
    (ledger.entryFor bucket).chargedBytes ≤ quotaBytes ∧
      (ledger.allocatableBytes = 0 ∨
        ledger.allocatedLocked bucket + quotaBytes ≤ ledger.allocatableBytes)

instance : Decidable (ledger.Accepts bucket quotaBytes) := by
  unfold Accepts
  infer_instance

/-- The others' sum does not depend on the bucket's own entry. -/
theorem allocatedLocked_setEntry (ledger : QuotaLedger) (bucket : Bytes) (entry : QuotaEntry) :
    (ledger.setEntry bucket entry).allocatedLocked bucket = ledger.allocatedLocked bucket := by
  have hsum : ∀ ledger : QuotaLedger, ledger.allocatedLocked bucket =
      (ledger.buckets.entries.filter fun entry => decide (entry.1 ≠ bucket)).foldl
        (fun total entry => total + entry.2.quotaBytes) 0 := by
    intro ledger
    rw [allocatedLocked, List.foldl_filter]
    congr 1
    funext total entry
    by_cases hname : entry.1 = bucket <;> simp [hname]
  rw [hsum, hsum]
  congr 1
  refine OrderedMap.filter_entries_congr (fun name => decide (name ≠ bucket)) fun name hname => ?_
  exact OrderedMap.find?_insert_of_ne _ _ (of_decide_eq_true hname)

/-- An answer of the ledger about an allocation. -/
def Refusal (error : StoreError) : Prop :=
  ∃ what, error = .storage .quotaBelowUsage what ∨ error = .storage .insufficientCapacity what

theorem setEntry_setEntry (ledger : QuotaLedger) (bucket : Bytes) (first second : QuotaEntry) :
    (ledger.setEntry bucket first).setEntry bucket second = ledger.setEntry bucket second := by
  have hbuckets : (ledger.buckets.insert bucket first).insert bucket second =
      ledger.buckets.insert bucket second := by
    apply OrderedMap.ext_find?
    intro name
    by_cases hname : name = bucket
    · subst hname
      simp
    · simp [OrderedMap.find?_insert_of_ne _ _ hname]
  simp [setEntry, hbuckets]

/-- An allocation is set if it is accepted; a refusal changes no allocation. -/
theorem setQuota_cases (ledger : QuotaLedger) (bucket : Bytes) (quotaBytes : UInt64) :
    (ledger.Accepts bucket quotaBytes ∧ ledger.setQuota bucket quotaBytes =
        (ledger.setEntry bucket { ledger.entryFor bucket with quotaBytes := quotaBytes }, .ok ())) ∨
      (¬ ledger.Accepts bucket quotaBytes ∧ ∃ error, Refusal error ∧
        ledger.setQuota bucket quotaBytes =
          (ledger.setEntry bucket (ledger.entryFor bucket), .error error)) := by
  simp only [setQuota, allocatedLocked_setEntry, allocatableBytes_setEntry, setEntry_setEntry]
  split_ifs with hbelow hover
  · refine Or.inr ⟨?_, _, ⟨_, Or.inl rfl⟩, rfl⟩
    rintro (hzero | ⟨hcovers, -⟩)
    · exact hbelow.1 hzero
    · exact UInt64.not_le.mpr hbelow.2 hcovers
  · refine Or.inr ⟨?_, _, ⟨_, Or.inr rfl⟩, rfl⟩
    rintro (hzero | ⟨-, hlimit | hfits⟩)
    · exact hover.2.1 hzero
    · exact hover.1 hlimit
    · exact UInt64.not_le.mpr hover.2.2 hfits
  · refine Or.inl ⟨?_, rfl⟩
    by_cases hzero : quotaBytes = 0
    · exact Or.inl hzero
    · refine Or.inr ⟨UInt64.not_lt.mp fun hlt => hbelow ⟨hzero, hlt⟩, ?_⟩
      by_cases hlimit : ledger.allocatableBytes = 0
      · exact Or.inl hlimit
      · exact Or.inr (UInt64.not_lt.mp fun hlt => hover ⟨hlimit, hzero, hlt⟩)

/-- Setting one allocation leaves the others. -/
theorem quotaBytes_setQuota_of_ne (ledger : QuotaLedger) (quotaBytes : UInt64) (hne : other ≠ bucket) :
    ((ledger.setQuota bucket quotaBytes).1.entryFor other).quotaBytes =
      (ledger.entryFor other).quotaBytes := by
  rcases setQuota_cases ledger bucket quotaBytes with ⟨-, hset⟩ | ⟨-, error, -, hset⟩ <;>
    rw [hset, entryFor_setEntry_of_ne _ _ hne]

end QuotaLedger

namespace QuotaChange

open BucketSettings (Call Setting advance)

/-! ### Writers -/

/-- What writers do to the ledger. -/
inductive Charge
  | extend (reservation : Reservation) (bucket : Bytes) (bytes : UInt64)
  | release (reservation : Reservation)
  | recordObject (bucket : Bytes) (reservation : Reservation) (storedBytes replacedBytes : UInt64)
  | recordPart (bucket : Bytes) (reservation : Reservation) (storedBytes replacedBytes : UInt64)
  | recordDeletion (bucket : Bytes) (releasedBytes : UInt64)
  | recordUploadAborted (bucket : Bytes) (releasedPartBytes : UInt64)
  | recordUploadCompleted (bucket : Bytes) (storedBytes replacedBytes releasedPartBytes : UInt64)

/-- A claim that is refused changes nothing. -/
def Charge.apply (ledger : QuotaLedger) : Charge → QuotaLedger
  | extend reservation bucket bytes =>
    match ledger.extend reservation bucket bytes with
    | .ok (ledger, _) => ledger
    | .error _ => ledger
  | release reservation => ledger.release reservation
  | recordObject bucket reservation storedBytes replacedBytes =>
    ledger.recordObject bucket reservation storedBytes replacedBytes
  | recordPart bucket reservation storedBytes replacedBytes =>
    ledger.recordPart bucket reservation storedBytes replacedBytes
  | recordDeletion bucket releasedBytes => ledger.recordDeletion bucket releasedBytes
  | recordUploadAborted bucket releasedPartBytes =>
    ledger.recordUploadAborted bucket releasedPartBytes
  | recordUploadCompleted bucket storedBytes replacedBytes releasedPartBytes =>
    ledger.recordUploadCompleted bucket storedBytes replacedBytes releasedPartBytes

/-- An entry rewritten with the allocation it had. -/
theorem quotaBytes_setEntry {ledger : QuotaLedger} {bucket other : Bytes} {entry : QuotaEntry}
    (h : entry.quotaBytes = (ledger.entryFor bucket).quotaBytes) :
    ((ledger.setEntry bucket entry).entryFor other).quotaBytes =
      (ledger.entryFor other).quotaBytes := by
  by_cases hname : other = bucket
  · subst hname
    rw [QuotaLedger.entryFor_setEntry_self, h]
  · rw [QuotaLedger.entryFor_setEntry_of_ne _ _ hname]

/-- No writer changes an allocation. -/
theorem Charge.quotaBytes_apply (ledger : QuotaLedger) (charge : Charge) (other : Bytes) :
    ((charge.apply ledger).entryFor other).quotaBytes = (ledger.entryFor other).quotaBytes := by
  cases charge with
  | extend reservation bucket bytes =>
      rw [apply]
      split
      · rename_i next raised hextend
        obtain ⟨-, ⟨-, rfl, -⟩ | ⟨-, -, -, rfl⟩⟩ := QuotaLedger.extend_ok hextend
        · rfl
        · exact quotaBytes_setEntry rfl
      · rfl
  | release reservation =>
      by_cases hheld : reservation.held → other ≠ reservation.bucket
      · rw [apply, ledger.entryFor_release_of_ne hheld]
      · obtain ⟨hheld, hname⟩ := Classical.not_imp.mp hheld
        rw [apply, ledger.entryFor_release_self fun _ => (not_not.mp hname).symm]
  | recordObject bucket reservation storedBytes replacedBytes =>
      exact quotaBytes_setEntry (QuotaLedger.quotaBytes_consumeLocked _ _)
  | recordPart bucket reservation storedBytes replacedBytes =>
      exact quotaBytes_setEntry (QuotaLedger.quotaBytes_consumeLocked _ _)
  | recordDeletion bucket releasedBytes =>
      rw [apply, QuotaLedger.recordDeletion]
      split_ifs
      · rfl
      · exact quotaBytes_setEntry rfl
  | recordUploadAborted bucket releasedPartBytes =>
      rw [apply, QuotaLedger.recordUploadAborted]
      split_ifs
      · rfl
      · exact quotaBytes_setEntry rfl
  | recordUploadCompleted bucket storedBytes replacedBytes releasedPartBytes =>
      exact quotaBytes_setEntry rfl

/-! ### Runs -/

/-- The engine, the change each bucket is in, and what the write of its record last
threw. -/
structure State where
  engine : StorageEngine
  calls : Bytes → Call := fun _ => .idle
  raised : Bytes → Option StoreError := fun _ => none

inductive Label
  | request (name : Bytes) (quotaBytes : UInt64)
  | advance (name : Bytes)
  /-- RocksDB fails where the change reads or writes the record. -/
  | refuse (name what : Bytes)
  | charge (charge : Charge)

namespace State

def move (state : State) (name : Bytes) (engine : StorageEngine) (call : Call)
    (raised : Option StoreError) : State where
  engine := engine
  calls := Function.update state.calls name call
  raised := Function.update state.raised name raised

end State

/-- What the write of the record has thrown after a step. -/
def raisedBy (before : Option StoreError) : Call → Option StoreError
  | .undoing _ _ _ error => some error
  | _ => before

def step (state : State) : Label → Option State
  | .request name quotaBytes =>
    match state.calls name with
    | .idle | .returned .. =>
      some (state.move name state.engine (.entered name (.quota quotaBytes)) none)
    | _ => none
  | .advance name =>
    (advance state.engine (state.calls name)).map fun (engine, next) =>
      state.move name engine next (raisedBy (state.raised name) next)
  | .refuse name what =>
    match state.calls name with
    | .entered other setting =>
      some (state.move name state.engine (.returned other setting (fail .io what))
        (state.raised name))
    | .writing other setting bucket =>
      some (state.move name state.engine
        (.undoing other setting bucket (.storage .io what)) (some (.storage .io what)))
    | _ => none
  | .charge charge =>
    some { state with engine := { state.engine with quotas := charge.apply state.engine.quotas } }

def start (engine : StorageEngine) : State where
  engine := engine

/-- The ledger enforces what the record says. -/
def Agree (engine : StorageEngine) (name : Bytes) : Prop :=
  ∀ bucket, loadBucket engine.metadata.rows name = .ok (some bucket) →
    (engine.quotas.entryFor name).quotaBytes = bucket.quotaBytes

/-- After a change the two agree, and what the write of the record threw is what the
caller gets. -/
def Sound (state : State) : Prop :=
  ∀ name other setting answer, state.calls name = .returned other setting answer →
    Agree state.engine name ∧ ∀ error, state.raised name = some error → answer = .error error

/-- The record whose allocation a call is about to put back. -/
def undoes : Call → Option BucketRecord
  | .undoing _ _ bucket _ => some bucket
  | _ => none

/-- An allocation that is to be put back would be accepted as a new one. -/
def Restorable (state : State) : Label → Prop
  | .advance name =>
    ∀ bucket ∈ undoes (state.calls name), state.engine.quotas.Accepts name bucket.quotaBytes
  | _ => True

instance (state : State) (label : Label) : Decidable (Restorable state label) := by
  unfold Restorable
  cases label <;> infer_instance

/-! ### One change -/

/-- What is known of a bucket's change where it is. -/
def Fits (engine : StorageEngine) (name : Bytes) (raised : Option StoreError) : Call → Prop
  | .idle => Agree engine name
  | .entered other setting =>
    other = name ∧ (∃ quotaBytes, setting = .quota quotaBytes) ∧ raised = none ∧ Agree engine name
  | .loaded other setting bucket =>
    other = name ∧ (∃ quotaBytes, setting = .quota quotaBytes) ∧ raised = none ∧
      loadBucket engine.metadata.rows name = .ok (some bucket) ∧
      (engine.quotas.entryFor name).quotaBytes = bucket.quotaBytes
  | .writing other setting bucket =>
    other = name ∧ setting = .quota (engine.quotas.entryFor name).quotaBytes ∧ raised = none ∧
      loadBucket engine.metadata.rows name = .ok (some bucket)
  | .undoing other setting bucket error =>
    other = name ∧ (∃ quotaBytes, setting = .quota quotaBytes) ∧ raised = some error ∧
      ¬ QuotaLedger.Refusal error ∧ loadBucket engine.metadata.rows name = .ok (some bucket)
  | .returned _ _ answer =>
    Agree engine name ∧ ∀ error, raised = some error → answer = .error error

section Change

variable {engine next : StorageEngine} {name : Bytes} {raised : Option StoreError} {call after : Call}

/-- Only the bucket's record and its allocation matter. -/
theorem Fits.congr (h : Fits engine name raised call)
    (hload : loadBucket next.metadata.rows name = loadBucket engine.metadata.rows name)
    (hquota : (next.quotas.entryFor name).quotaBytes = (engine.quotas.entryFor name).quotaBytes) :
    Fits next name raised call := by
  cases call <;> simpa only [Fits, Agree, hload, hquota] using h

theorem Fits.agree_of_quota {bucket : BucketRecord}
    (hload : loadBucket engine.metadata.rows name = .ok (some bucket))
    (hquota : (engine.quotas.entryFor name).quotaBytes = bucket.quotaBytes) : Agree engine name := by
  intro other hother
  rw [hload] at hother
  obtain rfl := Option.some.inj (Except.ok.inj hother)
  exact hquota

/-- What the store throws is no answer of the ledger. -/
theorem not_refusal_of_updateBucket {store : MetadataStore} {bucket : BucketRecord}
    {error : StoreError} (h : updateBucket store bucket = .error error) :
    ¬ QuotaLedger.Refusal error := by
  rintro ⟨what, hrefusal⟩
  rw [updateBucket, loadBucket, readRow] at h
  split at h
  · rcases hrefusal with rfl | rfl <;> cases h
  · rename_i stored _
    cases hdecode : decodeBucket bucket.name stored with
    | error decodeError =>
        rw [hdecode] at h
        rcases hrefusal with rfl | rfl <;> cases h
    | ok found =>
        rw [hdecode] at h
        cases h

/-- A record written with an allocation is read back with it. -/
theorem quotaBytes_of_write {rows : Rows} {bucket read : BucketRecord} (hname : bucket.name = name)
    (h : loadBucket (rows.write [.put (Keys.bucket bucket.name) (encodeBucket bucket)]) name =
      .ok (some read)) : read.quotaBytes = bucket.quotaBytes := by
  subst hname
  obtain ⟨stored, hfind, hdecode⟩ := decode_of_readRow h
  have hstored : (rows.write [.put (Keys.bucket bucket.name) (encodeBucket bucket)]).find?
      (Keys.bucket bucket.name) = some (encodeBucket bucket) :=
    Rows.find?_write_of_last rows [] (.put (Keys.bucket bucket.name) (encodeBucket bucket)) (by simp)
  obtain rfl := Option.some.inj (hfind.symm.trans hstored)
  rw [eq_of_decodeBucket_encodeBucket hdecode]

/-- A step of the change keeps what is known, unless the ledger refuses the old
allocation. -/
theorem Fits.advance (h : Fits engine name raised call)
    (hrestorable : ∀ other setting bucket error, call = .undoing other setting bucket error →
      engine.quotas.Accepts name bucket.quotaBytes)
    (hstep : BucketSettings.advance engine call = some (next, after)) :
    Fits next name (raisedBy raised after) after := by
  cases call with
  | idle => cases hstep
  | returned other setting answer => cases hstep
  | entered other setting =>
      obtain ⟨rfl, hsetting, hraised, hagree⟩ := h
      rw [BucketSettings.advance] at hstep
      split at hstep
      · obtain ⟨rfl, rfl⟩ := Prod.mk.inj (Option.some.inj hstep)
        exact ⟨hagree, fun error herror => by cases hraised.symm.trans herror⟩
      · obtain ⟨rfl, rfl⟩ := Prod.mk.inj (Option.some.inj hstep)
        exact ⟨hagree, fun error herror => by cases hraised.symm.trans herror⟩
      · rename_i bucket hload
        obtain ⟨rfl, rfl⟩ := Prod.mk.inj (Option.some.inj hstep)
        exact ⟨rfl, hsetting, hraised, hload, hagree bucket hload⟩
  | loaded other setting bucket =>
      obtain ⟨rfl, ⟨quotaBytes, rfl⟩, hraised, hload, hquota⟩ := h
      rw [BucketSettings.advance] at hstep
      rcases engine.quotas.setQuota_cases other quotaBytes with
        ⟨-, hset⟩ | ⟨-, error, -, hset⟩
      · rw [hset] at hstep
        obtain ⟨rfl, rfl⟩ := Prod.mk.inj (Option.some.inj hstep)
        exact ⟨rfl, by simp, hraised, hload⟩
      · rw [hset] at hstep
        obtain ⟨rfl, rfl⟩ := Prod.mk.inj (Option.some.inj hstep)
        exact ⟨Fits.agree_of_quota hload (by simpa using hquota), fun error herror => by
          cases hraised.symm.trans herror⟩
  | writing other setting bucket =>
      obtain ⟨rfl, rfl, hraised, hload⟩ := h
      have hname := StorageEngine.name_of_loadBucket hload
      rw [BucketSettings.advance] at hstep
      split at hstep
      · rename_i metadata hupdate
        obtain ⟨rfl, rfl⟩ := Prod.mk.inj (Option.some.inj hstep)
        refine ⟨fun read hread => ?_, fun error herror => by cases hraised.symm.trans herror⟩
        have hread : loadBucket metadata.rows other = .ok (some read) := hread
        rw [StorageEngine.updateBucket_ok hupdate] at hread
        exact (quotaBytes_of_write ((Setting.name_change _ bucket).trans hname) hread).symm
      · rename_i error hupdate
        obtain ⟨rfl, rfl⟩ := Prod.mk.inj (Option.some.inj hstep)
        exact ⟨rfl, ⟨_, rfl⟩, rfl, not_refusal_of_updateBucket hupdate, hload⟩
  | undoing other setting bucket error =>
      have haccepts := hrestorable other setting bucket error rfl
      obtain ⟨rfl, -, hraised, -, hload⟩ := h
      rw [BucketSettings.advance] at hstep
      rcases engine.quotas.setQuota_cases other bucket.quotaBytes with
        ⟨-, hset⟩ | ⟨hrefused, -⟩
      · rw [hset] at hstep
        obtain ⟨rfl, rfl⟩ := Prod.mk.inj (Option.some.inj hstep)
        exact ⟨Fits.agree_of_quota hload (by simp), fun thrown hthrown => by
          rw [Option.some.inj (hraised.symm.trans hthrown)]⟩
      · exact absurd haccepts hrefused

/-- An allocation that is refused gives the caller another error than the one thrown. -/
theorem Fits.refused {other : Bytes} {setting : Setting} {bucket : BucketRecord} {error : StoreError}
    (h : Fits engine name raised (.undoing other setting bucket error))
    (hrefused : ¬ engine.quotas.Accepts name bucket.quotaBytes) :
    ∃ engine' refusal, BucketSettings.advance engine (.undoing other setting bucket error) =
        some (engine', .returned other setting (.error refusal)) ∧
      raised = some error ∧ refusal ≠ error := by
  obtain ⟨rfl, -, hraised, hstored, -⟩ := h
  rcases engine.quotas.setQuota_cases other bucket.quotaBytes with
    ⟨haccepts, -⟩ | ⟨-, refusal, hrefusal, hset⟩
  · exact absurd haccepts hrefused
  · refine ⟨_, refusal, by rw [BucketSettings.advance, hset], hraised, ?_⟩
    rintro rfl
    exact hstored hrefusal

/-- A change of one bucket leaves the record and the allocation of every other. -/
theorem Fits.frame {other : Bytes} {otherRaised : Option StoreError} {otherCall : Call}
    (h : Fits engine name raised call) (hother : Fits engine other otherRaised otherCall)
    (hne : other ≠ name) (hstep : BucketSettings.advance engine call = some (next, after)) :
    Fits next other otherRaised otherCall := by
  cases call with
  | idle => cases hstep
  | returned _ _ _ => cases hstep
  | entered target setting =>
      rw [BucketSettings.advance] at hstep
      split at hstep <;>
        (obtain ⟨rfl, rfl⟩ := Prod.mk.inj (Option.some.inj hstep); exact hother)
  | loaded target setting bucket =>
      obtain ⟨rfl, ⟨quotaBytes, rfl⟩, -, -, -⟩ := h
      rw [BucketSettings.advance] at hstep
      have hquota := engine.quotas.quotaBytes_setQuota_of_ne quotaBytes hne
      split at hstep <;> rename_i quotas hset <;>
        obtain ⟨rfl, rfl⟩ := Prod.mk.inj (Option.some.inj hstep) <;>
        exact hother.congr rfl (by rw [← hquota, hset])
  | writing target setting bucket =>
      obtain ⟨rfl, rfl, -, hload⟩ := h
      rw [BucketSettings.advance] at hstep
      split at hstep
      · rename_i metadata hupdate
        obtain ⟨rfl, rfl⟩ := Prod.mk.inj (Option.some.inj hstep)
        refine hother.congr (readRow_congr ?_) rfl
        rw [StorageEngine.updateBucket_ok hupdate]
        refine Rows.find?_write_of_forall_ne _ fun op hop hkey => ?_
        obtain rfl := List.mem_singleton.mp hop
        have hname := StorageEngine.name_of_loadBucket hload
        exact hne ((List.cons.inj hkey).2.symm.trans ((Setting.name_change _ bucket).trans hname))
      · obtain ⟨rfl, rfl⟩ := Prod.mk.inj (Option.some.inj hstep)
        exact hother
  | undoing target setting bucket error =>
      obtain ⟨rfl, -, -, -, -⟩ := h
      rw [BucketSettings.advance] at hstep
      have hquota := engine.quotas.quotaBytes_setQuota_of_ne bucket.quotaBytes hne
      split at hstep <;> rename_i quotas hset <;>
        obtain ⟨rfl, rfl⟩ := Prod.mk.inj (Option.some.inj hstep) <;>
        exact hother.congr rfl (by rw [← hquota, hset])

end Change

/-! ### Every run -/

/-- Every change is where it is with what it knows. -/
def Kept (state : State) : Prop :=
  ∀ name, Fits state.engine name (state.raised name) (state.calls name)

section Runs

variable {state next : State} {label : Label}

theorem Kept.start {engine : StorageEngine} (h : ∀ name, Agree engine name) : Kept (start engine) := h

theorem Kept.sound (h : Kept state) : Sound state := by
  intro name other setting answer hcall
  have hfits := h name
  rw [hcall] at hfits
  exact hfits

/-- One bucket's change moves on, and the others fit the new engine. -/
theorem Kept.move {name : Bytes} {engine : StorageEngine} {call : Call} {raised : Option StoreError}
    (hself : Fits engine name raised call)
    (hothers : ∀ other, other ≠ name → Fits engine other (state.raised other) (state.calls other)) :
    Kept (state.move name engine call raised) := by
  intro other
  by_cases hname : other = name
  · subst hname
    simpa [State.move] using hself
  · simpa [State.move, Function.update_of_ne hname] using hothers other hname

theorem Kept.of_step (h : Kept state) (hrestorable : Restorable state label)
    (hstep : step state label = some next) : Kept next := by
  cases label with
  | request name quotaBytes =>
      have hfits := h name
      rw [step] at hstep
      split at hstep
      · rename_i hcall
        obtain rfl := Option.some.inj hstep
        rw [hcall] at hfits
        exact Kept.move ⟨rfl, ⟨quotaBytes, rfl⟩, rfl, hfits⟩ fun other _ => h other
      · rename_i hcall
        obtain rfl := Option.some.inj hstep
        rw [hcall] at hfits
        exact Kept.move ⟨rfl, ⟨quotaBytes, rfl⟩, rfl, hfits.1⟩ fun other _ => h other
      · cases hstep
  | advance name =>
      obtain ⟨⟨engine, after⟩, hadvance, rfl⟩ := Option.map_eq_some_iff.mp hstep
      refine Kept.move ((h name).advance ?_ hadvance) fun other hne => (h name).frame (h other) hne hadvance
      exact fun other setting bucket error hcall => hrestorable bucket (by rw [hcall]; rfl)
  | refuse name what =>
      have hfits := h name
      rw [step] at hstep
      split at hstep
      · rename_i other setting hcall
        obtain rfl := Option.some.inj hstep
        rw [hcall] at hfits
        obtain ⟨rfl, -, hraised, hagree⟩ := hfits
        exact Kept.move ⟨hagree, fun error herror => by cases hraised.symm.trans herror⟩ fun other _ => h other
      · rename_i other setting bucket hcall
        obtain rfl := Option.some.inj hstep
        rw [hcall] at hfits
        obtain ⟨rfl, hsetting, -, hload⟩ := hfits
        have hio : ¬ QuotaLedger.Refusal (.storage .io what) := by
          rintro ⟨text, hrefusal | hrefusal⟩ <;> cases hrefusal
        exact Kept.move ⟨rfl, ⟨_, hsetting⟩, rfl, hio, hload⟩ fun other _ => h other
      · cases hstep
  | charge charge =>
      obtain rfl := Option.some.inj hstep
      exact fun name => (h name).congr rfl (charge.quotaBytes_apply _ name)

/-- A change that ends soundly was not refused its old allocation. -/
theorem Kept.restorable (h : Kept state)
    (hsound : ∀ next, step state label = some next → Sound next) : Restorable state label := by
  cases label with
  | advance name =>
      intro bucket hundoes
      cases hcall : state.calls name with
      | undoing other setting record error =>
          obtain rfl : record = bucket := by
            rw [hcall] at hundoes
            exact Option.some.inj hundoes
          by_contra hrefused
          have hfits := h name
          rw [hcall] at hfits
          obtain ⟨engine, refusal, hadvance, hraised, hne⟩ := hfits.refused hrefused
          have hstep : step state (.advance name) = some (state.move name engine
              (.returned other setting (.error refusal)) (state.raised name)) := by
            rw [step, hcall, hadvance]
            rfl
          obtain ⟨-, hthrown⟩ := hsound _ hstep name other setting (.error refusal)
            (by simp [State.move])
          exact hne (Except.error.inj (hthrown error (by simpa [State.move] using hraised)))
      | _ =>
          rw [hcall] at hundoes
          cases hundoes
  | request | refuse | charge => trivial

end Runs

/-! ### A start -/

/-- The entry of a seeded bucket has the allocation of one of the records with its name. -/
theorem quotaBytes_of_seeds (charge : Bytes → BucketCharge) (buckets : List BucketRecord)
    (ledger : QuotaLedger) {name : Bytes}
    (h : ∃ bucket ∈ buckets, bucket.name = name) :
    ∃ bucket ∈ buckets, bucket.name = name ∧
      ((buckets.foldl (fun ledger bucket =>
        ledger.seed bucket.name bucket.quotaBytes (charge bucket.name).objectBytes
          (charge bucket.name).partBytes) ledger).entryFor name).quotaBytes = bucket.quotaBytes := by
  have hlast : ∀ (buckets : List BucketRecord) (ledger : QuotaLedger),
      (∀ bucket ∈ buckets, bucket.name ≠ name) →
      (buckets.foldl (fun ledger bucket =>
        ledger.seed bucket.name bucket.quotaBytes (charge bucket.name).objectBytes
          (charge bucket.name).partBytes) ledger).entryFor name = ledger.entryFor name := by
    intro buckets
    induction buckets with
    | nil => exact fun _ _ => rfl
    | cons bucket rest ih =>
        intro ledger hnames
        rw [List.foldl_cons, ih _ fun other hother => hnames other (List.mem_cons_of_mem _ hother)]
        exact ledger.entryFor_setEntry_of_ne _ (hnames bucket List.mem_cons_self).symm
  induction buckets generalizing ledger with
  | nil => simp at h
  | cons bucket rest ih =>
      rw [List.foldl_cons]
      by_cases hrest : ∃ other ∈ rest, other.name = name
      · obtain ⟨other, hother, hname, hquota⟩ := ih _ hrest
        exact ⟨other, List.mem_cons_of_mem _ hother, hname, hquota⟩
      · have hname : bucket.name = name := by
          obtain ⟨other, hother, hname⟩ := h
          rcases List.mem_cons.mp hother with rfl | hmem
          · exact hname
          · exact absurd ⟨other, hmem, hname⟩ hrest
        refine ⟨bucket, List.mem_cons_self, hname, ?_⟩
        rw [hlast rest _ fun other hother hother' => hrest ⟨other, hother, hother'⟩,
          QuotaLedger.seed, hname, QuotaLedger.entryFor_setEntry_self]

/-- A bucket that a read finds is listed, and is the only one of its name. -/
theorem mem_listBuckets_iff {rows : Rows} {buckets : List BucketRecord}
    (h : listBuckets rows = .ok buckets) {bucket : BucketRecord} :
    bucket ∈ buckets ↔ loadBucket rows bucket.name = .ok (some bucket) := by
  constructor
  · intro hbucket
    obtain ⟨row, hrow, hdecode⟩ := readAll_ok h bucket hbucket
    obtain ⟨hentry, rest, hkey⟩ := Rows.mem_scan.mp hrow
    have hread : decodeBucket rest row.2 = .ok bucket := by
      rw [behind, ← hkey] at hdecode
      cases hresult : decodeBucket rest row.2 with
      | error error => simp [hresult, Except.map] at hdecode
      | ok found => simpa [hresult, Except.map] using hdecode
    have hfind : rows.find? (Keys.bucket rest) = some row.2 := by
      rw [OrderedMap.find?_eq_some_iff]
      rw [← Prod.mk.eta (p := row), ← hkey] at hentry
      exact hentry
    rw [name_of_decodeBucket hread, loadBucket, readRow, hfind]
    simp [hread, decoded, Except.map]
  · intro hload
    obtain ⟨stored, hfind, hdecode⟩ := decode_of_readRow hload
    have hrow : (Keys.bucket bucket.name, stored) ∈ rows.scan Keys.bucketPrefix :=
      Rows.mem_scan.mpr ⟨(rows.find?_eq_some_iff).mp hfind, ⟨bucket.name, rfl⟩⟩
    obtain ⟨found, hfound, hmem⟩ := readAll_decodes h hrow
    have hdrop : (Keys.bucket bucket.name).drop Keys.bucketPrefix.length = bucket.name := rfl
    rw [behind, hdrop, hdecode] at hfound
    exact hmem bucket (Except.ok.inj hfound ▸ rfl)

/-- A start seeds the ledger from the records. -/
theorem agree_of_start {options : EngineOptions} {now : TimestampMs} {rows : Rows}
    {engine : StorageEngine} (h : StorageEngine.start options now rows = .ok engine) (name : Bytes) :
    Agree engine name := by
  obtain ⟨⟨opened, charges⟩, -, h⟩ := Except.bind_eq_ok_iff.mp h
  obtain ⟨quotas, hseed, h⟩ := Except.bind_eq_ok_iff.mp h
  obtain ⟨⟨metadata, limit⟩, hlimit, h⟩ := Except.bind_eq_ok_iff.mp h
  obtain rfl := Except.pure_eq_ok_iff.mp h
  obtain ⟨buckets, hlist, hseeds⟩ := Except.bind_eq_ok_iff.mp hseed
  have hsettings : metadata.rows.find? (Keys.bucket name) = opened.rows.find? (Keys.bucket name) := by
    obtain ⟨stored, -, hlimit⟩ := Except.bind_eq_ok_iff.mp hlimit
    dsimp only at hlimit
    split_ifs at hlimit
    · obtain ⟨rfl, -⟩ := Prod.mk.inj (Except.pure_eq_ok_iff.mp hlimit)
      rfl
    · obtain ⟨rfl, -⟩ := Prod.mk.inj (Except.pure_eq_ok_iff.mp hlimit)
      refine Rows.find?_write_of_forall_ne _ fun op hop hkey => ?_
      obtain rfl := List.mem_singleton.mp hop
      exact absurd (congrArg List.head? hkey) (by decide : ¬ some Keys.kMeta = some Keys.kBucket)
  have hrows : loadBucket (StorageEngine.recover ⟨metadata, quotas, limit⟩ now).metadata.rows name =
      loadBucket opened.rows name := by
    refine readRow_congr ?_
    rw [← hsettings, StorageEngine.recover, rows_forgetOrphans]
    refine Rows.find?_write_of_forall_ne _ fun op hop hkey => ?_
    obtain ⟨blobId, -, rfl⟩ := List.mem_map.mp hop
    exact absurd (congrArg List.head? hkey) (by decide : ¬ some Keys.kOrphan = some Keys.kBucket)
  intro bucket hload
  rw [hrows] at hload
  have hname := StorageEngine.name_of_loadBucket hload
  obtain ⟨other, hother, hothername, hquota⟩ := quotaBytes_of_seeds
    (fun name => (charges.find? name).getD {}) buckets
    { allocatableBytes := options.allocatableBytes }
    ⟨bucket, (mem_listBuckets_iff hlist).mpr (hname.symm ▸ hload), hname⟩
  have hsame := (mem_listBuckets_iff hlist).mp hother
  rw [hothername, hload] at hsame
  rw [Option.some.inj (Except.ok.inj hsame), ← hquota, ← Except.pure_eq_ok_iff.mp hseeds]
  rfl

/-- After every change the ledger and the record agree, and a failed write of the record is
what the caller gets, in every state of a run exactly when no old allocation that is put back
is refused. -/
theorem sound_iff_restorable {engine : StorageEngine} (hagree : ∀ name, Agree engine name)
    (labels : List Label) :
    Trace.Every step (fun state label => ∀ next, step state label = some next → Sound next)
        (start engine) labels ↔
      Trace.Every step Restorable (start engine) labels := by
  constructor
  · intro h
    exact h.imp (fun hkept hsound hstep => hkept.of_step (hkept.restorable hsound) hstep)
      (fun hkept hsound => hkept.restorable hsound) (Kept.start hagree)
  · intro h
    exact h.imp Kept.of_step
      (fun hkept hrestorable next hstep => (hkept.of_step hrestorable hstep).sound)
      (Kept.start hagree)

/-! ### A change that cannot be taken back -/

def photos : Bytes := ascii "photos"

/-- A bucket with 90 of its 100 bytes in use. -/
def oneBucket : StorageEngine where
  metadata :=
    { rows := Rows.write .empty
        [.put (Keys.bucket photos) (encodeBucket { name := photos, quotaBytes := 100 })] }
  quotas := { buckets := OrderedMap.empty.insert photos { quotaBytes := 100, usedBytes := 90 } }

theorem agree_oneBucket (name : Bytes) : Agree oneBucket name := by
  intro bucket hload
  obtain ⟨stored, hfind, -⟩ := decode_of_readRow hload
  rcases Rows.mem_entries_write ((OrderedMap.find?_eq_some_iff _).mp hfind) with hold | hput
  · cases hold
  · obtain ⟨hkey, -⟩ := RowOp.put.inj (List.mem_singleton.mp hput)
    obtain rfl : name = photos := (List.cons.inj hkey).2
    have hrecord : { name := photos, quotaBytes := 100 : BucketRecord }.name = photos := rfl
    rw [quotaBytes_of_write hrecord hload]
    decide

/-- RocksDB fails, and the old allocation still covers what the bucket holds. -/
def takenBack : List Label :=
  [.request photos 200, .advance photos, .advance photos,
    .charge (.extend {} photos 5), .refuse photos (ascii "disk full"), .advance photos]

theorem sound_takenBack :
    Trace.Every step (fun state label => ∀ next, step state label = some next → Sound next)
      (start oneBucket) takenBack :=
  (sound_iff_restorable agree_oneBucket takenBack).mpr
    (show Trace.Every step Restorable (start oneBucket) takenBack by decide +kernel)

/-- A writer claims 50 bytes under the new allocation before RocksDB fails: the ledger
refuses the old one, keeps the new one, and the caller gets the refusal. -/
theorem unsound_not_taken_back :
    ∃ final, Trace.run step (start oneBucket)
      [.request photos 200, .advance photos, .advance photos, .charge (.extend {} photos 50),
        .refuse photos (ascii "disk full"), .advance photos] = some final ∧
      ¬ Sound final := by
  refine ⟨_, rfl, fun h => ?_⟩
  obtain ⟨-, hthrown⟩ := h photos _ _ _ rfl
  have hanswer := hthrown (.storage .io (ascii "disk full")) rfl
  exact absurd hanswer (by decide +kernel)

end QuotaChange

end MonoBucket

/-
Allocating the instance's capacity

Bucket creation, quota changes and bucket deletion, each in the steps the engine
performs: the ledger decides, the metadata store writes, the ledger is told.
Nothing holds the ledger between a creation's admission and its `track`, and
`track` does not look at the sum again, so two creations admitted against the
same remaining capacity can both land. The admission adds in 64 bits, so a large
enough request passes it outright.

The sum of the allocations stays within the capacity in every run where neither
happens.
-/

import MonoBucket.Lib.Trace
import MonoBucket.Storage.Quota

namespace MonoBucket.QuotaLedger

/-! ### Sums of allocations -/

def quotaOf (_ : Bytes) (entry : QuotaEntry) : Nat := entry.quotaBytes.toNat

/-- The mathematical sum of every bucket's allocation. -/
def allocated (ledger : QuotaLedger) : Nat := ledger.buckets.total quotaOf

/-- The sum over every other bucket. -/
def allocatedBeside (ledger : QuotaLedger) (bucket : Bytes) : Nat :=
  (ledger.buckets.erase bucket).total quotaOf

theorem allocated_eq (ledger : QuotaLedger) (bucket : Bytes) :
    ledger.allocated = ledger.allocatedBeside bucket + (ledger.entryFor bucket).quotaBytes.toNat := by
  have hsplit := ledger.buckets.total_erase quotaOf bucket
  have hweight : ledger.buckets.weightAt quotaOf bucket =
      (ledger.entryFor bucket).quotaBytes.toNat := by
    rw [OrderedMap.weightAt, entryFor]
    cases ledger.buckets.find? bucket <;> rfl
  rw [allocated, allocatedBeside, ← hsplit, hweight]

theorem allocated_setEntry (ledger : QuotaLedger) (bucket : Bytes) (entry : QuotaEntry) :
    (ledger.setEntry bucket entry).allocated =
      ledger.allocatedBeside bucket + entry.quotaBytes.toNat :=
  ledger.buckets.total_insert_eq quotaOf bucket entry

theorem allocatedBeside_setEntry (ledger : QuotaLedger) (bucket : Bytes) (entry : QuotaEntry) :
    (ledger.setEntry bucket entry).allocatedBeside bucket = ledger.allocatedBeside bucket := by
  have hsplit := (ledger.setEntry bucket entry).allocated_eq bucket
  rw [allocated_setEntry, entryFor_setEntry_self] at hsplit
  omega

/-- The code's sum is the mathematical one modulo 2^64. -/
theorem toNat_allocatedLocked (ledger : QuotaLedger) (except : Bytes) :
    (ledger.allocatedLocked except).toNat = ledger.allocatedBeside except % 2 ^ 64 := by
  have hfold : ∀ (entries : List (Bytes × QuotaEntry)) (total : UInt64),
      (entries.foldl
          (fun total entry => if entry.1 = except then total else total + entry.2.quotaBytes)
          total).toNat =
        (total.toNat + (entries.map fun entry =>
          if entry.1 = except then 0 else quotaOf entry.1 entry.2).sum) % 2 ^ 64 := by
    intro entries
    induction entries with
    | nil =>
        intro total
        exact (Nat.mod_eq_of_lt total.toNat_lt).symm
    | cons entry rest ih =>
        intro total
        rw [List.foldl_cons, ih, List.map_cons, List.sum_cons]
        split_ifs with hexcept
        · simp
        · rw [UInt64.toNat_add, quotaOf]
          omega
  rw [allocatedLocked, hfold, allocatedBeside, OrderedMap.total_erase_eq_total_ite]
  simp only [OrderedMap.total, UInt64.toNat_zero, Nat.zero_add]
  congr!

end MonoBucket.QuotaLedger

namespace MonoBucket.Allocation

open QuotaLedger

/-- The records and the ledger beside them. -/
structure Instance where
  store : MetadataStore
  ledger : QuotaLedger
  deriving DecidableEq

inductive Op
  | createBucket (bucket : BucketRecord)
  | setBucketQuota (name : Bytes) (quotaBytes : UInt64)
  | deleteBucket (name : Bytes)
  deriving DecidableEq

/-- Where a call is. A creation carries the sum its admission compared; a quota
change carries the record it read. -/
inductive Call
  | idle
  | entered (op : Op)
  | admitted (bucket : BucketRecord) (allocated : UInt64)
  | created (bucket : BucketRecord) (allocated : UInt64)
  | loaded (bucket : BucketRecord) (quotaBytes : UInt64)
  | allotted (bucket : BucketRecord) (quotaBytes : UInt64)
  | undoing (bucket : BucketRecord) (error : StoreError)
  | deleted (name : Bytes)
  | returned (result : Except StoreError Unit)

inductive Label (ι : Type)
  | call (who : ι) (op : Op)
  | step (who : ι)
  deriving DecidableEq

/-- One step of a call on the instance. -/
def advance (shared : Instance) : Call → Option (Instance × Call)
  | .entered (.createBucket bucket) =>
    match shared.ledger.admitAllocation bucket.quotaBytes with
    | .ok _ => some (shared, .admitted bucket (shared.ledger.allocatedLocked []))
    | .error error => some (shared, .returned (.error error))
  | .admitted bucket allocated =>
    match createBucket shared.store bucket with
    | .ok store => some ({ shared with store := store }, .created bucket allocated)
    | .error error => some (shared, .returned (.error error))
  | .created bucket _ =>
    some ({ shared with ledger := shared.ledger.track bucket.name bucket.quotaBytes },
      .returned (.ok ()))
  | .entered (.setBucketQuota name quotaBytes) =>
    match loadBucket shared.store.rows name with
    | .ok (some bucket) => some (shared, .loaded bucket quotaBytes)
    | .ok none => some (shared, .returned (noSuchBucket name))
    | .error error => some (shared, .returned (.error error))
  | .loaded bucket quotaBytes =>
    match shared.ledger.setQuota bucket.name quotaBytes with
    | (ledger, .ok _) => some ({ shared with ledger := ledger }, .allotted bucket quotaBytes)
    | (ledger, .error error) => some ({ shared with ledger := ledger }, .returned (.error error))
  | .allotted bucket quotaBytes =>
    match updateBucket shared.store { bucket with quotaBytes := quotaBytes } with
    | .ok store => some ({ shared with store := store }, .returned (.ok ()))
    | .error error => some (shared, .undoing bucket error)
  | .undoing bucket error =>
    match shared.ledger.setQuota bucket.name bucket.quotaBytes with
    | (ledger, .ok _) => some ({ shared with ledger := ledger }, .returned (.error error))
    | (ledger, .error other) => some ({ shared with ledger := ledger }, .returned (.error other))
  | .entered (.deleteBucket name) =>
    match deleteBucket shared.store name with
    | .ok store => some ({ shared with store := store }, .deleted name)
    | .error error => some (shared, .returned (.error error))
  | .deleted name =>
    some ({ shared with ledger := shared.ledger.forget name }, .returned (.ok ()))
  | .idle => none
  | .returned _ => none

variable {ι : Type} [DecidableEq ι]

abbrev State (ι : Type) := Pool ι Instance Call

def step (state : State ι) : Label ι → Option (State ι)
  | .call who op =>
    match state.calls who with
    | .idle => some (state.move who state.shared (.entered op))
    | _ => none
  | .step who =>
    (advance state.shared (state.calls who)).map fun result => state.move who result.1 result.2

/-- A call step that does not defeat the admission: no compared sum wraps, and
when a creation reaches `track` the other buckets hold no more than its
admission counted. -/
def Call.Safe (ledger : QuotaLedger) : Call → Prop
  | entered (.createBucket bucket) =>
    ledger.allocatedBeside [] + bucket.quotaBytes.toNat < 2 ^ 64
  | created bucket allocated =>
    bucket.quotaBytes ≠ 0 → ledger.allocatedBeside bucket.name ≤ allocated.toNat
  | loaded bucket quotaBytes =>
    ledger.allocatedBeside bucket.name + quotaBytes.toNat < 2 ^ 64
  | undoing bucket _ =>
    ledger.allocatedBeside bucket.name + bucket.quotaBytes.toNat < 2 ^ 64
  | _ => True

def Safe (state : State ι) : Label ι → Prop
  | .call _ _ => True
  | .step who => (state.calls who).Safe state.shared.ledger

instance (ledger : QuotaLedger) : ∀ call : Call, Decidable (call.Safe ledger)
  | .entered (.createBucket _) => inferInstanceAs (Decidable (_ < _))
  | .created _ _ => inferInstanceAs (Decidable (_ → _))
  | .loaded _ _ => inferInstanceAs (Decidable (_ < _))
  | .undoing _ _ => inferInstanceAs (Decidable (_ < _))
  | .entered (.setBucketQuota _ _) => isTrue trivial
  | .entered (.deleteBucket _) => isTrue trivial
  | .idle => isTrue trivial
  | .admitted _ _ => isTrue trivial
  | .allotted _ _ => isTrue trivial
  | .deleted _ => isTrue trivial
  | .returned _ => isTrue trivial

instance (state : State ι) : ∀ label, Decidable (Safe state label)
  | .call _ _ => isTrue trivial
  | .step who => inferInstanceAs (Decidable ((state.calls who).Safe state.shared.ledger))

/-! ### What keeps the sum within the capacity -/

/-- The ledger hands out at most the capacity. -/
structure Fits (capacity : UInt64) (ledger : QuotaLedger) : Prop where
  allocatable : ledger.allocatableBytes = capacity
  bounded : ledger.allocated ≤ capacity.toNat

/-- What an admission compared, and found to fit. -/
def Call.Admitted (capacity : UInt64) : Call → Prop
  | admitted bucket allocated =>
    bucket.quotaBytes ≠ 0 → allocated.toNat + bucket.quotaBytes.toNat ≤ capacity.toNat
  | created bucket allocated =>
    bucket.quotaBytes ≠ 0 → allocated.toNat + bucket.quotaBytes.toNat ≤ capacity.toNat
  | _ => True

section Steps

variable {capacity : UInt64} {ledger : QuotaLedger}

theorem Fits.beside_le (hfits : Fits capacity ledger) (bucket : Bytes) :
    ledger.allocatedBeside bucket ≤ capacity.toNat := by
  have hsplit := ledger.allocated_eq bucket
  have hbounded := hfits.bounded
  omega

/-- A compared sum that does not wrap is the mathematical one. -/
theorem toNat_compared (hfits : Fits capacity ledger) {bucket : Bytes} {quotaBytes : UInt64}
    (hnowrap : ledger.allocatedBeside bucket + quotaBytes.toNat < 2 ^ 64) :
    (ledger.allocatedLocked bucket + quotaBytes).toNat =
      ledger.allocatedBeside bucket + quotaBytes.toNat := by
  have hbeside := hfits.beside_le bucket
  have hcapacity := capacity.toNat_lt
  rw [UInt64.toNat_add, toNat_allocatedLocked]
  omega

theorem admitted_of_ok (hcapacity : capacity ≠ 0) (hfits : Fits capacity ledger)
    {quotaBytes : UInt64} (hnowrap : ledger.allocatedBeside [] + quotaBytes.toNat < 2 ^ 64)
    (hok : ledger.admitAllocation quotaBytes = .ok ()) (hquota : quotaBytes ≠ 0) :
    (ledger.allocatedLocked []).toNat + quotaBytes.toNat ≤ capacity.toNat := by
  rw [admitAllocation, hfits.allocatable, if_neg (by simp [hcapacity, hquota])] at hok
  split_ifs at hok with hover
  · cases hok
  have hle := UInt64.le_iff_toNat_le.mp (UInt64.not_lt.mp hover)
  rw [toNat_compared hfits hnowrap] at hle
  have hbeside := hfits.beside_le []
  have hbound := capacity.toNat_lt
  rw [toNat_allocatedLocked]
  omega

/-- Writing back the entry that was looked up changes no allocation. -/
theorem Fits.lookup (hfits : Fits capacity ledger) (bucket : Bytes) :
    Fits capacity (ledger.setEntry bucket (ledger.entryFor bucket)) := by
  refine ⟨hfits.allocatable, ?_⟩
  rw [allocated_setEntry, ← allocated_eq]
  exact hfits.bounded

theorem Fits.setQuota (hcapacity : capacity ≠ 0) (hfits : Fits capacity ledger) {bucket : Bytes}
    {quotaBytes : UInt64}
    (hnowrap : ledger.allocatedBeside bucket + quotaBytes.toNat < 2 ^ 64) :
    Fits capacity (ledger.setQuota bucket quotaBytes).1 := by
  have hlookup := hfits.lookup bucket
  have hbeside := allocatedBeside_setEntry ledger bucket (ledger.entryFor bucket)
  simp only [QuotaLedger.setQuota]
  split_ifs with hbelow hover
  · exact hlookup
  · exact hlookup
  · refine ⟨hlookup.allocatable, ?_⟩
    rw [allocated_setEntry]
    by_cases hquota : quotaBytes = 0
    · simpa [hquota] using hlookup.beside_le bucket
    · have hle := UInt64.not_lt.mp fun hlt => hover
        ⟨by rw [hlookup.allocatable]; exact hcapacity, hquota, hlt⟩
      rw [UInt64.le_iff_toNat_le, toNat_compared hlookup (by rwa [hbeside]),
        hlookup.allocatable] at hle
      exact hle

theorem Fits.track (hfits : Fits capacity ledger) {bucket : Bytes} {quotaBytes : UInt64}
    (hroom : ledger.allocatedBeside bucket + quotaBytes.toNat ≤ capacity.toNat) :
    Fits capacity (ledger.track bucket quotaBytes) := by
  refine ⟨hfits.allocatable, ?_⟩
  rw [QuotaLedger.track, allocated_setEntry]
  exact hroom

theorem Fits.forget (hfits : Fits capacity ledger) (bucket : Bytes) :
    Fits capacity (ledger.forget bucket) :=
  ⟨hfits.allocatable, hfits.beside_le bucket⟩

/-- A safe step of one call keeps the ledger within the capacity and remembers
what its admission compared. -/
theorem advance_fits (hcapacity : capacity ≠ 0) {shared next : Instance} {call moved : Call}
    (hfits : Fits capacity shared.ledger) (hadmitted : call.Admitted capacity)
    (hsafe : call.Safe shared.ledger) (hstep : advance shared call = some (next, moved)) :
    Fits capacity next.ledger ∧ moved.Admitted capacity := by
  cases call with
  | idle => cases hstep
  | entered op =>
      cases op with
      | createBucket bucket =>
          simp only [advance] at hstep
          split at hstep <;> cases hstep
          · rename_i hok
            exact ⟨hfits, admitted_of_ok hcapacity hfits hsafe hok⟩
          · exact ⟨hfits, trivial⟩
      | setBucketQuota name quotaBytes =>
          simp only [advance] at hstep
          split at hstep <;> cases hstep <;> exact ⟨hfits, trivial⟩
      | deleteBucket name =>
          simp only [advance] at hstep
          split at hstep <;> cases hstep <;> exact ⟨hfits, trivial⟩
  | admitted bucket allocated =>
      simp only [advance] at hstep
      split at hstep <;> cases hstep
      · exact ⟨hfits, hadmitted⟩
      · exact ⟨hfits, trivial⟩
  | created bucket allocated =>
      cases hstep
      refine ⟨hfits.track ?_, trivial⟩
      by_cases hquota : bucket.quotaBytes = 0
      · simpa [hquota] using hfits.beside_le bucket.name
      · have hcompared := hadmitted hquota
        have hbeside := hsafe hquota
        omega
  | loaded bucket quotaBytes =>
      have hset := hfits.setQuota hcapacity hsafe
      simp only [advance] at hstep
      split at hstep <;> cases hstep <;> rename_i hresult <;> rw [hresult] at hset <;>
        exact ⟨hset, trivial⟩
  | allotted bucket quotaBytes =>
      simp only [advance] at hstep
      split at hstep <;> cases hstep <;> exact ⟨hfits, trivial⟩
  | undoing bucket error =>
      have hset := hfits.setQuota hcapacity hsafe
      simp only [advance] at hstep
      split at hstep <;> cases hstep <;> rename_i hresult <;> rw [hresult] at hset <;>
        exact ⟨hset, trivial⟩
  | deleted name =>
      cases hstep
      exact ⟨hfits.forget name, trivial⟩
  | returned result => cases hstep

end Steps

/-- The ledger within the capacity, and every pending creation admitted. -/
structure Sound (capacity : UInt64) (state : State ι) : Prop where
  fits : Fits capacity state.shared.ledger
  admitted : ∀ who, (state.calls who).Admitted capacity

theorem Sound.step {capacity : UInt64} (hcapacity : capacity ≠ 0) {state next : State ι}
    {label : Label ι} (hsound : Sound capacity state) (hsafe : Safe state label)
    (hstep : Allocation.step state label = some next) : Sound capacity next := by
  cases label with
  | call who op =>
      simp only [Allocation.step] at hstep
      split at hstep <;> cases hstep
      exact ⟨hsound.fits, (state.forall_move (P := fun _ call => call.Admitted capacity) who _ _).mpr
        ⟨trivial, fun other _ => hsound.admitted other⟩⟩
  | step who =>
      obtain ⟨⟨shared, call⟩, hadvance, rfl⟩ := Option.map_eq_some_iff.mp hstep
      obtain ⟨hfits, hcall⟩ :=
        advance_fits hcapacity hsound.fits (hsound.admitted who) hsafe hadvance
      exact ⟨hfits, (state.forall_move (P := fun _ call => call.Admitted capacity) who _ _).mpr
        ⟨hcall, fun other _ => hsound.admitted other⟩⟩

/-- In every run of creations, quota changes and deletions in which no compared
sum wraps and no creation's room is taken between its admission and its `track`,
the allocations of all buckets together stay within the capacity. -/
theorem allocated_le_allocatable {start final : State ι} {labels : List (Label ι)}
    (hcapacity : start.shared.ledger.allocatableBytes ≠ 0)
    (hstart : start.shared.ledger.allocated ≤ start.shared.ledger.allocatableBytes.toNat)
    (hidle : ∀ who, start.calls who = .idle) (hsafe : Trace.Every step Safe start labels)
    (hrun : Trace.run step start labels = some final) :
    final.shared.ledger.allocatableBytes = start.shared.ledger.allocatableBytes ∧
      final.shared.ledger.allocated ≤ final.shared.ledger.allocatableBytes.toNat := by
  have hinitial : Sound start.shared.ledger.allocatableBytes start :=
    ⟨⟨rfl, hstart⟩, fun who => by rw [hidle who]; trivial⟩
  have hsound := hsafe.run_invariant (fun hsound hsafe hstep => hsound.step hcapacity hsafe hstep)
    hinitial hrun
  exact ⟨hsound.fits.allocatable, by rw [hsound.fits.allocatable]; exact hsound.fits.bounded⟩

/-- An empty instance with a hundred bytes to allocate, and two calls to come. -/
def hundredBytes : State (Fin 2) := ⟨⟨{}, { allocatableBytes := 100 }⟩, fun _ => .idle⟩

/-- A bucket asking for an allocation. -/
def bucketOf (name : String) (quotaBytes : UInt64) : BucketRecord :=
  { name := ascii name, quotaBytes := quotaBytes }

/-- Two creations one after the other: the second is refused. -/
def creationsInTurn : List (Label (Fin 2)) :=
  [.call 0 (.createBucket (bucketOf "a" 60)), .step 0, .step 0, .step 0,
    .call 1 (.createBucket (bucketOf "b" 60)), .step 1]

theorem allocated_le_allocatable_inTurn :
    ∃ final, Trace.run step hundredBytes creationsInTurn = some final ∧
      (final.shared.ledger.allocatableBytes = 100 ∧
        final.shared.ledger.allocated ≤ final.shared.ledger.allocatableBytes.toNat) := by
  obtain ⟨final, hrun⟩ : ∃ final, Trace.run step hundredBytes creationsInTurn = some final :=
    Option.isSome_iff_exists.mp (by decide +kernel)
  exact ⟨final, hrun, allocated_le_allocatable (by decide +kernel) (by decide +kernel)
    (fun _ => rfl) (by decide +kernel) hrun⟩

/-- The same two creations, both admitted before either is tracked. -/
def creationsTogether : List (Label (Fin 2)) :=
  [.call 0 (.createBucket (bucketOf "a" 60)), .call 1 (.createBucket (bucketOf "b" 60)), .step 0,
    .step 1, .step 0, .step 1, .step 0, .step 1]

/-- Two admitted creations hand out more than there is, and so does a single one
whose request wraps the sum: 50 and 2^64 - 1 compare as 49. -/
theorem allocated_exceeds_allocatable :
    (∃ final, Trace.run step hundredBytes creationsTogether = some final ∧
      final.shared.ledger.allocatableBytes.toNat < final.shared.ledger.allocated) ∧
    ∃ final, Trace.run step hundredBytes
        [.call 0 (.createBucket (bucketOf "a" 50)), .step 0, .step 0, .step 0,
          .call 1 (.createBucket (bucketOf "b" 18446744073709551615)), .step 1, .step 1,
          .step 1] = some final ∧
      final.shared.ledger.allocatableBytes.toNat < final.shared.ledger.allocated := by
  have hexceeds : ∀ labels : List (Label (Fin 2)),
      ((Trace.run step hundredBytes labels).any fun final =>
        final.shared.ledger.allocatableBytes.toNat < final.shared.ledger.allocated) = true →
      ∃ final, Trace.run step hundredBytes labels = some final ∧
        final.shared.ledger.allocatableBytes.toNat < final.shared.ledger.allocated := by
    intro labels h
    cases hrun : Trace.run step hundredBytes labels with
    | none => simp [hrun] at h
    | some final => exact ⟨final, rfl, by simpa [hrun] using h⟩
  exact ⟨hexceeds _ (by decide +kernel), hexceeds _ (by decide +kernel)⟩

end MonoBucket.Allocation

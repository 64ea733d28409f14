/-
The quota ledger

One entry a bucket: its allocation and three charges against it. Every number
is an unsigned 64-bit counter; additions wrap, and subtractions saturate at
zero (`take`). Each operation runs under the ledger's mutex, so each is one
atomic function here.

The lemmas relate an operation to the mathematical sums: what a claim adds when
nothing wraps, and what is left of a sum when something covered by it is taken.
-/

import MonoBucket.Storage.MetadataStore

namespace MonoBucket

/-- Subtraction that cannot wrap. -/
def take (before amount : UInt64) : UInt64 := if amount < before then before - amount else 0

theorem toNat_take (before amount : UInt64) :
    (take before amount).toNat = before.toNat - amount.toNat := by
  rw [take]
  split_ifs with h
  · exact UInt64.toNat_sub_of_le _ _ (UInt64.le_of_lt h)
  · have hle := UInt64.le_iff_toNat_le.mp (UInt64.not_lt.mp h)
    change 0 = _
    omega

/-- `QuotaLedger::Entry`. -/
structure QuotaEntry where
  quotaBytes : UInt64 := 0
  usedBytes : UInt64 := 0
  pendingBytes : UInt64 := 0
  reservedBytes : UInt64 := 0
  deriving DecidableEq

namespace QuotaEntry

def chargedBytes (entry : QuotaEntry) : UInt64 :=
  entry.usedBytes + entry.pendingBytes + entry.reservedBytes

/-- The charges as numbers, with no bound on their sum. -/
def charged (entry : QuotaEntry) : Nat :=
  entry.usedBytes.toNat + entry.pendingBytes.toNat + entry.reservedBytes.toNat

theorem toNat_chargedBytes (entry : QuotaEntry) :
    entry.chargedBytes.toNat = entry.charged % 2 ^ 64 := by
  simp [chargedBytes, charged, UInt64.toNat_add, Nat.add_mod]

end QuotaEntry

structure QuotaLedger where
  allocatableBytes : UInt64 := 0
  buckets : OrderedMap Bytes QuotaEntry := .empty
  deriving DecidableEq

theorem unheld_nothing : false = false → (0 : UInt64) = 0 := fun _ => rfl

theorem unheld_of_held (bytes : UInt64) : true = false → bytes = 0 := nofun

/-- A claim on a bucket's remaining allocation. `held` is whether it points at
the ledger; one that does not claims nothing. -/
structure Reservation where
  held : Bool := false
  bucket : Bytes := []
  bytes : UInt64 := 0
  unheld : held = false → bytes = 0 := by
    first | exact unheld_nothing | exact unheld_of_held _ | simp
  deriving DecidableEq

namespace Reservation

/-- What the claim would give back to a bucket. -/
def claimOn (reservation : Reservation) (bucket : Bytes) : Nat :=
  if reservation.held ∧ reservation.bucket = bucket then reservation.bytes.toNat else 0

@[simp]
theorem claimOn_default (bucket : Bytes) : ({} : Reservation).claimOn bucket = 0 := rfl

theorem claimOn_of_bucket {reservation : Reservation} {bucket : Bytes}
    (h : reservation.held → reservation.bucket = bucket) :
    reservation.claimOn bucket = reservation.bytes.toNat := by
  cases hheld : reservation.held with
  | true => simp [claimOn, hheld, h hheld]
  | false => simp [claimOn, hheld, reservation.unheld hheld]

theorem claimOn_of_ne {reservation : Reservation} {bucket other : Bytes}
    (h : reservation.held → reservation.bucket = bucket) (hne : other ≠ bucket) :
    reservation.claimOn other = 0 := by
  rw [claimOn, if_neg]
  rintro ⟨hheld, rfl⟩
  exact hne (h hheld)

end Reservation

namespace QuotaLedger

/-- The tally for a bucket, as `entryFor` answers it: unlimited when it is not
there. -/
def entryFor (ledger : QuotaLedger) (bucket : Bytes) : QuotaEntry :=
  (ledger.buckets.find? bucket).getD {}

/-- The tally written back, which creates it when it was not there. -/
def setEntry (ledger : QuotaLedger) (bucket : Bytes) (entry : QuotaEntry) : QuotaLedger :=
  { ledger with buckets := ledger.buckets.insert bucket entry }

@[simp]
theorem entryFor_setEntry_self (ledger : QuotaLedger) (bucket : Bytes) (entry : QuotaEntry) :
    (ledger.setEntry bucket entry).entryFor bucket = entry := by
  simp [entryFor, setEntry]

theorem entryFor_setEntry_of_ne (ledger : QuotaLedger) {bucket other : Bytes} (entry : QuotaEntry)
    (hne : other ≠ bucket) : (ledger.setEntry bucket entry).entryFor other = ledger.entryFor other := by
  simp [entryFor, setEntry, OrderedMap.find?_insert_of_ne _ _ hne]

@[simp]
theorem allocatableBytes_setEntry (ledger : QuotaLedger) (bucket : Bytes) (entry : QuotaEntry) :
    (ledger.setEntry bucket entry).allocatableBytes = ledger.allocatableBytes := rfl

/-! ### Membership -/

def seed (ledger : QuotaLedger) (bucket : Bytes) (quotaBytes usedBytes pendingBytes : UInt64) :
    QuotaLedger :=
  ledger.setEntry bucket ⟨quotaBytes, usedBytes, pendingBytes, 0⟩

def track (ledger : QuotaLedger) (bucket : Bytes) (quotaBytes : UInt64) : QuotaLedger :=
  ledger.setEntry bucket { ledger.entryFor bucket with quotaBytes := quotaBytes }

def forget (ledger : QuotaLedger) (bucket : Bytes) : QuotaLedger :=
  { ledger with buckets := ledger.buckets.erase bucket }

/-! ### Allocations -/

def bytesPhrase (bytes : UInt64) : Bytes := decimal bytes.toNat ++ ascii " bytes"

/-- The sum of allocations, ignoring one bucket, in the arithmetic of the code. -/
def allocatedLocked (ledger : QuotaLedger) (except : Bytes) : UInt64 :=
  ledger.buckets.entries.foldl
    (fun total entry => if entry.1 = except then total else total + entry.2.quotaBytes) 0

/-- The allocation lands in the entry even when the bucket was unknown; a
refusal leaves the entry `entryFor` may have created. -/
def setQuota (ledger : QuotaLedger) (bucket : Bytes) (quotaBytes : UInt64) :
    QuotaLedger × Except StoreError Unit :=
  let entry := ledger.entryFor bucket
  let ledger := ledger.setEntry bucket entry
  if quotaBytes ≠ 0 ∧ quotaBytes < entry.chargedBytes then
    (ledger, fail .quotaBelowUsage (ascii "bucket \x27" ++ bucket ++ ascii "\x27 already holds " ++
      bytesPhrase entry.chargedBytes ++ ascii ", which is more than the requested allocation of " ++
      bytesPhrase quotaBytes))
  else if ledger.allocatableBytes ≠ 0 ∧ quotaBytes ≠ 0 ∧
      ledger.allocatableBytes < ledger.allocatedLocked bucket + quotaBytes then
    (ledger, fail .insufficientCapacity (ascii "an allocation of " ++ bytesPhrase quotaBytes ++
      ascii " leaves the instance over its " ++ bytesPhrase ledger.allocatableBytes ++
      ascii " allocatable capacity; " ++
      bytesPhrase (take ledger.allocatableBytes (ledger.allocatedLocked bucket)) ++
      ascii " remain unallocated"))
  else (ledger.setEntry bucket { entry with quotaBytes := quotaBytes }, .ok ())

def admitAllocation (ledger : QuotaLedger) (quotaBytes : UInt64) : Except StoreError Unit :=
  if ledger.allocatableBytes = 0 ∨ quotaBytes = 0 then .ok ()
  else if ledger.allocatableBytes < ledger.allocatedLocked [] + quotaBytes then
    fail .insufficientCapacity (ascii "an allocation of " ++ bytesPhrase quotaBytes ++
      ascii " exceeds the " ++ bytesPhrase (take ledger.allocatableBytes (ledger.allocatedLocked [])) ++
      ascii " still unallocated of this instance\x27s " ++ bytesPhrase ledger.allocatableBytes ++
      ascii " allocatable capacity")
  else .ok ()

/-! ### Admission -/

/-- Raise a claim to cover `bytes` in total. A refusal changes nothing. -/
def extend (ledger : QuotaLedger) (reservation : Reservation) (bucket : Bytes) (bytes : UInt64) :
    Except StoreError (QuotaLedger × Reservation) :=
  if reservation.held ∧ reservation.bucket ≠ bucket then
    fail .internal (ascii "a storage reservation for bucket \x27" ++ reservation.bucket ++
      ascii "\x27 was extended against bucket \x27" ++ bucket ++ ascii "\x27")
  else if bytes ≤ reservation.bytes then .ok (ledger, reservation)
  else
    let wanted := bytes - reservation.bytes
    let entry := ledger.entryFor bucket
    if entry.quotaBytes ≠ 0 ∧ entry.quotaBytes < entry.chargedBytes + wanted then
      fail .quotaExceeded (ascii "bucket \x27" ++ bucket ++ ascii "\x27 has " ++
        bytesPhrase (take entry.quotaBytes entry.chargedBytes) ++ ascii " left of its " ++
        bytesPhrase entry.quotaBytes ++ ascii " allocation, and this write needs " ++
        bytesPhrase wanted)
    else
      .ok (ledger.setEntry bucket { entry with reservedBytes := entry.reservedBytes + wanted },
        { held := true, bucket := bucket, bytes := bytes })

/-- What a claim that was let through did: nothing was missing, or the
difference was admitted against the allocation and reserved. -/
theorem extend_ok {ledger next : QuotaLedger} {reservation raised : Reservation} {bucket : Bytes}
    {bytes : UInt64} (h : ledger.extend reservation bucket bytes = .ok (next, raised)) :
    (reservation.held → reservation.bucket = bucket) ∧
      ((bytes ≤ reservation.bytes ∧ next = ledger ∧ raised = reservation) ∨
        (reservation.bytes < bytes ∧ raised = { held := true, bucket := bucket, bytes := bytes } ∧
          ((ledger.entryFor bucket).quotaBytes ≠ 0 →
            (ledger.entryFor bucket).chargedBytes + (bytes - reservation.bytes) ≤
              (ledger.entryFor bucket).quotaBytes) ∧
          next = ledger.setEntry bucket
            { ledger.entryFor bucket with
              reservedBytes :=
                (ledger.entryFor bucket).reservedBytes + (bytes - reservation.bytes) })) := by
  simp only [extend] at h
  split_ifs at h with hother hcovered hover
  · cases h
  · cases h
    exact ⟨fun hheld => not_not.mp fun hne => hother ⟨hheld, hne⟩, Or.inl ⟨hcovered, rfl, rfl⟩⟩
  · cases h
  · cases h
    refine ⟨fun hheld => not_not.mp fun hne => hother ⟨hheld, hne⟩, Or.inr ?_⟩
    refine ⟨UInt64.not_le.mp hcovered, rfl, fun hquota => ?_, rfl⟩
    exact UInt64.not_lt.mp fun hlt => hover ⟨hquota, hlt⟩

/-- A raised claim is on the bucket it was raised against. -/
theorem bucket_of_extend_ok {ledger next : QuotaLedger} {reservation raised : Reservation}
    {bucket : Bytes} {bytes : UInt64}
    (h : ledger.extend reservation bucket bytes = .ok (next, raised)) :
    raised.held → raised.bucket = bucket := by
  obtain ⟨hbucket, ⟨-, -, rfl⟩ | ⟨-, rfl, -, -⟩⟩ := extend_ok h
  · exact hbucket
  · exact fun _ => rfl

/-- A raised claim covers what it was raised to. -/
theorem covers_of_extend_ok {ledger next : QuotaLedger} {reservation raised : Reservation}
    {bucket : Bytes} {bytes : UInt64}
    (h : ledger.extend reservation bucket bytes = .ok (next, raised)) :
    bytes.toNat ≤ raised.bytes.toNat := by
  obtain ⟨-, ⟨hcovered, -, rfl⟩ | ⟨-, rfl, -, -⟩⟩ := extend_ok h
  · exact UInt64.le_iff_toNat_le.mp hcovered
  · exact le_refl _

def reserve (ledger : QuotaLedger) (bucket : Bytes) (bytes : UInt64) :
    Except StoreError (QuotaLedger × Reservation) :=
  ledger.extend {} bucket bytes

def giveBack (ledger : QuotaLedger) (bucket : Bytes) (bytes : UInt64) : QuotaLedger :=
  if bytes = 0 then ledger
  else
    match ledger.buckets.find? bucket with
    | none => ledger
    | some entry =>
      ledger.setEntry bucket { entry with reservedBytes := take entry.reservedBytes bytes }

/-- `Reservation::release`. -/
def release (ledger : QuotaLedger) (reservation : Reservation) : QuotaLedger :=
  if reservation.held then ledger.giveBack reservation.bucket reservation.bytes else ledger

/-- Giving a claim back takes exactly its bytes off the bucket it was made on. -/
theorem entryFor_release_self (ledger : QuotaLedger) {reservation : Reservation}
    {bucket : Bytes} (h : reservation.held → reservation.bucket = bucket) :
    (ledger.release reservation).entryFor bucket =
      { ledger.entryFor bucket with
        reservedBytes := take (ledger.entryFor bucket).reservedBytes reservation.bytes } := by
  have hzero : ∀ value, take value 0 = value := fun value => by
    rw [← UInt64.toNat_inj, toNat_take]
    rfl
  cases hheld : reservation.held with
  | false => simp [release, hheld, reservation.unheld hheld, hzero]
  | true =>
      obtain rfl := h hheld
      rw [release, if_pos hheld, giveBack]
      split_ifs with hbytes
      · simp [hbytes, hzero]
      · cases hfind : ledger.buckets.find? reservation.bucket with
        | none =>
            have hempty : take 0 reservation.bytes = 0 := by
              rw [← UInt64.toNat_inj, toNat_take]
              simp
            simp [entryFor, hfind, hempty]
        | some entry => simp [entryFor, setEntry, hfind]

theorem entryFor_release_of_ne (ledger : QuotaLedger) {reservation : Reservation}
    {bucket : Bytes} (hne : reservation.held → bucket ≠ reservation.bucket) :
    (ledger.release reservation).entryFor bucket = ledger.entryFor bucket := by
  rw [release]
  split_ifs with hheld
  · rw [giveBack]
    split_ifs
    · rfl
    · split
      · rfl
      · exact ledger.entryFor_setEntry_of_ne _ (hne hheld)
  · rfl

/-! ### Settlement -/

/-- The entry with the claim dropped. -/
def consumeLocked (entry : QuotaEntry) (reservation : Reservation) : QuotaEntry :=
  if reservation.held then
    { entry with reservedBytes := take entry.reservedBytes reservation.bytes }
  else entry

@[simp]
theorem quotaBytes_consumeLocked (entry : QuotaEntry) (reservation : Reservation) :
    (consumeLocked entry reservation).quotaBytes = entry.quotaBytes := by
  unfold consumeLocked
  split <;> rfl

@[simp]
theorem usedBytes_consumeLocked (entry : QuotaEntry) (reservation : Reservation) :
    (consumeLocked entry reservation).usedBytes = entry.usedBytes := by
  unfold consumeLocked
  split <;> rfl

@[simp]
theorem pendingBytes_consumeLocked (entry : QuotaEntry) (reservation : Reservation) :
    (consumeLocked entry reservation).pendingBytes = entry.pendingBytes := by
  unfold consumeLocked
  split <;> rfl

@[simp]
theorem toNat_reservedBytes_consumeLocked (entry : QuotaEntry) (reservation : Reservation) :
    (consumeLocked entry reservation).reservedBytes.toNat =
      entry.reservedBytes.toNat - reservation.bytes.toNat := by
  cases hheld : reservation.held with
  | true => simp [consumeLocked, hheld, toNat_take]
  | false => simp [consumeLocked, hheld, reservation.unheld hheld]

def recordObject (ledger : QuotaLedger) (bucket : Bytes) (reservation : Reservation)
    (storedBytes replacedBytes : UInt64) : QuotaLedger :=
  let entry := consumeLocked (ledger.entryFor bucket) reservation
  ledger.setEntry bucket
    { entry with usedBytes := take (entry.usedBytes + storedBytes) replacedBytes }

def recordPart (ledger : QuotaLedger) (bucket : Bytes) (reservation : Reservation)
    (storedBytes replacedBytes : UInt64) : QuotaLedger :=
  let entry := consumeLocked (ledger.entryFor bucket) reservation
  ledger.setEntry bucket
    { entry with pendingBytes := take (entry.pendingBytes + storedBytes) replacedBytes }

def recordDeletion (ledger : QuotaLedger) (bucket : Bytes) (releasedBytes : UInt64) :
    QuotaLedger :=
  if releasedBytes = 0 then ledger
  else
    let entry := ledger.entryFor bucket
    ledger.setEntry bucket { entry with usedBytes := take entry.usedBytes releasedBytes }

def recordUploadAborted (ledger : QuotaLedger) (bucket : Bytes) (releasedPartBytes : UInt64) :
    QuotaLedger :=
  if releasedPartBytes = 0 then ledger
  else
    let entry := ledger.entryFor bucket
    ledger.setEntry bucket { entry with pendingBytes := take entry.pendingBytes releasedPartBytes }

def recordUploadCompleted (ledger : QuotaLedger) (bucket : Bytes)
    (storedBytes replacedBytes releasedPartBytes : UInt64) : QuotaLedger :=
  let entry := ledger.entryFor bucket
  ledger.setEntry bucket
    { entry with
      pendingBytes := take entry.pendingBytes releasedPartBytes
      usedBytes := take (entry.usedBytes + storedBytes) replacedBytes }

end QuotaLedger

end MonoBucket

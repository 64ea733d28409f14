/-
The engine's calls when something fails

A write reserves space before its payload arrives and raises the claim to what
arrived; the reservation gives the claim back when the call ends in an exception.
Here are the calls with everything that can fail in them, from the file the payload
is written to down to the markers forgotten behind the commit.

Giving back undoes the claim only on a tally the ledger had, and only if the
reserved bytes did not wrap. What is thrown behind the commit finds the ledger
settled.
-/

import MonoBucket.Storage.EngineWrites
import MonoBucket.Storage.FailedWrites
import MonoBucket.Storage.QuotaChange

namespace MonoBucket

open Codec

/-! ### Claims -/

/-- The claim when it covers `bytes` on a bucket. -/
def Reservation.raise (reservation : Reservation) (bucket : Bytes) (bytes : UInt64) : Reservation :=
  if bytes ≤ reservation.bytes then reservation else { held := true, bucket := bucket, bytes := bytes }

namespace QuotaLedger

/-- The allocation covers so many bytes more. -/
def Covers (ledger : QuotaLedger) (bucket : Bytes) (bytes : UInt64) : Prop :=
  (ledger.entryFor bucket).quotaBytes ≠ 0 →
    (ledger.entryFor bucket).chargedBytes + bytes ≤ (ledger.entryFor bucket).quotaBytes

/-- A claim may be raised: it is on that bucket, and the allocation covers what it
asks for. -/
def Allows (ledger : QuotaLedger) (reservation : Reservation) (bucket : Bytes) (bytes : UInt64) :
    Prop :=
  (reservation.held → reservation.bucket = bucket) ∧
    (reservation.bytes < bytes → ledger.Covers bucket bytes)

instance (ledger : QuotaLedger) (reservation : Reservation) (bucket : Bytes) (bytes : UInt64) :
    Decidable (ledger.Allows reservation bucket bytes) := by
  unfold Allows Covers
  infer_instance

/-- The ledger with a claim added. -/
def claimed (ledger : QuotaLedger) (reservation : Reservation) : QuotaLedger :=
  if reservation.bytes = 0 then ledger
  else
    ledger.setEntry reservation.bucket
      { ledger.entryFor reservation.bucket with
        reservedBytes := (ledger.entryFor reservation.bucket).reservedBytes + reservation.bytes }

/-- Giving the claim back undoes it: there is none, or it is on a tally that was
there and did not wrap it. -/
def Undoes (ledger : QuotaLedger) (reservation : Reservation) : Prop :=
  reservation.bytes = 0 ∨
    ∃ entry, ledger.buckets.find? reservation.bucket = some entry ∧
      entry.reservedBytes.toNat + reservation.bytes.toNat < 2 ^ 64

section Claims

/-- A claim on some bytes is held. -/
theorem held_of_bytes {reservation : Reservation} (h : reservation.bytes ≠ 0) :
    reservation.held = true := by
  by_contra hunheld
  exact h (reservation.unheld (Bool.not_eq_true _ ▸ hunheld))

variable {ledger : QuotaLedger} {reservation : Reservation} {bucket : Bytes} {bytes : UInt64}

@[simp]
theorem claimed_default (ledger : QuotaLedger) : ledger.claimed {} = ledger := rfl

theorem entryFor_claimed (ledger : QuotaLedger) (h : reservation.held → reservation.bucket = bucket) :
    (ledger.claimed reservation).entryFor bucket =
      { ledger.entryFor bucket with
        reservedBytes := (ledger.entryFor bucket).reservedBytes + reservation.bytes } := by
  rw [claimed]
  split_ifs with hbytes
  · simp [hbytes]
  · rw [h (held_of_bytes hbytes), entryFor_setEntry_self]

/-- Writing the tally of a claim's bucket forgets the claim. -/
theorem setEntry_claimed (ledger : QuotaLedger) (h : reservation.held → reservation.bucket = bucket)
    (entry : QuotaEntry) : (ledger.claimed reservation).setEntry bucket entry = ledger.setEntry bucket entry := by
  rw [claimed]
  split_ifs with hbytes
  · rfl
  · rw [h (held_of_bytes hbytes), setEntry_setEntry]

/-- Raising a claim adds the raised one in its place, if that is allowed. -/
theorem extend_claimed (ledger : QuotaLedger) (reservation : Reservation) (bucket : Bytes)
    (bytes : UInt64) :
    (ledger.Allows reservation bucket bytes ∧
        (ledger.claimed reservation).extend reservation bucket bytes =
          .ok (ledger.claimed (reservation.raise bucket bytes), reservation.raise bucket bytes)) ∨
      (¬ ledger.Allows reservation bucket bytes ∧
        ∃ error, (ledger.claimed reservation).extend reservation bucket bytes = .error error) := by
  by_cases hbucket : reservation.held → reservation.bucket = bucket
  · have hentry := entryFor_claimed ledger hbucket
    have hother : ¬ (reservation.held ∧ reservation.bucket ≠ bucket) := fun h => h.2 (hbucket h.1)
    by_cases hcovered : bytes ≤ reservation.bytes
    · refine Or.inl ⟨⟨hbucket, fun hlt => absurd hcovered (UInt64.not_le.mpr hlt)⟩, ?_⟩
      rw [extend, if_neg hother, if_pos hcovered, Reservation.raise, if_pos hcovered]
    · have hlt := UInt64.not_le.mp hcovered
      have hcharged : ((ledger.claimed reservation).entryFor bucket).chargedBytes +
          (bytes - reservation.bytes) = (ledger.entryFor bucket).chargedBytes + bytes := by
        rw [hentry]
        simp only [QuotaEntry.chargedBytes]
        grind
      have hquota : ((ledger.claimed reservation).entryFor bucket).quotaBytes =
          (ledger.entryFor bucket).quotaBytes := by rw [hentry]
      by_cases hcovers : ledger.Covers bucket bytes
      · refine Or.inl ⟨⟨hbucket, fun _ => hcovers⟩, ?_⟩
        have hfits : ¬ ((ledger.entryFor bucket).quotaBytes ≠ 0 ∧ (ledger.entryFor bucket).quotaBytes <
            (ledger.entryFor bucket).chargedBytes + bytes) := fun h =>
          absurd (hcovers h.1) (UInt64.not_le.mpr h.2)
        have hbytes : bytes ≠ 0 := fun hzero => hcovered (hzero ▸ UInt64.zero_le)
        have hsum : (ledger.entryFor bucket).reservedBytes + reservation.bytes +
            (bytes - reservation.bytes) = (ledger.entryFor bucket).reservedBytes + bytes := by grind
        have hraised : ledger.claimed { held := true, bucket := bucket, bytes := bytes } =
            ledger.setEntry bucket
              { ledger.entryFor bucket with
                reservedBytes := (ledger.entryFor bucket).reservedBytes + bytes } := by
          rw [claimed, if_neg hbytes]
        simp only [extend, if_neg hother, if_neg hcovered, Reservation.raise, hcharged, hquota,
          if_neg hfits, setEntry_claimed ledger hbucket]
        rw [hraised, hentry, hsum]
      · refine Or.inr ⟨fun h => hcovers (h.2 hlt), ?_⟩
        have hover : (ledger.entryFor bucket).quotaBytes ≠ 0 ∧ (ledger.entryFor bucket).quotaBytes <
            (ledger.entryFor bucket).chargedBytes + bytes := by
          simpa [Covers] using hcovers
        simp only [extend, if_neg hother, if_neg hcovered, hcharged, hquota]
        rw [if_pos hover]
        exact ⟨_, rfl⟩
  · refine Or.inr ⟨fun h => hbucket h.1, ?_⟩
    have hother : reservation.held ∧ reservation.bucket ≠ bucket := by simpa using hbucket
    rw [extend, if_pos hother]
    exact ⟨_, rfl⟩

/-- Changing a tally changes nothing exactly when it was there and the change keeps it. -/
theorem buckets_setEntry_eq_iff (ledger : QuotaLedger) (bucket : Bytes)
    (change : QuotaEntry → QuotaEntry) :
    (ledger.setEntry bucket (change (ledger.entryFor bucket))).buckets = ledger.buckets ↔
      ∃ entry, ledger.buckets.find? bucket = some entry ∧ change entry = entry := by
  constructor
  · intro hsame
    have hfind : ledger.buckets.find? bucket = some (change (ledger.entryFor bucket)) := by
      conv_lhs => rw [← hsame]
      exact OrderedMap.find?_insert_self _ _ _
    have hread : ledger.entryFor bucket = change (ledger.entryFor bucket) := by
      conv_lhs => rw [entryFor, hfind]
      rfl
    exact ⟨ledger.entryFor bucket, hread ▸ hfind, hread.symm⟩
  · rintro ⟨entry, hfind, hchange⟩
    have hread : ledger.entryFor bucket = entry := by rw [entryFor, hfind]; rfl
    rw [hread, hchange]
    refine OrderedMap.ext_find? fun name => ?_
    by_cases hname : name = bucket
    · rw [hname, hfind]
      exact OrderedMap.find?_insert_self _ _ _
    · exact OrderedMap.find?_insert_of_ne _ _ hname

/-- What is added and taken again is what was there, unless the sum wrapped. -/
theorem take_add_eq_iff (before amount : UInt64) :
    take (before + amount) amount = before ↔ before.toNat + amount.toNat < 2 ^ 64 := by
  have hbefore := before.toNat_lt
  have hbound := amount.toNat_lt
  rw [← UInt64.toNat_inj, toNat_take, UInt64.toNat_add]
  omega

theorem release_claimed (ledger : QuotaLedger) (h : reservation.bytes ≠ 0) :
    (ledger.claimed reservation).release reservation =
      ledger.setEntry reservation.bucket
        { ledger.entryFor reservation.bucket with
          reservedBytes := take ((ledger.entryFor reservation.bucket).reservedBytes + reservation.bytes)
            reservation.bytes } := by
  have hfind : (ledger.claimed reservation).buckets.find? reservation.bucket =
      some { ledger.entryFor reservation.bucket with
        reservedBytes := (ledger.entryFor reservation.bucket).reservedBytes + reservation.bytes } := by
    rw [claimed, if_neg h]
    exact OrderedMap.find?_insert_self _ _ _
  rw [release, if_pos (held_of_bytes h), giveBack, if_neg h, hfind]
  exact setEntry_claimed ledger (fun _ => rfl) _

theorem buckets_release_claimed_iff (ledger : QuotaLedger) (reservation : Reservation) :
    ((ledger.claimed reservation).release reservation).buckets = ledger.buckets ↔
      ledger.Undoes reservation := by
  by_cases hbytes : reservation.bytes = 0
  · have hnothing : (ledger.claimed reservation).release reservation = ledger := by
      simp [claimed, release, giveBack, hbytes]
    exact iff_of_true (by rw [hnothing]) (Or.inl hbytes)
  · rw [release_claimed ledger hbytes, Undoes, or_iff_right hbytes]
    refine (ledger.buckets_setEntry_eq_iff reservation.bucket fun entry =>
      { entry with
        reservedBytes := take (entry.reservedBytes + reservation.bytes) reservation.bytes }).trans ?_
    refine exists_congr fun entry => and_congr_right fun _ => ?_
    rw [← take_add_eq_iff]
    cases entry
    simp

/-- The tally with the claim consumed. -/
theorem consumeLocked_claimed (ledger : QuotaLedger)
    (h : reservation.held → reservation.bucket = bucket) :
    consumeLocked ((ledger.claimed reservation).entryFor bucket) reservation =
      { ledger.entryFor bucket with
        reservedBytes := take ((ledger.entryFor bucket).reservedBytes + reservation.bytes)
          reservation.bytes } := by
  rw [entryFor_claimed ledger h, consumeLocked]
  split_ifs with hheld
  · rfl
  · have hbytes : reservation.bytes = 0 := reservation.unheld (Bool.not_eq_true _ ▸ hheld)
    have hsame := (take_add_eq_iff (ledger.entryFor bucket).reservedBytes reservation.bytes).mpr (by
      rw [hbytes]
      exact (ledger.entryFor bucket).reservedBytes.toNat_lt)
    rw [hsame, hbytes]
    simp

/-- A tally that is there and keeps what its reservation and its charge were. -/
theorem kept_iff {change : QuotaEntry → QuotaEntry} {Balanced : QuotaEntry → Prop}
    (h : reservation.held → reservation.bucket = bucket)
    (hchange : ∀ entry, change entry = entry ↔
      take (entry.reservedBytes + reservation.bytes) reservation.bytes = entry.reservedBytes ∧
        Balanced entry) :
    (∃ entry, ledger.buckets.find? bucket = some entry ∧ change entry = entry) ↔
      ledger.Undoes reservation ∧
        ∃ entry, ledger.buckets.find? bucket = some entry ∧ Balanced entry := by
  constructor
  · rintro ⟨entry, hfind, hkept⟩
    obtain ⟨hfits, hbalanced⟩ := (hchange entry).mp hkept
    refine ⟨?_, entry, hfind, hbalanced⟩
    by_cases hbytes : reservation.bytes = 0
    · exact Or.inl hbytes
    · exact Or.inr ⟨entry, h (held_of_bytes hbytes) ▸ hfind, (take_add_eq_iff _ _).mp hfits⟩
  · rintro ⟨hundoes, entry, hfind, hbalanced⟩
    refine ⟨entry, hfind, (hchange entry).mpr ⟨(take_add_eq_iff _ _).mpr ?_, hbalanced⟩⟩
    rcases hundoes with hbytes | ⟨claimedEntry, hclaimed, hfits⟩
    · rw [hbytes]
      exact entry.reservedBytes.toNat_lt
    · by_cases hheld : reservation.held = true
      · rw [h hheld, hfind] at hclaimed
        rwa [Option.some.inj hclaimed]
      · rw [reservation.unheld (Bool.not_eq_true _ ▸ hheld)]
        exact entry.reservedBytes.toNat_lt

/-- Recording a write drops its claim and moves one charge. It changes nothing exactly when
the claim could have been given back and the charge stays. -/
theorem buckets_recordObject_claimed_iff (ledger : QuotaLedger)
    (h : reservation.held → reservation.bucket = bucket) (stored replaced : UInt64) :
    ((ledger.claimed reservation).recordObject bucket reservation stored replaced).buckets =
        ledger.buckets ↔
      ledger.Undoes reservation ∧ ∃ entry, ledger.buckets.find? bucket = some entry ∧
        take (entry.usedBytes + stored) replaced = entry.usedBytes := by
  rw [recordObject, consumeLocked_claimed ledger h, setEntry_claimed ledger h]
  refine (ledger.buckets_setEntry_eq_iff bucket fun entry =>
    { entry with
      reservedBytes := take (entry.reservedBytes + reservation.bytes) reservation.bytes
      usedBytes := take (entry.usedBytes + stored) replaced }).trans (kept_iff h fun entry => ?_)
  cases entry
  simp [and_comm]

theorem buckets_recordPart_claimed_iff (ledger : QuotaLedger)
    (h : reservation.held → reservation.bucket = bucket) (stored replaced : UInt64) :
    ((ledger.claimed reservation).recordPart bucket reservation stored replaced).buckets =
        ledger.buckets ↔
      ledger.Undoes reservation ∧ ∃ entry, ledger.buckets.find? bucket = some entry ∧
        take (entry.pendingBytes + stored) replaced = entry.pendingBytes := by
  rw [recordPart, consumeLocked_claimed ledger h, setEntry_claimed ledger h]
  refine (ledger.buckets_setEntry_eq_iff bucket fun entry =>
    { entry with
      reservedBytes := take (entry.reservedBytes + reservation.bytes) reservation.bytes
      pendingBytes := take (entry.pendingBytes + stored) replaced }).trans (kept_iff h fun entry => ?_)
  cases entry
  simp [and_comm]

end Claims

end QuotaLedger

namespace FailedCalls

open FailedWrites

/-! ### What fails -/

/-- What a call throws: an error of the storage, or the exception of the body it streams. -/
inductive Thrown
  | storage (error : StoreError)
  | body (what : Bytes)
  deriving DecidableEq

/-- What fails around a call, in the order of its steps. -/
structure Faults where
  /-- The temporary file cannot be created. -/
  opening : Option Thrown := none
  /-- The marker of the payload cannot be written. -/
  tracking : Disk := none
  /-- The body ends in an error, is too long, or is not what its digest or checksum says; so
  do the parts a completion reads. -/
  streaming : Option Thrown := none
  /-- A row the engine reads cannot be read. -/
  reading : Option Thrown := none
  /-- The payload cannot be flushed, closed or renamed. -/
  payload : Option Thrown := none
  /-- The write of the store's mutation fails, or a read it makes. -/
  storing : Disk := none
  /-- The markers of what the commit released cannot be forgotten. -/
  forgetting : Disk := none
  forgettingParts : Disk := none

/-- Nothing fails before the claim is raised. -/
def Faults.Arrives (faults : Faults) : Prop :=
  faults.opening = none ∧ faults.tracking = none ∧ faults.streaming = none ∧
    faults.reading = none ∧ faults.payload = none

instance (faults : Faults) : Decidable faults.Arrives := by
  unfold Faults.Arrives
  infer_instance

/-! ### Steps of the engine -/

abbrev Call (α : Type) := Throwing StorageEngine Thrown α

def fails (fault : Option Thrown) : Call Unit :=
  match fault with
  | some thrown => throw thrown
  | none => pure ()

/-- Reads and checks of the engine. -/
def inspect {α : Type} (checks : StorageEngine → Except StoreError α) : Call α := do
  match checks (← get) with
  | .ok value => pure value
  | .error error => throw (.storage error)

def onStore {α : Type} (mutation : Mutation α) : Call α :=
  mutation.zoom StorageEngine.metadata (fun metadata engine => { engine with metadata := metadata })
    .storage

def account (change : QuotaLedger → QuotaLedger) : Call Unit :=
  modify fun engine => { engine with quotas := change engine.quotas }

def beginWrite (faults : Faults) (blobId : Bytes) (now : TimestampMs) : Call Unit := do
  fails faults.opening
  onStore (FailedWrites.trackBlob faults.tracking blobId now)

/-- A payload that cannot be unlinked is only warned about. -/
def reclaimNow (disk : Disk) (blobIds : List Bytes) : Call Unit :=
  onStore (FailedWrites.forgetOrphans disk blobIds)

def maxContentHeaderLength : Nat := 1024

def isStorableHeaderValue (value : Bytes) : Bool :=
  value.length ≤ maxContentHeaderLength && value.all fun byte => 0x20 ≤ byte && byte ≠ 0x7F

def areStorableHeaderValues (headers : ContentHeaders) : Bool :=
  isStorableHeaderValue headers.cacheControl.items &&
    isStorableHeaderValue headers.contentDisposition.items &&
    isStorableHeaderValue headers.contentEncoding.items &&
    isStorableHeaderValue headers.contentLanguage.items && isStorableHeaderValue headers.expires.items

def requireStorableContentHeaders (headers : ContentHeaders) : Except StoreError Unit :=
  if areStorableHeaderValues headers then .ok ()
  else
    fail .internal (ascii "a stored response header contains characters that cannot be emitted, " ++
      ascii "or is over " ++ decimal maxContentHeaderLength ++ ascii " bytes")

/-! ### Reservations -/

/-- The engine, and the reservation in the hand of the write. -/
structure Held where
  engine : StorageEngine
  reservation : Reservation := {}

abbrev Holding (α : Type) := Throwing Held Thrown α

def onEngine {α : Type} (call : Call α) : Holding α :=
  call.zoom Held.engine (fun engine held => { held with engine := engine }) id

/-- `QuotaLedger::extend` and, on a reservation just made, `reserveSpace`. -/
def extend (bucket : Bytes) (bytes : UInt64) : Holding Unit := do
  let held ← get
  match held.engine.quotas.extend held.reservation bucket bytes with
  | .ok (quotas, reservation) =>
    set { held with engine := { held.engine with quotas := quotas }, reservation := reservation : Held }
  | .error error => throw (.storage error)

/-- The reservation goes with what is recorded, and is consumed there. -/
def record (settle : QuotaLedger → Bytes → Reservation → UInt64 → UInt64 → QuotaLedger)
    (bucket : Bytes) (storedBytes replacedBytes : UInt64) : Holding Unit :=
  modify fun held =>
    { held with
      engine :=
        { held.engine with
          quotas := settle held.engine.quotas bucket held.reservation storedBytes replacedBytes }
      reservation := {} }

/-- A reservation that goes out of scope gives back what it still holds. -/
def whileHeld (write : Holding Unit) : Call Unit :=
  ExceptT.mk fun engine : StorageEngine =>
    let (answer, held) := write.outcome { engine := engine }
    (answer, held.engine.release held.reservation)

/-! ### Writes -/

/-- What `finishWrite` and `finishPart` share: their checks, the payload's own commit, the claim
raised to what arrived, the row, and the ledger. -/
def finish {β : Type} (faults : Faults) (checks : StorageEngine → Except StoreError β)
    (target : β → Bytes) (size : UInt64) (mutation : Mutation PutOutcome)
    (settle : QuotaLedger → Bytes → Reservation → UInt64 → UInt64 → QuotaLedger) : Holding Unit := do
  let checked ← onEngine (inspect checks)
  onEngine (fails faults.reading)
  onEngine (fails faults.payload)
  extend (target checked) size
  let outcome ← onEngine (onStore mutation)
  record settle (target checked) size outcome.replacedBytes
  onEngine (reclaimNow faults.forgetting outcome.releasedBlobId.toList)

/-- A caller's part: space is reserved, the payload begun and its body streamed. -/
def receive (faults : Faults) (bucket : Bytes) (declared : UInt64) (blobId : Bytes)
    (now : TimestampMs) : Holding Unit := do
  extend bucket declared
  onEngine (beginWrite faults blobId now)
  onEngine (fails faults.streaming)

def checkObject (object : ObjectRecord) (engine : StorageEngine) : Except StoreError Unit := do
  StorageEngine.requireStorableKey object.key
  requireStorableContentHeaders object.content
  engine.requireWithinUploadLimit object.size (ascii "the object")

def finishWrite (faults : Faults) (bucket : Bytes) (object : ObjectRecord) (now : TimestampMs) :
    Holding Unit :=
  finish faults (checkObject object) (fun _ => bucket) object.size
    (FailedWrites.putObject faults.storing bucket object now) QuotaLedger.recordObject

def putObject (faults : Faults) (bucket : Bytes) (object : ObjectRecord) (declared : UInt64)
    (now : TimestampMs) : Call Unit :=
  whileHeld do
    receive faults bucket declared object.blobId.items now
    finishWrite faults bucket object now

def checkPart (uploadId : Bytes) (part : PartRecord) (engine : StorageEngine) :
    Except StoreError UploadRecord := do
  match ← loadUpload engine.metadata.rows uploadId with
  | none => noSuchUpload uploadId
  | some upload =>
    let others ← engine.uploadedPartBytes uploadId part.partNumber
    engine.requireWithinUploadLimit (others + part.size) (ascii "the completed object")
    pure upload

def finishPart (faults : Faults) (uploadId : Bytes) (part : PartRecord) (now : TimestampMs) :
    Holding Unit :=
  finish faults (checkPart uploadId part) (fun upload => upload.bucket.items) part.size
    (FailedWrites.putPart faults.storing uploadId part now) QuotaLedger.recordPart

def putPart (faults : Faults) (bucket uploadId : Bytes) (part : PartRecord) (declared : UInt64)
    (now : TimestampMs) : Call Unit :=
  whileHeld do
    receive faults bucket declared part.blobId.items now
    finishPart faults uploadId part now

/-! ### Calls without a reservation -/

def createBucket (faults : Faults) (name : Bytes) (quotaBytes : UInt64) (now : TimestampMs) :
    Call Unit := do
  inspect fun engine => engine.quotas.admitAllocation quotaBytes
  onStore (FailedWrites.createBucket faults.storing
    { name := name, createdAt := now, quotaBytes := quotaBytes })
  account fun quotas => quotas.track name quotaBytes

def createUpload (faults : Faults) (upload : UploadRecord) : Call Unit := do
  inspect fun _ => requireStorableContentHeaders upload.content
  onStore (FailedWrites.createUpload faults.storing upload)

def completeUpload (faults : Faults) (uploadId : Bytes)
    (requested : List StorageEngine.RequestedPart) (assembled : ObjectRecord) (now : TimestampMs) :
    Call Unit := do
  let (upload, _) ← inspect fun engine => engine.checkManifest uploadId requested
  let object := { assembled with key := upload.key.items }
  fails faults.reading
  beginWrite faults object.blobId.items now
  fails faults.streaming
  fails faults.payload
  let outcome ← onStore
    (FailedWrites.completeUpload faults.storing upload.bucket.items uploadId object now)
  account fun quotas =>
    quotas.recordUploadCompleted upload.bucket.items object.size outcome.replacedBytes
      outcome.releasedPartBytes
  reclaimNow faults.forgetting outcome.releasedBlobId.toList
  reclaimNow faults.forgettingParts outcome.releasedPartBlobIds

/-! ### What a write leaves to undo -/

/-- A write under a reservation, as far as the ledger depends on it. -/
structure Write (β : Type) where
  bucket : Bytes
  declared : UInt64
  checks : StorageEngine → Except StoreError β
  target : β → Bytes
  size : UInt64
  /-- What its mutation reads before it writes. -/
  replaces : Rows → Except StoreError PutOutcome
  /-- The charge it is recorded under. -/
  charge : QuotaEntry → UInt64

section Writes

variable {β : Type} (write : Write β) (faults : Faults) (engine : StorageEngine)

/-- The claim on what was declared. -/
def Write.declaredClaim : Reservation := ({} : Reservation).raise write.bucket write.declared

/-- It raises its claim to what arrived, on this bucket. -/
def Write.Raises (target : Bytes) : Prop :=
  engine.quotas.Allows {} write.bucket write.declared ∧ faults.Arrives ∧
    (∃ checked, write.checks engine = .ok checked ∧ write.target checked = target) ∧
    engine.quotas.Allows write.declaredClaim target write.size

/-- It is committed, and replaces that. -/
def Write.Commits (target : Bytes) (outcome : PutOutcome) : Prop :=
  write.Raises faults engine target ∧ faults.storing = none ∧
    write.replaces engine.metadata.rows = .ok outcome

/-- What it has claimed in the end can be given back, and what it has recorded adds up to
nothing. -/
structure Write.Undone : Prop where
  declared : engine.quotas.Allows {} write.bucket write.declared →
    (∀ target, ¬ write.Raises faults engine target) → engine.quotas.Undoes write.declaredClaim
  raised : ∀ target, write.Raises faults engine target →
    engine.quotas.Undoes (write.declaredClaim.raise target write.size)
  recorded : ∀ target outcome, write.Commits faults engine target outcome →
    ∃ entry, engine.quotas.buckets.find? target = some entry ∧
      take (write.charge entry + write.size) outcome.replacedBytes = write.charge entry

variable {write faults engine} {target : Bytes} {outcome : PutOutcome}

theorem Write.Raises.unique {other : Bytes} (h : write.Raises faults engine target)
    (hother : write.Raises faults engine other) : other = target := by
  obtain ⟨-, -, ⟨checked, hchecked, rfl⟩, -⟩ := h
  obtain ⟨-, -, ⟨again, hagain, rfl⟩, -⟩ := hother
  rw [hchecked] at hagain
  rw [Except.ok.inj hagain]

/-- It claims nothing. -/
theorem Write.undone_of_refused (h : ¬ engine.quotas.Allows {} write.bucket write.declared) :
    write.Undone faults engine where
  declared hallows := absurd hallows h
  raised _ hraises := absurd hraises.1 h
  recorded _ _ hcommits := absurd hcommits.1.1 h

theorem Write.undone_iff_of_not_raises
    (hallows : engine.quotas.Allows {} write.bucket write.declared)
    (h : ∀ target, ¬ write.Raises faults engine target) :
    write.Undone faults engine ↔ engine.quotas.Undoes write.declaredClaim where
  mp hundone := hundone.declared hallows h
  mpr hundoes :=
    { declared := fun _ _ => hundoes
      raised := fun target hraises => absurd hraises (h target)
      recorded := fun target _ hcommits => absurd hcommits.1 (h target) }

theorem Write.undone_iff_of_raises (hraises : write.Raises faults engine target)
    (h : ∀ outcome, ¬ write.Commits faults engine target outcome) :
    write.Undone faults engine ↔
      engine.quotas.Undoes (write.declaredClaim.raise target write.size) where
  mp hundone := hundone.raised target hraises
  mpr hundoes :=
    { declared := fun _ hnone => absurd hraises (hnone target)
      raised := fun _ hother => hraises.unique hother ▸ hundoes
      recorded := fun _ outcome hcommits =>
        absurd (hraises.unique hcommits.1 ▸ hcommits) (h outcome) }

theorem Write.undone_iff_of_commits (h : write.Commits faults engine target outcome) :
    write.Undone faults engine ↔
      engine.quotas.Undoes (write.declaredClaim.raise target write.size) ∧
        ∃ entry, engine.quotas.buckets.find? target = some entry ∧
          take (write.charge entry + write.size) outcome.replacedBytes = write.charge entry where
  mp hundone := ⟨hundone.raised target h.1, hundone.recorded target outcome h⟩
  mpr hboth :=
    { declared := fun _ hnone => absurd h.1 (hnone target)
      raised := fun _ hother => h.1.unique hother ▸ hboth.1
      recorded := fun _ _ hcommits => by
        obtain rfl := h.1.unique hcommits.1
        obtain rfl := Except.ok.inj (hcommits.2.2.symm.trans h.2.2)
        exact hboth.2 }

end Writes

/-! ### Outcomes of the steps -/

section Steps

variable {α β : Type} {engine : StorageEngine} {held after : Held} {quotas : QuotaLedger}
  {faults : Faults} {error : Thrown}

theorem outcome_fails (fault : Option Thrown) (engine : StorageEngine) :
    (fails fault).outcome engine = (fault.elim (.ok ()) .error, engine) := by
  cases fault <;> rfl

theorem outcome_inspect (checks : StorageEngine → Except StoreError α) (engine : StorageEngine) :
    (inspect checks).outcome engine = ((checks engine).mapError .storage, engine) := by
  show (match checks engine with
    | .ok value => pure value
    | .error error => throw (.storage error) : Call α).outcome engine = _
  cases checks engine <;> rfl

theorem outcome_onStore (mutation : Mutation α) (engine : StorageEngine) :
    (onStore mutation).outcome engine =
      ((mutation.outcome engine.metadata).1.mapError .storage,
        { engine with metadata := (mutation.outcome engine.metadata).2 }) := by
  rw [onStore, Throwing.outcome_zoom]
  rcases mutation.outcome engine.metadata with ⟨_ | _, _⟩ <;> rfl

theorem outcome_onEngine (call : Call α) (held : Held) :
    (onEngine call).outcome held =
      ((call.outcome held.engine).1, { held with engine := (call.outcome held.engine).2 }) := by
  rw [onEngine, Throwing.outcome_zoom]
  rcases call.outcome held.engine with ⟨_ | _, _⟩ <;> rfl

theorem outcome_whileHeld (write : Holding Unit) (engine : StorageEngine) :
    (whileHeld write).outcome engine =
      ((write.outcome { engine := engine }).1,
        (write.outcome { engine := engine }).2.engine.release
          (write.outcome { engine := engine }).2.reservation) := rfl

/-- A claim raised beside an engine whose ledger carries it. -/
theorem outcome_extend (hclaimed : held.engine.quotas = quotas.claimed held.reservation)
    (bucket : Bytes) (bytes : UInt64) :
    (quotas.Allows held.reservation bucket bytes ∧
        (extend bucket bytes).outcome held =
          (.ok (),
            { engine :=
                { held.engine with quotas := quotas.claimed (held.reservation.raise bucket bytes) }
              reservation := held.reservation.raise bucket bytes })) ∨
      (¬ quotas.Allows held.reservation bucket bytes ∧
        ∃ error, (extend bucket bytes).outcome held = (.error error, held)) := by
  have houtcome : (extend bucket bytes).outcome held =
      (match held.engine.quotas.extend held.reservation bucket bytes with
        | .ok (quotas, reservation) =>
          set { held with
            engine := { held.engine with quotas := quotas }
            reservation := reservation : Held }
        | .error error => throw (.storage error) : Holding Unit).outcome held := rfl
  rw [houtcome, hclaimed]
  rcases quotas.extend_claimed held.reservation bucket bytes with
    ⟨hallows, hextend⟩ | ⟨hrefused, error, hextend⟩
  · rw [hextend]
    exact Or.inl ⟨hallows, rfl⟩
  · rw [hextend]
    exact Or.inr ⟨hrefused, _, rfl⟩

/-- A payload is begun, or what was to begin it failed. -/
theorem outcome_beginWrite (faults : Faults) (blobId : Bytes) (now : TimestampMs)
    (engine : StorageEngine) :
    (faults.opening = none ∧ faults.tracking = none ∧
        (beginWrite faults blobId now).outcome engine = (.ok (), engine.trackBlob blobId now)) ∨
      (¬ (faults.opening = none ∧ faults.tracking = none) ∧
        ∃ error, (beginWrite faults blobId now).outcome engine = (.error error, engine)) := by
  rw [beginWrite, Throwing.outcome_bind, outcome_fails]
  cases hopening : faults.opening with
  | some thrown => exact Or.inr ⟨fun h => (by cases h.1), _, rfl⟩
  | none =>
      dsimp only [Option.elim]
      rw [outcome_onStore]
      cases htracking : faults.tracking with
      | some status => exact Or.inr ⟨fun h => (by cases h.2), _, rfl⟩
      | none => exact Or.inl ⟨rfl, rfl, rfl⟩

/-- Space was claimed and the payload arrived, or something failed on the way. -/
theorem receive_cases (faults : Faults) (bucket : Bytes) (declared : UInt64) (blobId : Bytes)
    (now : TimestampMs) (engine : StorageEngine) {answer : Except Thrown Unit}
    (h : (receive faults bucket declared blobId now).outcome { engine := engine } = (answer, held)) :
    (¬ engine.quotas.Allows {} bucket declared ∧ held = { engine := engine } ∧
        ∃ error, answer = .error error) ∨
      (engine.quotas.Allows {} bucket declared ∧
        held.reservation = ({} : Reservation).raise bucket declared ∧
        held.engine.quotas = engine.quotas.claimed held.reservation ∧
        (¬ (faults.opening = none ∧ faults.tracking = none ∧ faults.streaming = none) ∧
            (∃ error, answer = .error error) ∨
          (faults.opening = none ∧ faults.tracking = none ∧ faults.streaming = none) ∧
            answer = .ok () ∧
            held.engine = { engine.trackBlob blobId now with quotas := held.engine.quotas })) := by
  have hclaimed : ({ engine := engine } : Held).engine.quotas =
      engine.quotas.claimed ({ engine := engine } : Held).reservation := rfl
  rw [receive, Throwing.outcome_bind] at h
  rcases outcome_extend hclaimed bucket declared with ⟨hallows, hextend⟩ | ⟨hrefused, error, hextend⟩
  · rw [hextend] at h
    dsimp only at h
    rw [Throwing.outcome_bind, outcome_onEngine] at h
    rcases outcome_beginWrite faults blobId now
        { engine with quotas := engine.quotas.claimed (({} : Reservation).raise bucket declared) } with
      ⟨hopening, htracking, hbegin⟩ | ⟨hfaulty, error, hbegin⟩
    · rw [hbegin] at h
      dsimp only at h
      rw [outcome_onEngine, outcome_fails] at h
      obtain ⟨rfl, rfl⟩ := Prod.mk.inj h
      refine Or.inr ⟨hallows, rfl, rfl, ?_⟩
      cases hstreaming : faults.streaming with
      | some thrown => exact Or.inl ⟨fun h => (nomatch h.2.2), _, rfl⟩
      | none => exact Or.inr ⟨⟨hopening, htracking, rfl⟩, rfl, rfl⟩
    · rw [hbegin] at h
      obtain ⟨rfl, rfl⟩ := Prod.mk.inj h
      exact Or.inr ⟨hallows, rfl, rfl, Or.inl ⟨fun h => hfaulty ⟨h.1, h.2.1⟩, _, rfl⟩⟩
  · rw [hextend] at h
    obtain ⟨rfl, rfl⟩ := Prod.mk.inj h
    exact Or.inl ⟨hrefused, rfl, _, rfl⟩

/-- What a mutation that publishes a payload answers: what it read of the one it replaces, if
nothing failed. -/
def Publishes (mutation : Mutation PutOutcome) (disk : Disk)
    (replaces : Rows → Except StoreError PutOutcome) : Prop :=
  ∀ store,
    (disk = none ∧ ∃ outcome next, replaces store.rows = .ok outcome ∧
        mutation.outcome store = (.ok outcome, next)) ∨
      ((∀ outcome, ¬ (disk = none ∧ replaces store.rows = .ok outcome)) ∧
        ∃ error next, mutation.outcome store = (.error error, next))

/-- Where a finishing call throws, and what claim it then holds. -/
theorem thrown_of_finish {checks : StorageEngine → Except StoreError β} {target : β → Bytes}
    {size : UInt64} {mutation : Mutation PutOutcome}
    {settle : QuotaLedger → Bytes → Reservation → UInt64 → UInt64 → QuotaLedger}
    {replaces : Rows → Except StoreError PutOutcome}
    (hmutation : Publishes mutation faults.storing replaces)
    (hclaimed : held.engine.quotas = quotas.claimed held.reservation)
    (h : (finish faults checks target size mutation settle).outcome held = (.error error, after)) :
    (after.engine.quotas = quotas.claimed after.reservation ∧ after.reservation = held.reservation ∧
        ∀ checked, ¬ (checks held.engine = .ok checked ∧ faults.reading = none ∧
          faults.payload = none ∧ quotas.Allows held.reservation (target checked) size)) ∨
      ∃ checked, (checks held.engine = .ok checked ∧ faults.reading = none ∧
          faults.payload = none ∧ quotas.Allows held.reservation (target checked) size) ∧
        ((after.engine.quotas = quotas.claimed after.reservation ∧
            after.reservation = held.reservation.raise (target checked) size ∧
            ∀ outcome, ¬ (faults.storing = none ∧ replaces held.engine.metadata.rows = .ok outcome)) ∨
          ∃ outcome, faults.storing = none ∧ replaces held.engine.metadata.rows = .ok outcome ∧
            after.reservation = {} ∧
            after.engine.quotas =
              settle (quotas.claimed (held.reservation.raise (target checked) size)) (target checked)
                (held.reservation.raise (target checked) size) size outcome.replacedBytes) := by
  rw [finish, Throwing.outcome_bind, outcome_onEngine, outcome_inspect] at h
  cases hchecks : checks held.engine with
  | error refused =>
      rw [hchecks] at h
      obtain ⟨-, rfl⟩ := Prod.mk.inj h
      exact Or.inl ⟨hclaimed, rfl, fun checked hall => nomatch hall.1⟩
  | ok checked =>
      rw [hchecks] at h
      dsimp only [Except.mapError] at h
      rw [Throwing.outcome_bind, outcome_onEngine, outcome_fails] at h
      cases hreading : faults.reading with
      | some thrown =>
          rw [hreading] at h
          obtain ⟨-, rfl⟩ := Prod.mk.inj h
          exact Or.inl ⟨hclaimed, rfl, fun other hall => nomatch hall.2.1⟩
      | none =>
          rw [hreading] at h
          dsimp only [Option.elim] at h
          rw [Throwing.outcome_bind, outcome_onEngine, outcome_fails] at h
          cases hpayload : faults.payload with
          | some thrown =>
              rw [hpayload] at h
              obtain ⟨-, rfl⟩ := Prod.mk.inj h
              exact Or.inl ⟨hclaimed, rfl, fun other hall => nomatch hall.2.2.1⟩
          | none =>
              rw [hpayload] at h
              dsimp only [Option.elim] at h
              rw [Throwing.outcome_bind] at h
              rcases outcome_extend hclaimed (target checked) size with
                ⟨hallows, hextend⟩ | ⟨hrefused, refused, hextend⟩
              · rw [hextend] at h
                dsimp only at h
                refine Or.inr ⟨checked, ⟨rfl, rfl, rfl, hallows⟩, ?_⟩
                rw [Throwing.outcome_bind, outcome_onEngine, outcome_onStore] at h
                rcases hmutation held.engine.metadata with
                  ⟨hdisk, outcome, stored, hreplaces, hmutated⟩ | ⟨hfaulty, refused, stored, hmutated⟩
                · rw [hmutated] at h
                  dsimp only [Except.mapError] at h
                  rw [Throwing.outcome_bind] at h
                  refine Or.inr ⟨outcome, hdisk, hreplaces, ?_⟩
                  have hrecorded := (Prod.mk.inj ((outcome_onEngine _ _).symm.trans h)).2
                  rw [← hrecorded]
                  exact ⟨rfl, congrArg StorageEngine.quotas (congrArg Prod.snd (outcome_onStore _ _))⟩
                · rw [hmutated] at h
                  obtain ⟨-, rfl⟩ := Prod.mk.inj h
                  exact Or.inl ⟨rfl, rfl, hfaulty⟩
              · rw [hextend] at h
                obtain ⟨-, rfl⟩ := Prod.mk.inj h
                refine Or.inl ⟨hclaimed, rfl, fun other hall => hrefused ?_⟩
                rw [Except.ok.inj hall.1]
                exact hall.2.2.2

/-- A call under a reservation that throws leaves the ledger as it was exactly when there is
nothing to undo, or undoing it works. -/
theorem buckets_eq_iff_undone {write : Write β} {blobId : Bytes} {now : TimestampMs}
    {next : StorageEngine} {mutation : Mutation PutOutcome}
    {settle : QuotaLedger → Bytes → Reservation → UInt64 → UInt64 → QuotaLedger}
    (hmutation : Publishes mutation faults.storing write.replaces)
    (hsettle : ∀ target reservation replaced, (reservation.held → reservation.bucket = target) →
      ((settle (engine.quotas.claimed reservation) target reservation write.size replaced).buckets =
          engine.quotas.buckets ↔
        engine.quotas.Undoes reservation ∧ ∃ entry, engine.quotas.buckets.find? target = some entry ∧
          take (write.charge entry + write.size) replaced = write.charge entry))
    (hchecks : ∀ quotas, write.checks { engine.trackBlob blobId now with quotas := quotas } =
      write.checks engine)
    (hreplaces : write.replaces (engine.trackBlob blobId now).metadata.rows =
      write.replaces engine.metadata.rows)
    (h : (whileHeld do
        receive faults write.bucket write.declared blobId now
        finish faults write.checks write.target write.size mutation settle).outcome engine =
      (.error error, next)) :
    next.quotas.buckets = engine.quotas.buckets ↔ write.Undone faults engine := by
  rw [outcome_whileHeld] at h
  obtain ⟨hanswer, rfl⟩ := Prod.mk.inj h
  generalize hheld : Throwing.outcome _ _ = thrown at hanswer ⊢
  obtain ⟨answer, held⟩ := thrown
  obtain rfl : answer = .error error := hanswer
  rcases Throwing.thrown_of_bind hheld with hreceive | ⟨⟨⟩, middle, hreceived, hfinish⟩
  · rcases receive_cases _ _ _ _ _ _ hreceive with
      ⟨hrefused, rfl, -⟩ | ⟨hallows, hreservation, hclaimed, ⟨hfaulty, -⟩ | ⟨-, hanswer, -⟩⟩
    · exact iff_of_true rfl (Write.undone_of_refused hrefused)
    · rw [Write.undone_iff_of_not_raises hallows fun target hraises =>
        hfaulty ⟨hraises.2.1.1, hraises.2.1.2.1, hraises.2.1.2.2.1⟩, Write.declaredClaim,
        ← hreservation, ← QuotaLedger.buckets_release_claimed_iff, ← hclaimed]
      rfl
    · cases hanswer
  · rcases receive_cases _ _ _ _ _ _ hreceived with
      ⟨-, -, refused, hanswer⟩ |
        ⟨hallows, hreservation, hclaimed, ⟨-, refused, hanswer⟩ | ⟨hbegun, -, hengine⟩⟩
    · cases hanswer
    · cases hanswer
    · have hmiddle : write.checks middle.engine = write.checks engine := by rw [hengine, hchecks]
      have hrows : write.replaces middle.engine.metadata.rows =
          write.replaces engine.metadata.rows := by rw [hengine, ← hreplaces]
      have hraises : ∀ checked, write.checks middle.engine = .ok checked → faults.reading = none →
          faults.payload = none →
          engine.quotas.Allows middle.reservation (write.target checked) write.size →
          write.Raises faults engine (write.target checked) := by
        intro checked hchecked hreading hpayload hraise
        refine ⟨hallows, ⟨hbegun.1, hbegun.2.1, hbegun.2.2, hreading, hpayload⟩,
          ⟨checked, hmiddle ▸ hchecked, rfl⟩, ?_⟩
        rw [Write.declaredClaim, ← hreservation]
        exact hraise
      rcases thrown_of_finish hmutation hclaimed hfinish with
        ⟨hafter, hkept, hnone⟩ | ⟨checked, ⟨hchecked, hreading, hpayload, hraise⟩, hlater⟩
      · rw [Write.undone_iff_of_not_raises hallows, Write.declaredClaim, ← hreservation, ← hkept,
          ← QuotaLedger.buckets_release_claimed_iff, ← hafter]
        · rfl
        · rintro target ⟨-, harrives, ⟨checked, hchecked, rfl⟩, hraise⟩
          refine hnone checked ⟨hmiddle.trans hchecked, harrives.2.2.2.1, harrives.2.2.2.2, ?_⟩
          rw [hreservation]
          exact hraise
      · have hraised := hraises checked hchecked hreading hpayload hraise
        rcases hlater with ⟨hafter, hclaim, hfailed⟩ | ⟨outcome, hstoring, hread, hempty, hafter⟩
        · rw [Write.undone_iff_of_raises hraised fun outcome hcommits =>
            hfailed outcome ⟨hcommits.2.1, hrows.trans hcommits.2.2⟩, Write.declaredClaim,
            ← hreservation, ← hclaim, ← QuotaLedger.buckets_release_claimed_iff, ← hafter]
          rfl
        · have hcommits : write.Commits faults engine (write.target checked) outcome :=
            ⟨hraised, hstoring, hrows ▸ hread⟩
          rw [Write.undone_iff_of_commits hcommits, Write.declaredClaim, ← hreservation,
            ← hsettle (write.target checked) _ outcome.replacedBytes, ← hafter]
          · show (held.engine.quotas.release held.reservation).buckets = _ ↔ _
            rw [hempty]
            exact Iff.rfl
          · intro hheldClaim
            rw [Reservation.raise] at hheldClaim ⊢
            split_ifs at hheldClaim ⊢
            · exact hraise.1 hheldClaim
            · rfl

end Steps

/-! ### What is read past a new marker -/

section Markers

variable {rows earlier : Rows}

theorem requireBucket_of_markers (hrows : OnlyMarkers earlier rows) (bucket : Bytes) :
    requireBucket rows bucket = requireBucket earlier bucket := by
  rw [requireBucket, requireBucket, find?_of_markers hrows (by
    simp [Keys.bucket, Keys.tagged, Keys.kBucket, Keys.kOrphan])]

theorem loadObject_of_markers (hrows : OnlyMarkers earlier rows) (bucket key : Bytes) :
    loadObject rows (Keys.object bucket key) key = loadObject earlier (Keys.object bucket key) key :=
  readRow_congr (find?_of_markers hrows (by
    simp [Keys.object, Keys.objectPrefix, Keys.kObject, Keys.kOrphan]))

theorem loadPart_of_markers (hrows : OnlyMarkers earlier rows) (uploadId : Bytes) (number : UInt32) :
    loadPart rows uploadId number = loadPart earlier uploadId number :=
  readRow_congr (find?_of_markers hrows (by
    simp [Keys.part, Keys.partPrefix, Keys.kPart, Keys.kOrphan]))

theorem collectParts_of_markers (hrows : OnlyMarkers earlier rows) (uploadId : Bytes) :
    collectParts rows uploadId = collectParts earlier uploadId := by
  rw [collectParts, collectParts, Rows.scan_congr fun key hkey => find?_of_markers hrows ?_]
  obtain ⟨rest, rfl⟩ := hkey
  simp [Keys.partPrefix, Keys.kPart, Keys.kOrphan]

theorem listParts_of_markers (hrows : OnlyMarkers earlier rows) (uploadId : Bytes) :
    listParts rows uploadId = listParts earlier uploadId := by
  rw [listParts, listParts, loadUpload_of_markers hrows, collectParts_of_markers hrows]

end Markers

/-! ### Objects and parts -/

/-- What a put of an object replaces. -/
def replacedObject (bucket : Bytes) (object : ObjectRecord) (rows : Rows) :
    Except StoreError PutOutcome :=
  (previousObject rows bucket object).map PutOutcome.ofObject

def replacedPart (uploadId : Bytes) (part : PartRecord) (rows : Rows) :
    Except StoreError PutOutcome :=
  (previousPart rows uploadId part).map PutOutcome.ofPart

def objectWrite (bucket : Bytes) (object : ObjectRecord) (declared : UInt64) : Write Unit where
  bucket := bucket
  declared := declared
  checks := checkObject object
  target _ := bucket
  size := object.size
  replaces := replacedObject bucket object
  charge := QuotaEntry.usedBytes

/-- Its space is reserved on one bucket, and claimed on the upload's. -/
def partWrite (bucket uploadId : Bytes) (part : PartRecord) (declared : UInt64) :
    Write UploadRecord where
  bucket := bucket
  declared := declared
  checks := checkPart uploadId part
  target upload := upload.bucket.items
  size := part.size
  replaces := replacedPart uploadId part
  charge := QuotaEntry.pendingBytes

section Publishing

variable {engine next : StorageEngine} {faults : Faults} {error : Thrown} {now : TimestampMs}

theorem publishes_putObject (disk : Disk) (bucket : Bytes) (object : ObjectRecord)
    (now : TimestampMs) :
    Publishes (FailedWrites.putObject disk bucket object now) disk (replacedObject bucket object) := by
  intro store
  rw [FailedWrites.putObject, Throwing.outcome_bind, outcome_read, replacedObject]
  cases previousObject store.rows bucket object with
  | error refused => exact Or.inr ⟨fun outcome h => (by cases h.2), _, _, rfl⟩
  | ok previous =>
      dsimp only
      rw [Throwing.outcome_bind, outcome_countPublishing]
      cases disk with
      | some status => exact Or.inr ⟨fun outcome h => (by cases h.1), _, _, rfl⟩
      | none => exact Or.inl ⟨rfl, _, _, rfl, rfl⟩

theorem publishes_putPart (disk : Disk) (uploadId : Bytes) (part : PartRecord) (now : TimestampMs) :
    Publishes (FailedWrites.putPart disk uploadId part now) disk (replacedPart uploadId part) := by
  intro store
  rw [FailedWrites.putPart, Throwing.outcome_bind, outcome_read, replacedPart]
  cases previousPart store.rows uploadId part with
  | error refused => exact Or.inr ⟨fun outcome h => (by cases h.2), _, _, rfl⟩
  | ok previous =>
      dsimp only
      rw [Throwing.outcome_bind, outcome_countPart]
      cases disk with
      | some status => exact Or.inr ⟨fun outcome h => (by cases h.1), _, _, rfl⟩
      | none => exact Or.inl ⟨rfl, _, _, rfl, rfl⟩

theorem buckets_putObject_eq_iff {bucket : Bytes} {object : ObjectRecord} {declared : UInt64}
    (h : (putObject faults bucket object declared now).outcome engine = (.error error, next)) :
    next.quotas.buckets = engine.quotas.buckets ↔
      (objectWrite bucket object declared).Undone faults engine := by
  have hmarkers := markers_trackBlob engine object.blobId.items now
  refine buckets_eq_iff_undone (publishes_putObject _ _ _ now) ?_ (fun _ => rfl) ?_ h
  · rintro target reservation replaced hbucket
    exact QuotaLedger.buckets_recordObject_claimed_iff _ hbucket _ _
  · show replacedObject _ _ _ = replacedObject _ _ _
    rw [replacedObject, replacedObject, previousObject, previousObject,
      requireBucket_of_markers hmarkers, loadObject_of_markers hmarkers]

theorem buckets_putPart_eq_iff {bucket uploadId : Bytes} {part : PartRecord} {declared : UInt64}
    (h : (putPart faults bucket uploadId part declared now).outcome engine = (.error error, next)) :
    next.quotas.buckets = engine.quotas.buckets ↔
      (partWrite bucket uploadId part declared).Undone faults engine := by
  have hmarkers := markers_trackBlob engine part.blobId.items now
  refine buckets_eq_iff_undone (publishes_putPart _ _ _ now) ?_ ?_ ?_ h
  · rintro target reservation replaced hbucket
    exact QuotaLedger.buckets_recordPart_claimed_iff _ hbucket _ _
  · intro quotas
    show checkPart uploadId part { engine.trackBlob part.blobId.items now with quotas := quotas } =
      checkPart uploadId part engine
    simp only [checkPart, StorageEngine.uploadedPartBytes, loadUpload_of_markers hmarkers,
      listParts_of_markers hmarkers]
    rfl
  · show replacedPart _ _ _ = replacedPart _ _ _
    rw [replacedPart, replacedPart, previousPart, previousPart, loadUpload_of_markers hmarkers,
      loadPart_of_markers hmarkers]

end Publishing

/-! ### Completions -/

/-- What a completion replaces and releases. -/
def completed (bucket uploadId : Bytes) (object : ObjectRecord) (rows : Rows) :
    Except StoreError CompleteOutcome := do
  let (_, previous) ← uploadAndPrevious rows bucket uploadId object
  let parts ← collectParts rows uploadId
  pure (CompleteOutcome.ofRead previous parts)

/-- The completion is committed, in this upload's bucket. -/
def Completes (faults : Faults) (engine : StorageEngine) (uploadId : Bytes)
    (requested : List StorageEngine.RequestedPart) (assembled : ObjectRecord)
    (upload : UploadRecord) (outcome : CompleteOutcome) : Prop :=
  (∃ ordered, engine.checkManifest uploadId requested = .ok (upload, ordered)) ∧ faults.Arrives ∧
    faults.storing = none ∧
    completed upload.bucket.items uploadId { assembled with key := upload.key.items }
      engine.metadata.rows = .ok outcome

/-- What it has recorded, if it has, adds up to nothing. -/
def CompletionUndone (faults : Faults) (engine : StorageEngine) (uploadId : Bytes)
    (requested : List StorageEngine.RequestedPart) (assembled : ObjectRecord) : Prop :=
  ∀ upload outcome, Completes faults engine uploadId requested assembled upload outcome →
    ∃ entry, engine.quotas.buckets.find? upload.bucket.items = some entry ∧
      take entry.pendingBytes outcome.releasedPartBytes = entry.pendingBytes ∧
      take (entry.usedBytes + assembled.size) outcome.replacedBytes = entry.usedBytes

section Completions

variable {engine next : StorageEngine} {faults : Faults} {error : Thrown} {now : TimestampMs}
  {uploadId : Bytes} {requested : List StorageEngine.RequestedPart} {assembled : ObjectRecord}

theorem completed_cases (disk : Disk) (bucket uploadId : Bytes) (object : ObjectRecord)
    (now : TimestampMs) (store : MetadataStore) :
    (disk = none ∧ ∃ outcome next, completed bucket uploadId object store.rows = .ok outcome ∧
        (FailedWrites.completeUpload disk bucket uploadId object now).outcome store =
          (.ok outcome, next)) ∨
      ((∀ outcome, ¬ (disk = none ∧ completed bucket uploadId object store.rows = .ok outcome)) ∧
        ∃ error next, (FailedWrites.completeUpload disk bucket uploadId object now).outcome store =
          (.error error, next)) := by
  rw [FailedWrites.completeUpload, Throwing.outcome_bind, outcome_read, completed]
  cases uploadAndPrevious store.rows bucket uploadId object with
  | error refused => exact Or.inr ⟨fun outcome h => (by cases h.2), _, _, rfl⟩
  | ok found =>
      dsimp only
      rw [Throwing.outcome_bind, outcome_countPublishing]
      dsimp only
      rw [Throwing.outcome_bind, outcome_read]
      dsimp only
      cases hparts : collectParts store.rows uploadId with
      | error refused => exact Or.inr ⟨fun outcome h => (by cases h.2), _, _, rfl⟩
      | ok parts =>
          cases disk with
          | some status => exact Or.inr ⟨fun outcome h => (by cases h.1), _, _, rfl⟩
          | none => exact Or.inl ⟨rfl, _, _, rfl, rfl⟩

theorem completed_of_markers {rows earlier : Rows} (hrows : OnlyMarkers earlier rows)
    (bucket uploadId : Bytes) (object : ObjectRecord) :
    completed bucket uploadId object rows = completed bucket uploadId object earlier := by
  rw [completed, completed, uploadAndPrevious, uploadAndPrevious, requireBucket_of_markers hrows,
    loadUpload_of_markers hrows, loadObject_of_markers hrows, collectParts_of_markers hrows]

/-- Recording a completion changes nothing exactly when both its charges stay. -/
theorem buckets_recordUploadCompleted_eq_iff (ledger : QuotaLedger) (bucket : Bytes)
    (storedBytes replacedBytes releasedPartBytes : UInt64) :
    (ledger.recordUploadCompleted bucket storedBytes replacedBytes releasedPartBytes).buckets =
        ledger.buckets ↔
      ∃ entry, ledger.buckets.find? bucket = some entry ∧
        take entry.pendingBytes releasedPartBytes = entry.pendingBytes ∧
        take (entry.usedBytes + storedBytes) replacedBytes = entry.usedBytes := by
  refine (ledger.buckets_setEntry_eq_iff bucket fun entry =>
    { entry with
      pendingBytes := take entry.pendingBytes releasedPartBytes
      usedBytes := take (entry.usedBytes + storedBytes) replacedBytes }).trans ?_
  refine exists_congr fun entry => and_congr_right fun _ => ?_
  cases entry
  simp [and_comm]

/-- A reclamation does not touch the ledger. -/
theorem quotas_of_reclaimNow {disk : Disk} {blobIds : List Bytes} {answer : Except Thrown Unit}
    (h : (reclaimNow disk blobIds).outcome engine = (answer, next)) :
    next.quotas = engine.quotas := by
  rw [reclaimNow, outcome_onStore] at h
  rw [← (Prod.mk.inj h).2]

/-- A completion's payload is put together, or something failed before that. -/
theorem assemble_cases {rest : Call Unit} {blobId : Bytes} {answer : Except Thrown Unit}
    (h : (do
        fails faults.reading
        beginWrite faults blobId now
        fails faults.streaming
        fails faults.payload
        rest : Call Unit).outcome engine = (answer, next)) :
    (¬ faults.Arrives ∧ next.quotas = engine.quotas) ∨
      (faults.Arrives ∧ rest.outcome (engine.trackBlob blobId now) = (answer, next)) := by
  rw [Throwing.outcome_bind, outcome_fails] at h
  cases hreading : faults.reading with
  | some thrown =>
      rw [hreading] at h
      obtain ⟨-, rfl⟩ := Prod.mk.inj h
      exact Or.inl ⟨fun hall => absurd hall.2.2.2.1 (by simp [hreading]), rfl⟩
  | none =>
      rw [hreading] at h
      dsimp only [Option.elim] at h
      rw [Throwing.outcome_bind] at h
      rcases outcome_beginWrite faults blobId now engine with
        ⟨hopening, htracking, hbegin⟩ | ⟨hfaulty, refused, hbegin⟩
      · rw [hbegin] at h
        dsimp only at h
        rw [Throwing.outcome_bind, outcome_fails] at h
        cases hstreaming : faults.streaming with
        | some thrown =>
            rw [hstreaming] at h
            obtain ⟨-, rfl⟩ := Prod.mk.inj h
            exact Or.inl ⟨fun hall => absurd hall.2.2.1 (by simp [hstreaming]), rfl⟩
        | none =>
            rw [hstreaming] at h
            dsimp only [Option.elim] at h
            rw [Throwing.outcome_bind, outcome_fails] at h
            cases hpayload : faults.payload with
            | some thrown =>
                rw [hpayload] at h
                obtain ⟨-, rfl⟩ := Prod.mk.inj h
                exact Or.inl ⟨fun hall => absurd hall.2.2.2.2 (by simp [hpayload]), rfl⟩
            | none =>
                rw [hpayload] at h
                exact Or.inr ⟨⟨hopening, htracking, hstreaming, hreading, hpayload⟩, h⟩
      · rw [hbegin] at h
        obtain ⟨-, rfl⟩ := Prod.mk.inj h
        exact Or.inl ⟨fun hall => hfaulty ⟨hall.1, hall.2.1⟩, rfl⟩

/-- Where a completion throws. -/
theorem thrown_of_completeUpload
    (h : (completeUpload faults uploadId requested assembled now).outcome engine =
      (.error error, next)) :
    (next.quotas = engine.quotas ∧
        ∀ upload outcome, ¬ Completes faults engine uploadId requested assembled upload outcome) ∨
      ∃ upload outcome, Completes faults engine uploadId requested assembled upload outcome ∧
        next.quotas = engine.quotas.recordUploadCompleted upload.bucket.items assembled.size
          outcome.replacedBytes outcome.releasedPartBytes := by
  rw [completeUpload, Throwing.outcome_bind, outcome_inspect] at h
  cases hmanifest : engine.checkManifest uploadId requested with
  | error refused =>
      rw [hmanifest] at h
      obtain ⟨-, rfl⟩ := Prod.mk.inj h
      refine Or.inl ⟨rfl, fun upload outcome hcompletes => ?_⟩
      obtain ⟨ordered, hordered⟩ := hcompletes.1
      cases hmanifest.symm.trans hordered
  | ok checked =>
      obtain ⟨upload, ordered⟩ := checked
      have hsame : ∀ {other outcome}, Completes faults engine uploadId requested assembled other outcome →
          other = upload := by
        rintro other outcome ⟨⟨found, hfound⟩, -⟩
        exact (Prod.mk.inj (Except.ok.inj (hfound.symm.trans hmanifest))).1
      rw [hmanifest] at h
      dsimp only [Except.mapError] at h
      rcases assemble_cases h with ⟨hfaulty, hkept⟩ | ⟨harrives, h⟩
      · exact Or.inl ⟨hkept, fun _ _ hcompletes => hfaulty hcompletes.2.1⟩
      · have hmarkers := markers_trackBlob engine assembled.blobId.items now
        rw [Throwing.outcome_bind, outcome_onStore] at h
        rcases completed_cases faults.storing upload.bucket.items uploadId
            { assembled with key := upload.key.items } now
            (engine.trackBlob assembled.blobId.items now).metadata with
          ⟨hstoring, outcome, stored, hread, hcompleted⟩ | ⟨hfailed, refused, stored, hcompleted⟩
        · rw [hcompleted] at h
          rw [completed_of_markers hmarkers] at hread
          refine Or.inr ⟨upload, outcome, ⟨⟨ordered, hmanifest⟩, harrives, hstoring, hread⟩, ?_⟩
          rcases Throwing.thrown_of_bind h with haccount | ⟨⟨⟩, settled, haccount, h⟩
          · cases (Prod.mk.inj haccount).1
          · obtain ⟨-, rfl⟩ := Prod.mk.inj haccount
            rcases Throwing.thrown_of_bind h with hreclaim | ⟨⟨⟩, reclaimed, hreclaim, h⟩
            · exact quotas_of_reclaimNow hreclaim
            · exact (quotas_of_reclaimNow h).trans (quotas_of_reclaimNow hreclaim)
        · rw [hcompleted] at h
          obtain ⟨-, rfl⟩ := Prod.mk.inj h
          refine Or.inl ⟨rfl, fun other outcome hcompletes => hfailed outcome ?_⟩
          obtain rfl := hsame hcompletes
          rw [completed_of_markers hmarkers]
          exact hcompletes.2.2

theorem buckets_completeUpload_eq_iff
    (h : (completeUpload faults uploadId requested assembled now).outcome engine =
      (.error error, next)) :
    next.quotas.buckets = engine.quotas.buckets ↔
      CompletionUndone faults engine uploadId requested assembled := by
  rcases thrown_of_completeUpload h with ⟨hkept, hnone⟩ | ⟨upload, outcome, hcompletes, hrecorded⟩
  · exact iff_of_true (by rw [hkept]) fun upload outcome hcompletes =>
      absurd hcompletes (hnone upload outcome)
  · rw [hrecorded, buckets_recordUploadCompleted_eq_iff]
    constructor
    · rintro hentry other found ⟨⟨ordered, hmanifest⟩, -, -, hread⟩
      obtain ⟨⟨ordered', hmanifest'⟩, -, -, hread'⟩ := hcompletes
      obtain ⟨rfl, -⟩ := Prod.mk.inj (Except.ok.inj (hmanifest.symm.trans hmanifest'))
      obtain rfl := Except.ok.inj (hread.symm.trans hread')
      exact hentry
    · exact fun hundone => hundone upload outcome hcompletes

end Completions

/-! ### Every call -/

inductive Request
  | createBucket (name : Bytes) (quotaBytes : UInt64) (now : TimestampMs)
  | putObject (bucket : Bytes) (object : ObjectRecord) (declared : UInt64) (now : TimestampMs)
  | createUpload (upload : UploadRecord)
  | putPart (bucket uploadId : Bytes) (part : PartRecord) (declared : UInt64) (now : TimestampMs)
  | completeUpload (uploadId : Bytes) (requested : List StorageEngine.RequestedPart)
    (assembled : ObjectRecord) (now : TimestampMs)

def Request.perform (faults : Faults) : Request → Call Unit
  | createBucket name quotaBytes now => FailedCalls.createBucket faults name quotaBytes now
  | putObject bucket object declared now => FailedCalls.putObject faults bucket object declared now
  | createUpload upload => FailedCalls.createUpload faults upload
  | putPart bucket uploadId part declared now =>
    FailedCalls.putPart faults bucket uploadId part declared now
  | completeUpload uploadId requested assembled now =>
    FailedCalls.completeUpload faults uploadId requested assembled now

/-- What the call does to the ledger before it throws is undone, or adds up to nothing. -/
def Request.Undone (faults : Faults) (engine : StorageEngine) : Request → Prop
  | putObject bucket object declared _ => (objectWrite bucket object declared).Undone faults engine
  | putPart bucket uploadId part declared _ =>
    (partWrite bucket uploadId part declared).Undone faults engine
  | completeUpload uploadId requested assembled _ =>
    CompletionUndone faults engine uploadId requested assembled
  | _ => True

section Every

variable {engine next : StorageEngine} {faults : Faults} {error : Thrown}

/-- A bucket is tracked last, where nothing throws. -/
theorem quotas_of_createBucket {name : Bytes} {quotaBytes : UInt64} {now : TimestampMs}
    (h : (createBucket faults name quotaBytes now).outcome engine = (.error error, next)) :
    next.quotas = engine.quotas := by
  rcases Throwing.thrown_of_bind h with hchecks | ⟨⟨⟩, checked, hchecks, h⟩
  · rw [outcome_inspect] at hchecks
    rw [← (Prod.mk.inj hchecks).2]
  · rw [outcome_inspect] at hchecks
    obtain ⟨-, rfl⟩ := Prod.mk.inj hchecks
    rcases Throwing.thrown_of_bind h with hstore | ⟨⟨⟩, stored, -, htrack⟩
    · rw [outcome_onStore] at hstore
      rw [← (Prod.mk.inj hstore).2]
    · cases (Prod.mk.inj htrack).1

theorem quotas_of_createUpload {upload : UploadRecord}
    (h : (createUpload faults upload).outcome engine = (.error error, next)) :
    next.quotas = engine.quotas := by
  rcases Throwing.thrown_of_bind h with hchecks | ⟨⟨⟩, checked, hchecks, h⟩
  · rw [outcome_inspect] at hchecks
    rw [← (Prod.mk.inj hchecks).2]
  · rw [outcome_inspect] at hchecks
    obtain ⟨-, rfl⟩ := Prod.mk.inj hchecks
    rw [outcome_onStore] at h
    rw [← (Prod.mk.inj h).2]

/-- A call that throws leaves every tally of the ledger, and no other, exactly when what it did
to it is undone. -/
theorem ledger_kept_iff_undone (request : Request)
    (h : (request.perform faults).outcome engine = (.error error, next)) :
    next.quotas.buckets = engine.quotas.buckets ↔ request.Undone faults engine := by
  cases request with
  | createBucket name quotaBytes now =>
      exact iff_of_true (by rw [quotas_of_createBucket h]) trivial
  | createUpload upload => exact iff_of_true (by rw [quotas_of_createUpload h]) trivial
  | putObject bucket object declared now => exact buckets_putObject_eq_iff h
  | putPart bucket uploadId part declared now => exact buckets_putPart_eq_iff h
  | completeUpload uploadId requested assembled now => exact buckets_completeUpload_eq_iff h

end Every

/-! ### A body that breaks off, and a bucket that is not there -/

def fresh : StorageEngine where
  maxUploadBytes := 100

def onePhoto : ObjectRecord where
  key := ascii "one"
  blobId := ⟨ascii "first", fits_first⟩
  size := 5

def photos : StorageEngine := (fresh.createBucket (ascii "photos") 0 0).1

def brokenOff : Faults where
  streaming := some (.body (ascii "the body ended early"))

/-- The declared bytes are given back. -/
theorem ledger_kept_broken_off :
    ∃ next error, ((Request.putObject (ascii "photos") onePhoto 5 0).perform brokenOff).outcome photos =
        (.error error, next) ∧ next.quotas.buckets = photos.quotas.buckets := by
  obtain ⟨next, error, hthrown⟩ : ∃ next error,
      ((Request.putObject (ascii "photos") onePhoto 5 0).perform brokenOff).outcome photos =
        (.error error, next) := ⟨_, _, rfl⟩
  refine ⟨next, error, hthrown, (ledger_kept_iff_undone _ hthrown).mpr ?_⟩
  have hnever : ∀ target, ¬ (objectWrite (ascii "photos") onePhoto 5).Raises brokenOff photos target :=
    fun target hraises => absurd hraises.2.1 (by decide)
  exact
    { declared := fun _ _ => Or.inr ⟨{}, by decide, by decide⟩
      raised := fun target hraises => absurd hraises (hnever target)
      recorded := fun target _ hcommits => absurd hcommits.1 (hnever target) }

/-- An object is put in a bucket that is not there: the bucket has a tally from then on. -/
theorem ledger_grown_missing_bucket :
    ∃ next error, ((Request.putObject (ascii "photos") onePhoto 5 0).perform {}).outcome fresh =
        (.error error, next) ∧ ¬ next.quotas.buckets = fresh.quotas.buckets :=
  ⟨_, _, rfl, by decide +kernel⟩

end FailedCalls

end MonoBucket

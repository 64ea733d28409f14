/-
Admission of concurrent writers

Any number of PutObject and UploadPart requests against the ledger. A writer
reserves what its request declares, raises the claim to what actually arrived,
and then either records what the store committed or gives the claim back.
Deletions, aborts and completions change the same entry from outside.

A bucket's entry stays consistent as long as no admitted sum wraps and no
completion takes the bucket over its allocation: the reserved bytes are then
exactly the live claims, and whatever was admitted fits the allocation. A
declared length is client text, so a sum that wraps can be asked for.
-/

import MonoBucket.Lib.Trace
import MonoBucket.Storage.Quota
import MonoBucket.S3.HeaderNumber

namespace MonoBucket.Admission

/-- The request a writer serves, with what its handler has read: UploadPart
knows what the upload's other parts amount to. -/
inductive Request
  | putObject
  | uploadPart (others : UInt64)
  deriving DecidableEq

/-- The handler's own check of the declared length against the upload limit. -/
def Request.admits (limit declared : UInt64) : Request → Bool
  | putObject => ¬ limit < declared
  | uploadPart others => ¬ limit < others + declared

/-- Where a writer is. -/
inductive Writer
  | idle
  | reserved (request : Request) (bucket : Bytes) (reservation : Reservation)
  | extended (request : Request) (bucket : Bytes) (reservation : Reservation) (written : UInt64)
  | failing (reservation : Reservation)
  | finished
  deriving DecidableEq

/-- The claim a writer holds. -/
def Writer.reservation : Writer → Reservation
  | reserved _ _ reservation => reservation
  | extended _ _ reservation _ => reservation
  | failing reservation => reservation
  | idle => {}
  | finished => {}

/-- The bucket a writer that has reserved writes to. -/
def Writer.target : Writer → Option Bytes
  | reserved _ bucket _ => some bucket
  | _ => none

/-- What happens next. -/
inductive Label (ι : Type)
  | reserve (who : ι) (request : Request) (bucket : Bytes) (limit declared : UInt64)
  | extend (who : ι) (written : UInt64)
  | record (who : ι) (replacedBytes : UInt64)
  | fail (who : ι)
  | release (who : ι)
  | recordDeletion (bucket : Bytes) (releasedBytes : UInt64)
  | recordUploadAborted (bucket : Bytes) (releasedPartBytes : UInt64)
  | recordUploadCompleted (bucket : Bytes) (storedBytes replacedBytes releasedPartBytes : UInt64)
  deriving DecidableEq

variable {ι : Type} [DecidableEq ι]

/-- The writers over the ledger they share. -/
abbrev State (ι : Type) := Pool ι QuotaLedger Writer

/-- Settle a writer's claim against what the store committed. -/
def settle (ledger : QuotaLedger) (bucket : Bytes) (reservation : Reservation)
    (written replacedBytes : UInt64) : Request → QuotaLedger
  | .putObject => ledger.recordObject bucket reservation written replacedBytes
  | .uploadPart _ => ledger.recordPart bucket reservation written replacedBytes

def step (state : State ι) : Label ι → Option (State ι)
  | .reserve who request bucket limit declared =>
    match state.calls who with
    | .idle =>
      if request.admits limit declared then
        match state.shared.reserve bucket declared with
        | .ok (ledger, reservation) =>
          some (state.move who ledger (.reserved request bucket reservation))
        | .error _ => some (state.move who state.shared .finished)
      else some (state.move who state.shared .finished)
    | _ => none
  | .extend who written =>
    match state.calls who with
    | .reserved request bucket reservation =>
      match state.shared.extend reservation bucket written with
      | .ok (ledger, raised) =>
        some (state.move who ledger (.extended request bucket raised written))
      | .error _ => some (state.move who state.shared (.failing reservation))
    | _ => none
  | .record who replacedBytes =>
    match state.calls who with
    | .extended request bucket reservation written =>
      some (state.move who (settle state.shared bucket reservation written replacedBytes request)
        .finished)
    | _ => none
  | .fail who =>
    match state.calls who with
    | .reserved _ _ reservation => some (state.move who state.shared (.failing reservation))
    | .extended _ _ reservation _ => some (state.move who state.shared (.failing reservation))
    | _ => none
  | .release who =>
    match state.calls who with
    | .failing reservation =>
      some (state.move who (state.shared.release reservation) .finished)
    | _ => none
  | .recordDeletion bucket releasedBytes =>
    some ⟨state.shared.recordDeletion bucket releasedBytes, state.calls⟩
  | .recordUploadAborted bucket releasedPartBytes =>
    some ⟨state.shared.recordUploadAborted bucket releasedPartBytes, state.calls⟩
  | .recordUploadCompleted bucket storedBytes replacedBytes releasedPartBytes =>
    some
      ⟨state.shared.recordUploadCompleted bucket storedBytes replacedBytes releasedPartBytes,
        state.calls⟩

/-! ### What an admitted claim keeps -/

/-- A writer's claim is on its own bucket and covers what it wrote. -/
def Writer.Consistent : Writer → Prop
  | idle => True
  | reserved _ bucket reservation => reservation.held → reservation.bucket = bucket
  | extended _ bucket reservation written =>
    (reservation.held → reservation.bucket = bucket) ∧
      written.toNat ≤ reservation.bytes.toNat
  | failing _ => True
  | finished => True

/-- The steps that keep a bucket's sums exact: a claim whose admitted sum does
not wrap, and a completion that leaves the bucket within its allocation. -/
def Safe (bucket : Bytes) (state : State ι) : Label ι → Prop
  | .reserve _ _ target _ declared =>
    target = bucket → (state.shared.entryFor bucket).charged + declared.toNat < 2 ^ 64
  | .extend who written =>
    (state.calls who).target = some bucket →
      (state.shared.entryFor bucket).charged +
        (written.toNat - (state.calls who).reservation.bytes.toNat) < 2 ^ 64
  | .recordUploadCompleted target storedBytes replacedBytes releasedPartBytes =>
    let entry := state.shared.entryFor bucket
    target = bucket →
      entry.usedBytes.toNat + storedBytes.toNat - replacedBytes.toNat +
          (entry.pendingBytes.toNat - releasedPartBytes.toNat) + entry.reservedBytes.toNat ≤
        entry.quotaBytes.toNat
  | _ => True

instance (bucket : Bytes) (state : State ι) : ∀ label, Decidable (Safe bucket state label)
  | .reserve _ _ _ _ _ => inferInstanceAs (Decidable (_ → _))
  | .extend _ _ => inferInstanceAs (Decidable (_ → _))
  | .recordUploadCompleted _ _ _ _ => inferInstanceAs (Decidable (_ → _))
  | .record _ _ => isTrue trivial
  | .fail _ => isTrue trivial
  | .release _ => isTrue trivial
  | .recordDeletion _ _ => isTrue trivial
  | .recordUploadAborted _ _ => isTrue trivial

variable [Fintype ι]

/-- The bytes of every live claim on a bucket. -/
def claims (state : State ι) (bucket : Bytes) : Nat :=
  ∑ who, (state.calls who).reservation.claimOn bucket

/-- A bucket with an allocation, reserved for exactly its live claims and
charged no more than the allocation. -/
structure Within (bucket : Bytes) (state : State ι) : Prop where
  limited : (state.shared.entryFor bucket).quotaBytes ≠ 0
  reserved : (state.shared.entryFor bucket).reservedBytes.toNat = claims state bucket
  fits : (state.shared.entryFor bucket).charged ≤ (state.shared.entryFor bucket).quotaBytes.toNat
  consistent : ∀ who, (state.calls who).Consistent

section Steps

variable {bucket : Bytes} {state next : State ι}

theorem claims_move (state : State ι) (who : ι) (ledger : QuotaLedger) (writer : Writer)
    (bucket : Bytes) :
    claims (state.move who ledger writer) bucket + (state.calls who).reservation.claimOn bucket =
      claims state bucket + writer.reservation.claimOn bucket :=
  state.sum_move (fun _ writer => writer.reservation.claimOn bucket) who ledger writer

omit [DecidableEq ι] in
theorem claimOn_le_reserved (hwithin : Within bucket state) (who : ι) :
    (state.calls who).reservation.claimOn bucket ≤
      (state.shared.entryFor bucket).reservedBytes.toNat := by
  rw [hwithin.reserved]
  exact Finset.single_le_sum (f := fun who => (state.calls who).reservation.claimOn bucket)
    (fun _ _ => Nat.zero_le _) (Finset.mem_univ who)

/-- A writer's step keeps the bucket within its allocation when the reserved
bytes move by the change of its own claim and nothing else is charged. -/
theorem Within.move (hwithin : Within bucket state) (who : ι) {ledger : QuotaLedger}
    {writer : Writer} (hconsistent : writer.Consistent)
    (hquota : (ledger.entryFor bucket).quotaBytes = (state.shared.entryFor bucket).quotaBytes)
    (hreserved : (ledger.entryFor bucket).reservedBytes.toNat +
        (state.calls who).reservation.claimOn bucket =
      (state.shared.entryFor bucket).reservedBytes.toNat + writer.reservation.claimOn bucket)
    (hcharged : (ledger.entryFor bucket).charged ≤
      (state.shared.entryFor bucket).quotaBytes.toNat) :
    Within bucket (state.move who ledger writer) := by
  have hsum := claims_move state who ledger writer bucket
  have hold := hwithin.reserved
  refine ⟨?_, ?_, ?_, ?_⟩
  · simpa [hquota] using hwithin.limited
  · simp only [Pool.move_shared]
    omega
  · simpa [hquota] using hcharged
  · exact (state.forall_move (P := fun _ writer => writer.Consistent) who ledger writer).mpr
      ⟨hconsistent, fun other _ => hwithin.consistent other⟩

/-- A change of another bucket's entry, or of nothing, with the claim on this
bucket unchanged. -/
theorem Within.move_elsewhere (hwithin : Within bucket state) (who : ι) {ledger : QuotaLedger}
    {writer : Writer} (hconsistent : writer.Consistent)
    (hentry : ledger.entryFor bucket = state.shared.entryFor bucket)
    (hclaim : writer.reservation.claimOn bucket = (state.calls who).reservation.claimOn bucket) :
    Within bucket (state.move who ledger writer) := by
  refine hwithin.move who hconsistent (by rw [hentry]) (by rw [hentry, hclaim]) ?_
  rw [hentry]
  exact hwithin.fits

omit [DecidableEq ι] in
/-- A change the writers have no part in. -/
theorem Within.external (hwithin : Within bucket state) {ledger : QuotaLedger}
    (hquota : (ledger.entryFor bucket).quotaBytes = (state.shared.entryFor bucket).quotaBytes)
    (hreserved : (ledger.entryFor bucket).reservedBytes =
      (state.shared.entryFor bucket).reservedBytes)
    (hcharged : (ledger.entryFor bucket).charged ≤
      (state.shared.entryFor bucket).quotaBytes.toNat) :
    Within bucket ⟨ledger, state.calls⟩ :=
  ⟨by simpa [hquota] using hwithin.limited, (congrArg UInt64.toNat hreserved).trans hwithin.reserved,
    by simpa [hquota] using hcharged, hwithin.consistent⟩

/-- Raising a claim admits it in full or not at all. -/
theorem Within.extend (hwithin : Within bucket state) (who : ι) {target : Bytes}
    {bytes : UInt64} {ledger : QuotaLedger} {raised : Reservation} {writer : Writer}
    (hok : state.shared.extend (state.calls who).reservation target bytes = .ok (ledger, raised))
    (hsafe : target = bucket → (state.shared.entryFor bucket).charged +
      (bytes.toNat - (state.calls who).reservation.bytes.toNat) < 2 ^ 64)
    (hwriter : writer.reservation = raised) (hconsistent : writer.Consistent) :
    Within bucket (state.move who ledger writer) := by
  obtain ⟨hbucket, ⟨-, rfl, rfl⟩ | ⟨hmore, rfl, hadmitted, rfl⟩⟩ := QuotaLedger.extend_ok hok
  · exact hwithin.move_elsewhere who hconsistent rfl (by rw [hwriter])
  by_cases htarget : target = bucket
  · subst htarget
    set entry := state.shared.entryFor target with hentry
    set reservation := (state.calls who).reservation with hreservation
    have hnowrap := hsafe rfl
    have hlt := UInt64.lt_iff_toNat_lt.mp hmore
    have hwanted : (bytes - reservation.bytes).toNat = bytes.toNat - reservation.bytes.toNat :=
      UInt64.toNat_sub_of_le _ _ (UInt64.le_of_lt hmore)
    have hcharged : entry.charged =
        entry.usedBytes.toNat + entry.pendingBytes.toNat + entry.reservedBytes.toNat := rfl
    have hfits := UInt64.le_iff_toNat_le.mp (hadmitted hwithin.limited)
    rw [UInt64.toNat_add, entry.toNat_chargedBytes, hwanted] at hfits
    have hreserved : (entry.reservedBytes + (bytes - reservation.bytes)).toNat =
        entry.reservedBytes.toNat + (bytes.toNat - reservation.bytes.toNat) := by
      rw [UInt64.toNat_add, hwanted]
      omega
    refine hwithin.move who hconsistent (by simp [hentry]) ?_ ?_
    · rw [hwriter, QuotaLedger.entryFor_setEntry_self, Reservation.claimOn_of_bucket hbucket,
        Reservation.claimOn_of_bucket (fun _ => rfl)]
      simp only [hreserved, ← hentry]
      omega
    · rw [QuotaLedger.entryFor_setEntry_self]
      simp only [QuotaEntry.charged, hreserved, ← hentry]
      omega
  · refine hwithin.move_elsewhere who hconsistent
      (state.shared.entryFor_setEntry_of_ne _ (Ne.symm htarget)) ?_
    rw [hwriter, Reservation.claimOn_of_ne hbucket (Ne.symm htarget),
      Reservation.claimOn_of_ne (fun _ => rfl) (Ne.symm htarget)]

/-- Settling charges no more than the claim it consumes. -/
theorem Within.settle (hwithin : Within bucket state) {who : ι} {request : Request}
    {target : Bytes} {reservation : Reservation} {written : UInt64}
    (hwho : state.calls who = .extended request target reservation written)
    (replacedBytes : UInt64) :
    Within bucket
      (state.move who (settle state.shared target reservation written replacedBytes request)
        .finished) := by
  have hconsistent := hwithin.consistent who
  rw [hwho] at hconsistent
  obtain ⟨hbucket, hcovers⟩ := hconsistent
  by_cases htarget : target = bucket
  · subst htarget
    have hclaim : reservation.claimOn target = reservation.bytes.toNat :=
      Reservation.claimOn_of_bucket hbucket
    have hheld := claimOn_le_reserved hwithin who
    have hfits := hwithin.fits
    rw [hwho, Writer.reservation, hclaim] at hheld
    simp only [QuotaEntry.charged] at hfits
    have hwrap : ∀ total : UInt64, (take (total + written) replacedBytes).toNat ≤
        total.toNat + written.toNat := fun total => by
      rw [toNat_take, UInt64.toNat_add]
      exact (Nat.sub_le _ _).trans (Nat.mod_le _ _)
    have hused := hwrap (state.shared.entryFor target).usedBytes
    have hpending := hwrap (state.shared.entryFor target).pendingBytes
    cases request with
    | putObject =>
        refine hwithin.move who trivial (by simp [Admission.settle, QuotaLedger.recordObject]) ?_ ?_
        · simp only [Admission.settle, QuotaLedger.recordObject, hwho, Writer.reservation, hclaim,
            QuotaLedger.entryFor_setEntry_self, QuotaLedger.toNat_reservedBytes_consumeLocked,
            Reservation.claimOn_default]
          omega
        · simp only [Admission.settle, QuotaLedger.recordObject, QuotaEntry.charged,
            QuotaLedger.entryFor_setEntry_self, QuotaLedger.toNat_reservedBytes_consumeLocked,
            QuotaLedger.usedBytes_consumeLocked, QuotaLedger.pendingBytes_consumeLocked]
          omega
    | uploadPart others =>
        refine hwithin.move who trivial (by simp [Admission.settle, QuotaLedger.recordPart]) ?_ ?_
        · simp only [Admission.settle, QuotaLedger.recordPart, hwho, Writer.reservation, hclaim,
            QuotaLedger.entryFor_setEntry_self, QuotaLedger.toNat_reservedBytes_consumeLocked,
            Reservation.claimOn_default]
          omega
        · simp only [Admission.settle, QuotaLedger.recordPart, QuotaEntry.charged,
            QuotaLedger.entryFor_setEntry_self, QuotaLedger.toNat_reservedBytes_consumeLocked,
            QuotaLedger.usedBytes_consumeLocked, QuotaLedger.pendingBytes_consumeLocked]
          omega
  · have hclaim := Reservation.claimOn_of_ne hbucket (Ne.symm htarget)
    refine hwithin.move_elsewhere who trivial ?_ (by rw [hwho]; exact hclaim.symm)
    cases request <;> exact state.shared.entryFor_setEntry_of_ne _ (Ne.symm htarget)

/-- Releasing takes exactly the writer's own claim. -/
theorem Within.release (hwithin : Within bucket state) {who : ι} {reservation : Reservation}
    (hwho : state.calls who = .failing reservation) :
    Within bucket (state.move who (state.shared.release reservation) .finished) := by
  have hheld := claimOn_le_reserved hwithin who
  rw [hwho, Writer.reservation] at hheld
  by_cases hbucket : reservation.held → reservation.bucket = bucket
  · have hentry := state.shared.entryFor_release_self hbucket
    rw [Reservation.claimOn_of_bucket hbucket] at hheld
    have hfits := hwithin.fits
    simp only [QuotaEntry.charged] at hfits
    refine hwithin.move who trivial (by rw [hentry]) ?_ ?_
    · rw [hentry, hwho, Writer.reservation, Reservation.claimOn_of_bucket hbucket]
      simp only [toNat_take, Writer.reservation, Reservation.claimOn_default]
      omega
    · rw [hentry]
      simp only [QuotaEntry.charged, toNat_take]
      omega
  · push Not at hbucket
    refine hwithin.move_elsewhere who trivial
      (state.shared.entryFor_release_of_ne fun _ => hbucket.2.symm) ?_
    have hnone : reservation.claimOn bucket = 0 := if_neg fun h => hbucket.2 h.2
    rw [hwho]
    exact hnone.symm

/-- Every safe step keeps the bucket within its allocation. -/
theorem Within.step (hwithin : Within bucket state) {label : Label ι}
    (hsafe : Safe bucket state label) (hstep : Admission.step state label = some next) :
    Within bucket next := by
  have hfits := hwithin.fits
  simp only [QuotaEntry.charged] at hfits
  cases label with
  | reserve who request target limit declared =>
      simp only [Admission.step] at hstep
      split at hstep
      · rename_i hwho
        have hidle : (state.calls who).reservation = {} := by rw [hwho]; rfl
        split_ifs at hstep
        · split at hstep
          · rename_i ledger reservation hok
            cases hstep
            refine hwithin.extend who (by rw [hidle]; exact hok) (fun htarget => ?_) rfl
              (QuotaLedger.bucket_of_extend_ok hok)
            simpa [hidle] using hsafe htarget
          · cases hstep
            exact hwithin.move_elsewhere who trivial rfl (by rw [hidle]; rfl)
        · cases hstep
          exact hwithin.move_elsewhere who trivial rfl (by rw [hidle]; rfl)
      · cases hstep
  | extend who written =>
      simp only [Admission.step] at hstep
      split at hstep
      · rename_i request target reservation hwho
        have hclaim : (state.calls who).reservation = reservation := by rw [hwho]; rfl
        split at hstep
        · rename_i ledger raised hok
          cases hstep
          refine hwithin.extend who (by rw [hclaim]; exact hok) (fun htarget => ?_) rfl
            ⟨QuotaLedger.bucket_of_extend_ok hok, QuotaLedger.covers_of_extend_ok hok⟩
          exact hsafe (by rw [hwho, htarget]; rfl)
        · cases hstep
          exact hwithin.move_elsewhere who trivial rfl (by rw [hclaim]; rfl)
      · cases hstep
  | record who replacedBytes =>
      simp only [Admission.step] at hstep
      split at hstep
      · rename_i hwho
        cases hstep
        exact hwithin.settle hwho replacedBytes
      · cases hstep
  | fail who =>
      simp only [Admission.step] at hstep
      split at hstep
      · rename_i hwho
        cases hstep
        exact hwithin.move_elsewhere who trivial rfl (by rw [hwho]; rfl)
      · rename_i hwho
        cases hstep
        exact hwithin.move_elsewhere who trivial rfl (by rw [hwho]; rfl)
      · cases hstep
  | release who =>
      simp only [Admission.step] at hstep
      split at hstep
      · rename_i hwho
        cases hstep
        exact hwithin.release hwho
      · cases hstep
  | recordDeletion target releasedBytes =>
      cases hstep
      by_cases htarget : target = bucket
      · subst htarget
        simp only [QuotaLedger.recordDeletion]
        split_ifs
        · exact hwithin
        · refine hwithin.external (by simp) (by simp) ?_
          simp only [QuotaLedger.entryFor_setEntry_self, QuotaEntry.charged, toNat_take]
          omega
      · have hentry : (state.shared.recordDeletion target releasedBytes).entryFor bucket =
            state.shared.entryFor bucket := by
          rw [QuotaLedger.recordDeletion]
          split_ifs
          · rfl
          · exact state.shared.entryFor_setEntry_of_ne _ (Ne.symm htarget)
        exact hwithin.external (by rw [hentry]) (by rw [hentry]) (by rw [hentry]; exact hwithin.fits)
  | recordUploadAborted target releasedPartBytes =>
      cases hstep
      by_cases htarget : target = bucket
      · subst htarget
        simp only [QuotaLedger.recordUploadAborted]
        split_ifs
        · exact hwithin
        · refine hwithin.external (by simp) (by simp) ?_
          simp only [QuotaLedger.entryFor_setEntry_self, QuotaEntry.charged, toNat_take]
          omega
      · have hentry : (state.shared.recordUploadAborted target releasedPartBytes).entryFor bucket =
            state.shared.entryFor bucket := by
          rw [QuotaLedger.recordUploadAborted]
          split_ifs
          · rfl
          · exact state.shared.entryFor_setEntry_of_ne _ (Ne.symm htarget)
        exact hwithin.external (by rw [hentry]) (by rw [hentry]) (by rw [hentry]; exact hwithin.fits)
  | recordUploadCompleted target storedBytes replacedBytes releasedPartBytes =>
      cases hstep
      by_cases htarget : target = bucket
      · subst htarget
        have hcompleted := hsafe rfl
        refine hwithin.external (by simp [QuotaLedger.recordUploadCompleted])
          (by simp [QuotaLedger.recordUploadCompleted]) ?_
        have hwrap := Nat.mod_le ((state.shared.entryFor target).usedBytes.toNat +
          storedBytes.toNat) (2 ^ 64)
        simp only [QuotaLedger.recordUploadCompleted, QuotaLedger.entryFor_setEntry_self,
          QuotaEntry.charged, toNat_take, UInt64.toNat_add]
        omega
      · have hentry : (state.shared.recordUploadCompleted target storedBytes replacedBytes
            releasedPartBytes).entryFor bucket = state.shared.entryFor bucket :=
          state.shared.entryFor_setEntry_of_ne _ (Ne.symm htarget)
        exact hwithin.external (by rw [hentry]) (by rw [hentry]) (by rw [hentry]; exact hwithin.fits)

end Steps

omit [DecidableEq ι] in
/-- The writers have not started. -/
theorem Within.initial {bucket : Bytes} {start : State ι}
    (hidle : ∀ who, start.calls who = .idle)
    (hquota : (start.shared.entryFor bucket).quotaBytes ≠ 0)
    (hreserved : (start.shared.entryFor bucket).reservedBytes = 0)
    (hfits : (start.shared.entryFor bucket).charged ≤
      (start.shared.entryFor bucket).quotaBytes.toNat) : Within bucket start := by
  refine ⟨hquota, ?_, hfits, fun who => ?_⟩
  · simp [claims, hidle, Writer.reservation, hreserved]
  · rw [hidle who]
    trivial

/-- In every run of writers on a bucket with an allocation whose admitted sums
do not wrap, the charges never exceed the allocation, after an admission or at
any other time, and the reserved bytes are exactly the live claims, so no step
of one writer takes from another's. -/
theorem charged_within_allocation {bucket : Bytes} {start final : State ι} {labels : List (Label ι)}
    (hidle : ∀ who, start.calls who = .idle)
    (hquota : (start.shared.entryFor bucket).quotaBytes ≠ 0)
    (hreserved : (start.shared.entryFor bucket).reservedBytes = 0)
    (hfits : (start.shared.entryFor bucket).charged ≤
      (start.shared.entryFor bucket).quotaBytes.toNat)
    (hsafe : Trace.Every step (Safe bucket) start labels)
    (hrun : Trace.run step start labels = some final) :
    (final.shared.entryFor bucket).charged ≤ (final.shared.entryFor bucket).quotaBytes.toNat ∧
      (final.shared.entryFor bucket).reservedBytes.toNat = claims final bucket := by
  have hwithin := hsafe.run_invariant (fun hwithin hsafe hstep => hwithin.step hsafe hstep)
    (Within.initial hidle hquota hreserved hfits) hrun
  exact ⟨hwithin.fits, hwithin.reserved⟩

/-- A ledger of one bucket holding ten bytes of parts under an allocation of a
hundred. -/
def tenOfHundred : QuotaLedger :=
  QuotaLedger.seed { allocatableBytes := 1000 } (ascii "b") 100 0 10

/-- Two writers that have not started. -/
def twoWriters : State (Fin 2) := ⟨tenOfHundred, fun _ => .idle⟩

/-- One writer stores forty bytes while another is refused for asking too much. -/
def refusedRun : List (Label (Fin 2)) :=
  [.reserve 0 .putObject (ascii "b") 1000 40, .reserve 1 .putObject (ascii "b") 1000 60,
    .extend 0 40, .record 0 0]

theorem charged_within_allocation_refusedRun :
    ∃ final, Trace.run step twoWriters refusedRun = some final ∧
      ((final.shared.entryFor (ascii "b")).charged ≤
          (final.shared.entryFor (ascii "b")).quotaBytes.toNat ∧
        (final.shared.entryFor (ascii "b")).reservedBytes.toNat = claims final (ascii "b")) := by
  obtain ⟨final, hrun⟩ : ∃ final, Trace.run step twoWriters refusedRun = some final :=
    Option.isSome_iff_exists.mp (by decide +kernel)
  exact ⟨final, hrun, charged_within_allocation (fun _ => rfl) (by decide +kernel)
    (by decide +kernel) (by decide +kernel) (by decide +kernel) hrun⟩

/-- UploadPart with a declared length of "-5": the sum the ledger compares wraps
to 5, so the claim is let through far over the allocation, and the next writer's
claim then wraps the reserved bytes below what that writer alone holds. -/
theorem negative_length_admitted :
    ∃ first second, step twoWriters
        (.reserve 0 (.uploadPart 10) (ascii "b") 1000 (S3.headerAsUnsigned (ascii "-5"))) =
          some first ∧
      (first.shared.entryFor (ascii "b")).quotaBytes.toNat <
        (first.shared.entryFor (ascii "b")).charged ∧
      step first (.reserve 1 .putObject (ascii "b") 1000 40) = some second ∧
      (second.shared.entryFor (ascii "b")).reservedBytes.toNat <
        (second.calls 1).reservation.claimOn (ascii "b") := by
  refine ⟨_, _, rfl, ?_, rfl, ?_⟩
  · decide +kernel
  · decide +kernel

end MonoBucket.Admission

/-
What an engine call can do

Every step of the engine's calls, said once: the phase before, what the step
changes, the phase after and what it has read. With it what a call has in hand: the
payload it has marked and not committed, what it has read under the store's locks,
and the payloads it means to unlink.
-/

import MonoBucket.Storage.EngineCalls

namespace MonoBucket.EngineCalls

open StoreCalls (Commit)

/-! ### What a call can do -/

/-- The claim a call that is refused gives back. -/
def Phase.claim : Phase → Option Reservation
  | .partFind reservation .. | .partFindAgain reservation .. | .partList reservation ..
  | .rename _ reservation .. | .extend _ reservation _
  | .store _ reservation (.returned (.error _)) => some reservation
  | .append .. => some {}
  | _ => none

/-- A call that has taken nothing yet. -/
def Phase.Bare : Phase → Prop
  | .reserve .. | .completeFind .. | .completeFindAgain .. | .completeList .. => True
  | _ => False

/-- A checkpoint at work on its copy. -/
def Phase.Copying : Phase → Prop
  | .snapshot | .scan _ | .copy .. => True
  | _ => False

/-- A step of a call: the phase before, what it changes, the phase after, and what
it has read. -/
inductive Move {ι : Type} (config : Config) (shared : Shared ι) (now : TimestampMs) :
    Phase → Effect → Phase → Prop
  | fail {phase : Phase} {error : StoreError} (hphase : phase.Bare) :
      Move config shared now phase .nothing (.returned (.failed error))
  | refused {phase : Phase} {reservation : Reservation} {error : StoreError}
      (hphase : phase.claim = some reservation) :
      Move config shared now phase .nothing (.refuse reservation error)
  | reserve {bucket : Bytes} {declared : UInt64} {write : Write} {body : Bytes}
      {quotas : QuotaLedger} {reservation : Reservation}
      (hreserve : shared.quotas.reserve bucket declared = .ok (quotas, reservation)) :
      Move config shared now (.reserve bucket declared write body) (.ledger quotas)
        (.track reservation write body)
  | track {reservation : Reservation} {write : Write} {body : Bytes}
      (hnew : shared.tracked.find? write.blobId = none) :
      Move config shared now (.track reservation write body) (.track write.blobId)
        (write.tracked reservation body)
  | partFind {reservation : Reservation} {uploadId : Bytes} {part : PartRecord} {body : Bytes}
      {upload : UploadRecord} (hload : loadUpload shared.rows uploadId = .ok (some upload)) :
      Move config shared now (.partFind reservation uploadId part body) .nothing
        (.partFindAgain reservation upload part body)
  | partFindAgain {reservation : Reservation} {upload : UploadRecord} {part : PartRecord}
      {body : Bytes} : Move config shared now (.partFindAgain reservation upload part body) .nothing
        (.partList reservation upload part body)
  | partList {reservation : Reservation} {upload : UploadRecord} {part : PartRecord}
      {body : Bytes} : Move config shared now (.partList reservation upload part body) .nothing
        (.rename upload.bucket.items reservation (.part upload.uploadId part) body)
  | completeFind {uploadId : Bytes} {requested : List StorageEngine.RequestedPart}
      {object : ObjectRecord} {upload : UploadRecord}
      (hload : loadUpload shared.rows uploadId = .ok (some upload)) :
      Move config shared now (.completeFind uploadId requested object) .nothing
        (.completeFindAgain upload requested object)
  | completeFindAgain {upload : UploadRecord} {requested : List StorageEngine.RequestedPart}
      {object : ObjectRecord} : Move config shared now (.completeFindAgain upload requested object)
        .nothing (.completeList upload requested object)
  | completeList {upload : UploadRecord} {requested : List StorageEngine.RequestedPart}
      {object : ObjectRecord} {parts : List PartRecord} :
      Move config shared now (.completeList upload requested object) .nothing
        (.track {} (.completion upload parts { object with key := upload.key.items }) [])
  | append {upload : UploadRecord} {parts rest : List PartRecord} {part : PartRecord}
      {object : ObjectRecord} {body content : Bytes}
      (hfind : shared.tree.find? part.blobId.items = some content) :
      Move config shared now (.append upload parts (part :: rest) object body) .nothing
        (.append upload parts rest object (body ++ content))
  | appended {upload : UploadRecord} {parts : List PartRecord} {object : ObjectRecord}
      {body : Bytes} : Move config shared now (.append upload parts [] object body) .nothing
        (.rename upload.bucket.items {}
          (.completion upload parts { object with size := body.length.toUInt64 }) body)
  | rename {bucket : Bytes} {reservation : Reservation} {write : Write} {body : Bytes} :
      Move config shared now (.rename bucket reservation write body) (.rename write.blobId body)
        (write.renamed bucket reservation)
  | extend {bucket : Bytes} {reservation raised : Reservation} {write : Write}
      {quotas : QuotaLedger}
      (hextend : shared.quotas.extend reservation bucket write.size = .ok (quotas, raised)) :
      Move config shared now (.extend bucket reservation write) (.ledger quotas)
        (.store bucket raised (StoreCalls.begin write.operation))
  | store {bucket : Bytes} {reservation : Reservation} {call next : StoreCalls.Phase}
      {effect : StoreCalls.Effect} (hmove : StoreCalls.Move shared.rows call effect next)
      (hfree : effect.Free config.stripeFor shared.store.holders) :
      Move config shared now (.store bucket reservation call) (.store effect)
        (.store bucket reservation next)
  | settle {bucket : Bytes} {reservation : Reservation} {commit : Option Commit} :
      Move config shared now (.store bucket reservation (.returned (.ok commit)))
        (.ledger (settle shared.quotas bucket reservation commit))
        (.look (.done commit) (releases commit))
  | refuse {reservation : Reservation} {error : StoreError} :
      Move config shared now (.refuse reservation error)
        (.ledger (shared.quotas.release reservation)) (.returned (.failed error))
  | looked {answer : Answer} :
      Move config shared now (.look answer []) .nothing (.returned answer)
  | deferred {answer : Answer} {blobIds : List Bytes} {batches : List (List Bytes)} :
      Move config shared now (.look answer (blobIds :: batches)) .nothing (.look answer batches)
  | look {answer : Answer} {blobIds : List Bytes} {batches : List (List Bytes)}
      (hclear : shared.checkpointing = false) :
      Move config shared now (.look answer (blobIds :: batches)) .nothing
        (.unlink answer blobIds blobIds batches)
  | unlink {answer : Answer} {blobId : Bytes} {rest blobIds : List Bytes}
      {batches : List (List Bytes)} :
      Move config shared now (.unlink answer (blobId :: rest) blobIds batches) (.unlink blobId)
        (.unlink answer rest blobIds batches)
  | unlinkFails {answer : Answer} {blobId : Bytes} {rest blobIds : List Bytes}
      {batches : List (List Bytes)} :
      Move config shared now (.unlink answer (blobId :: rest) blobIds batches) .nothing
        (.unlink answer rest blobIds batches)
  | forget {answer : Answer} {blobIds : List Bytes} {batches : List (List Bytes)} :
      Move config shared now (.unlink answer [] blobIds batches) (.forget blobIds)
        (.look answer batches)
  | sweep {limit : Nat} :
      Move config shared now (.sweep limit) .nothing
        (.sweepLook limit (now - config.reclaimGraceMs))
  | sweepDeferred {limit : Nat} {cutoff : TimestampMs} :
      Move config shared now (.sweepLook limit cutoff) .nothing (.returned (.reclaimed 0))
  | sweepLook {limit : Nat} {cutoff : TimestampMs} (hclear : shared.checkpointing = false) :
      Move config shared now (.sweepLook limit cutoff) .nothing (.sweepList limit cutoff)
  | sweepNone {limit : Nat} {cutoff : TimestampMs} :
      Move config shared now (.sweepList limit cutoff) .nothing (.returned (.reclaimed 0))
  | sweepList {limit : Nat} {cutoff : TimestampMs} {blobIds : List Bytes}
      (hlist : listOrphans shared.rows limit cutoff = blobIds) :
      Move config shared now (.sweepList limit cutoff) .nothing
        (.unlink (.reclaimed blobIds.length) blobIds blobIds [])
  | getFails {bucket key : Bytes} {error : StoreError}
      (hload : getObject shared.rows bucket key = .error error) :
      Move config shared now (.getRead bucket key) .nothing (.returned (.failed error))
  | getAbsent {bucket key : Bytes} (hload : getObject shared.rows bucket key = .ok none) :
      Move config shared now (.getRead bucket key) .nothing (.returned .absent)
  | getRead {bucket key : Bytes} {record : ObjectRecord}
      (hload : getObject shared.rows bucket key = .ok (some record)) :
      Move config shared now (.getRead bucket key) .nothing (.getOpen record)
  | getLost {record : ObjectRecord}
      (hfind : shared.tree.find? record.blobId.items = none) :
      Move config shared now (.getOpen record) .nothing
        (.returned (.failed (missingPayload record.blobId.items)))
  | getOpen {record : ObjectRecord} {body : Bytes}
      (hfind : shared.tree.find? record.blobId.items = some body) :
      Move config shared now (.getOpen record) .nothing (.returned (.object record body))
  | raise : Move config shared now .raise .raise .snapshot
  | snapshot : Move config shared now .snapshot .nothing (.scan shared.rows)
  | scan {rows : Rows} :
      Move config shared now (.scan rows) .nothing
        (.copy rows (shared.tree.entries.map Prod.fst) .empty)
  | visit {rows : Rows} {pending : List Bytes} {copied : OrderedMap Bytes Bytes}
      {blobId body : Bytes} (hfind : shared.tree.find? blobId = some body) :
      Move config shared now (.copy rows pending copied) .nothing
        (.copy rows (pending.filter (· ≠ blobId)) (copied.insert blobId body))
  | vanished {rows : Rows} {pending : List Bytes} {copied : OrderedMap Bytes Bytes}
      {blobId : Bytes} (hfind : shared.tree.find? blobId = none) :
      Move config shared now (.copy rows pending copied) .nothing
        (.copy rows (pending.filter (· ≠ blobId)) copied)
  | copied {rows : Rows} {copied : OrderedMap Bytes Bytes} :
      Move config shared now (.copy rows [] copied) .nothing (.drop (.copied ⟨rows, copied⟩))
  | giveUp {phase : Phase} (hphase : phase.Copying) :
      Move config shared now phase .nothing (.drop .notCopied)
  | drop {answer : Answer} : Move config shared now (.drop answer) .drop (.returned answer)

section Inversion

variable {ι : Type} {config : Config} {shared : Shared ι} {now : TimestampMs}
  {phase next : Phase} {effect : Effect}

theorem move_of_reading {α : Type} {read : Except StoreError α} {failed : StoreError → Phase}
    {go : α → Phase} (h : reading read failed go = some (effect, next))
    (hfailed : ∀ error, read = .error error → Move config shared now phase .nothing (failed error))
    (hgo : ∀ found, read = .ok found → Move config shared now phase .nothing (go found)) :
    Move config shared now phase effect next := by
  cases read with
  | error error =>
      obtain ⟨rfl, rfl⟩ := Prod.mk.inj (Option.some.inj h)
      exact hfailed error rfl
  | ok found =>
      obtain ⟨rfl, rfl⟩ := Prod.mk.inj (Option.some.inj h)
      exact hgo found rfl

theorem move_of_finding {uploadId : Bytes} {failed : StoreError → Phase} {go : UploadRecord → Phase}
    (h : finding shared.rows uploadId failed go = some (effect, next))
    (hfailed : ∀ error, Move config shared now phase .nothing (failed error))
    (hgo : ∀ upload, loadUpload shared.rows uploadId = .ok (some upload) →
      Move config shared now phase .nothing (go upload)) : Move config shared now phase effect next := by
  refine move_of_reading h (fun error _ => hfailed error) fun upload hread => hgo upload ?_
  obtain ⟨found, hload, hread⟩ := Except.bind_eq_ok_iff.mp hread
  cases found with
  | none => cases hread
  | some stored =>
      obtain rfl := Except.pure_eq_ok_iff.mp hread
      exact hload

theorem move_of_store {bucket : Bytes} {reservation : Reservation} {call : StoreCalls.Phase}
    (h : ((StoreCalls.act config.stripeFor shared.store call).map fun (effect, next) =>
      (Effect.store effect, Phase.store bucket reservation next)) = some (effect, next)) :
    Move config shared now (.store bucket reservation call) effect next := by
  obtain ⟨⟨inner, after⟩, hact, hpair⟩ := Option.map_eq_some_iff.mp h
  obtain ⟨rfl, rfl⟩ := Prod.mk.inj hpair
  obtain ⟨hmove, hfree⟩ := StoreCalls.move_of_act hact
  exact .store hmove hfree

/-- Every step is one of the list. -/
theorem move_of_act (h : act config shared now phase = some (effect, next)) :
    Move config shared now phase effect next := by
  have hone : ∀ {first : Effect} {second : Phase}, some (first, second) = some (effect, next) →
      Move config shared now phase first second → Move config shared now phase effect next := by
    intro first second hsome hmove
    obtain ⟨rfl, rfl⟩ := Prod.mk.inj (Option.some.inj hsome)
    exact hmove
  cases phase with
  | idle => cases h
  | returned answer => cases h
  | reserve bucket declared write body =>
      rw [act] at h
      split at h
      · exact hone h (.fail trivial)
      · rename_i quotas reservation hreserve
        exact hone h (.reserve hreserve)
  | track reservation write body =>
      rw [act] at h
      split at h
      · cases h
      · rename_i hnew
        exact hone h (.track hnew)
  | partFind reservation uploadId part body =>
      exact move_of_finding h (fun _ => .refused rfl) fun upload hload => .partFind hload
  | partFindAgain reservation upload part body =>
      exact move_of_finding h (fun _ => .refused rfl) fun _ _ => .partFindAgain
  | partList reservation upload part body =>
      exact move_of_reading h (fun _ _ => .refused rfl) fun _ _ => .partList
  | completeFind uploadId requested object =>
      refine move_of_finding h (fun _ => .fail trivial) fun upload hload => ?_
      split
      · exact .fail trivial
      · exact .completeFind hload
  | completeFindAgain upload requested object =>
      exact move_of_finding h (fun _ => .fail trivial) fun _ _ => .completeFindAgain
  | completeList upload requested object =>
      exact move_of_reading h (fun _ _ => .fail trivial) fun _ _ => .completeList
  | append upload parts rest object body =>
      cases rest with
      | nil => exact hone h .appended
      | cons part rest =>
          rw [act] at h
          split at h
          · exact hone h (.refused rfl)
          · rename_i content hfind
            exact hone h (.append hfind)
  | rename bucket reservation write body =>
      rw [act] at h
      split at h
      · exact hone h (.refused rfl)
      · exact hone h .rename
  | extend bucket reservation write =>
      rw [act] at h
      split at h
      · exact hone h (.refused rfl)
      · rename_i quotas raised hextend
        exact hone h (.extend hextend)
  | store bucket reservation call =>
      cases call with
      | returned answer =>
          cases answer with
          | error error => exact hone h (.refused rfl)
          | ok commit => exact hone h .settle
      | _ => exact move_of_store h
  | refuse reservation error => exact hone h .refuse
  | look answer batches =>
      cases batches with
      | nil => exact hone h .looked
      | cons blobIds batches =>
          rw [act] at h
          split at h
          · exact hone h .deferred
          · rename_i hclear
            exact hone h (.look (Bool.eq_false_iff.mpr hclear))
  | unlink answer rest blobIds batches =>
      cases rest with
      | nil => exact hone h .forget
      | cons blobId rest => cases h
  | sweep limit => exact hone h .sweep
  | sweepLook limit cutoff =>
      rw [act] at h
      split at h
      · exact hone h .sweepDeferred
      · rename_i hclear
        exact hone h (.sweepLook (Bool.eq_false_iff.mpr hclear))
  | sweepList limit cutoff =>
      rw [act] at h
      split at h
      · exact hone h .sweepNone
      · exact hone h (.sweepList rfl)
  | getRead bucket key =>
      refine move_of_reading h (fun error hload => .getFails hload) fun found hload => ?_
      cases found with
      | none => exact .getAbsent hload
      | some record => exact .getRead hload
  | getOpen record =>
      rw [act] at h
      split at h
      · rename_i hfind
        exact hone h (.getLost hfind)
      · rename_i body hfind
        exact hone h (.getOpen hfind)
  | raise => exact hone h .raise
  | snapshot => exact hone h .snapshot
  | scan rows => exact hone h .scan
  | copy rows pending copied =>
      cases pending with
      | nil => exact hone h .copied
      | cons blobId pending => cases h
  | drop answer => exact hone h .drop

theorem move_of_removeNext {removed : Bool} (h : removeNext removed phase = some (effect, next)) :
    Move config shared now phase effect next := by
  cases phase with
  | unlink answer rest blobIds batches =>
      cases rest with
      | nil => cases h
      | cons blobId rest =>
          obtain ⟨rfl, rfl⟩ := Prod.mk.inj (Option.some.inj h)
          cases removed with
          | true => exact .unlink
          | false => exact .unlinkFails
  | _ => cases h

theorem move_of_visit {blobId : Bytes} (h : visit shared blobId phase = some (effect, next)) :
    Move config shared now phase effect next := by
  cases phase with
  | copy rows pending copied =>
      rw [visit] at h
      split at h
      · rename_i body hfind
        obtain ⟨rfl, rfl⟩ := Prod.mk.inj (Option.some.inj h)
        exact .visit hfind
      · rename_i hfind
        split at h
        · obtain ⟨rfl, rfl⟩ := Prod.mk.inj (Option.some.inj h)
          exact .vanished hfind
        · cases h
  | _ => cases h

theorem move_of_giveUp (h : giveUp phase = some (effect, next)) :
    Move config shared now phase effect next := by
  have hdrop : some (Effect.nothing, Phase.drop .notCopied) = some (effect, next) →
      phase.Copying → Move config shared now phase effect next := by
    intro hsome hphase
    obtain ⟨rfl, rfl⟩ := Prod.mk.inj (Option.some.inj hsome)
    exact .giveUp hphase
  cases phase with
  | snapshot => exact hdrop h trivial
  | scan rows => exact hdrop h trivial
  | copy rows pending copied => exact hdrop h trivial
  | _ => cases h

end Inversion

/-! ### Turns -/

/-- Whose turn a label is. -/
def Label.caller {ι : Type} : Label ι → Option ι
  | .call who _ | .remove who _ | .visit who _ | .giveUp who => some who
  | .createBucket .. | .createUpload _ | .start .. => none

/-- When a step is taken. -/
def Label.now {ι : Type} (clock : TimestampMs) : Label ι → TimestampMs
  | .call _ now => now
  | _ => clock

/-- The file a call unlinks next. -/
def Phase.unlinks : Phase → Option Bytes
  | .unlink _ (blobId :: _) _ _ => some blobId
  | _ => none

/-- A file comes to be unlinked by a removal, and by nothing else. -/
def Removes {ι : Type} (label : Label ι) (who : ι) (phase : Phase) (effect : Effect) : Prop :=
  ∀ blobId ∈ phase.unlinks,
    ∃ removed, label = .remove who removed ∧ effect = if removed then .unlink blobId else .nothing

/-- A step of the system. -/
inductive Turn {ι : Type} [DecidableEq ι] (config : Config) (state : State ι) :
    Label ι → State ι → Prop
  | createBucket {name : Bytes} {quotaBytes : UInt64} {now : TimestampMs} {bucket : BucketRecord}
      {store : MetadataStore} {quotas : QuotaLedger}
      (hstore : MonoBucket.createBucket state.shared.store.store bucket = .ok store) :
      Turn config state (.createBucket name quotaBytes now)
        { state with
          shared :=
            { state.shared with
              store := { state.shared.store with store := store }
              quotas := quotas } }
  | createUpload {upload : UploadRecord} {store : MetadataStore}
      (hnew : upload.uploadId ∉ state.shared.uploads)
      (hstore : MonoBucket.createUpload state.shared.store.store upload = .ok store) :
      Turn config state (.createUpload upload)
        { state with
          shared :=
            { state.shared with
              store := { state.shared.store with store := store }
              uploads := upload.uploadId :: state.shared.uploads } }
  | start {who : ι} {request : Request} (hidle : state.calls who = .idle) :
      Turn config state (.start who request) (state.move who state.shared (begin request))
  | move {label : Label ι} {who : ι} {effect : Effect} {next : Phase}
      (hwho : label.caller = some who)
      (hmove : Move config state.shared (label.now state.shared.clock) (state.calls who) effect
        next)
      (hremoves : Removes label who (state.calls who) effect) :
      Turn config state label
        (state.take config who (label.now state.shared.clock) (effect, next))

theorem phase_of_unlinks {phase : Phase} {blobId : Bytes} (h : phase.unlinks = some blobId) :
    ∃ answer rest blobIds batches, phase = .unlink answer (blobId :: rest) blobIds batches := by
  cases phase with
  | unlink answer rest blobIds batches =>
      cases rest with
      | nil => cases h
      | cons first rest =>
          obtain rfl := Option.some.inj h
          exact ⟨_, _, _, _, rfl⟩
  | _ => cases h

theorem turn_of_step {ι : Type} [DecidableEq ι] {config : Config} {state next : State ι}
    {label : Label ι} (h : step config state label = some next) : Turn config state label next := by
  cases label with
  | createBucket name quotaBytes now =>
      rw [step, StorageEngine.createBucket] at h
      split at h
      · cases h
      · rename_i engine _ hcreate
        obtain rfl := Option.some.inj h
        split at hcreate
        · cases hcreate
        · dsimp only at hcreate
          split at hcreate
          · cases hcreate
          · rename_i metadata hstore
            obtain ⟨rfl, -⟩ := Prod.mk.inj hcreate
            exact .createBucket hstore
  | createUpload upload =>
      rw [step, StorageEngine.createUpload] at h
      split at h
      · cases h
      · rename_i hnew
        split at h
        · cases h
        · rename_i engine _ hcreate
          obtain rfl := Option.some.inj h
          cases hstore : MonoBucket.createUpload (state.shared.engine config).metadata upload with
          | error error =>
              rw [hstore] at hcreate
              cases hcreate
          | ok metadata =>
              rw [hstore] at hcreate
              obtain ⟨rfl, -⟩ := Prod.mk.inj hcreate
              exact .createUpload hnew hstore
  | start who request =>
      rw [step] at h
      split at h
      · rename_i hidle
        obtain rfl := Option.some.inj h
        exact .start hidle
      · cases h
  | call who now =>
      obtain ⟨⟨effect, phase⟩, hact, rfl⟩ := Option.map_eq_some_iff.mp h
      exact .move rfl (move_of_act hact) fun blobId hunlinks => by
        obtain ⟨answer, rest, blobIds, batches, hphase⟩ := phase_of_unlinks hunlinks
        rw [hphase] at hact
        cases hact
  | remove who removed =>
      obtain ⟨⟨effect, phase⟩, hact, rfl⟩ := Option.map_eq_some_iff.mp h
      refine .move rfl (move_of_removeNext hact) fun blobId hunlinks => ⟨removed, rfl, ?_⟩
      obtain ⟨answer, rest, blobIds, batches, hphase⟩ := phase_of_unlinks hunlinks
      rw [hphase] at hact
      exact (Prod.mk.inj (Option.some.inj hact)).1.symm
  | visit who blobId =>
      obtain ⟨⟨effect, phase⟩, hact, rfl⟩ := Option.map_eq_some_iff.mp h
      exact .move rfl (move_of_visit hact) fun blobId hunlinks => by
        obtain ⟨answer, rest, blobIds, batches, hphase⟩ := phase_of_unlinks hunlinks
        rw [hphase] at hact
        cases hact
  | giveUp who =>
      obtain ⟨⟨effect, phase⟩, hact, rfl⟩ := Option.map_eq_some_iff.mp h
      exact .move rfl (move_of_giveUp hact) fun blobId hunlinks => by
        obtain ⟨answer, rest, blobIds, batches, hphase⟩ := phase_of_unlinks hunlinks
        rw [hphase] at hact
        cases hact

/-! ### What a call has in hand -/

namespace Phase

/-- The store's call a call is in. -/
def call : Phase → StoreCalls.Phase
  | .store _ _ call => call
  | _ => .idle

/-- The payload a call has marked and not committed. -/
def brings : Phase → Option Bytes
  | .partFind _ _ part _ | .partFindAgain _ _ part _ | .partList _ _ part _ =>
    some part.blobId.items
  | .append _ _ _ object _ => some object.blobId.items
  | .rename _ _ write _ | .extend _ _ write => some write.blobId
  | .store _ _ call => call.brings
  | _ => none

/-- The payload a call has linked into the tree and not committed. -/
def linked : Phase → Option Bytes
  | .extend _ _ write => some write.blobId
  | .store _ _ call => call.brings
  | _ => none

/-- The payloads a call has released or listed, from the commit or the listing on. -/
def doomed : Phase → List Bytes
  | .store _ _ (.settle commit) | .store _ _ (.returned (.ok (some commit))) =>
    commit.released.map Prod.snd
  | .look _ batches => batches.flatten
  | .unlink _ rest blobIds batches => rest ++ blobIds ++ batches.flatten
  | _ => []

/-- What a pass is about to list by: how many, and of what age. -/
def lists : Phase → Option (Nat × TimestampMs)
  | .sweepList limit cutoff => some (limit, cutoff)
  | _ => none

/-- The age a pass goes by. -/
def cutoff : Phase → Option TimestampMs
  | .sweepLook _ cutoff | .sweepList _ cutoff => some cutoff
  | _ => none

end Phase

section Hands

variable {ι : Type} {config : Config} {shared : Shared ι} {now : TimestampMs}
  {phase next : Phase} {effect : Effect}

theorem mem_releases {commit : Commit} {blobId : Bytes} :
    blobId ∈ (releases (some commit)).flatten ↔ blobId ∈ commit.released.map Prod.snd := by
  have hobject : ∀ (bucket key : Bytes) (previous : Option ObjectRecord),
      blobId ∈ ((PutOutcome.ofObject previous).releasedBlobId.toList.map ([·])).flatten ↔
        blobId ∈ (Commit.replacedObject bucket key previous).map Prod.snd := by
    intro bucket key previous
    cases previous <;> simp [PutOutcome.ofObject, Commit.replacedObject]
  have hparts : ∀ (uploadId : Bytes) (parts : List PartRecord),
      blobId ∈ ([partBlobIds parts].filter (· ≠ [])).flatten ↔
        blobId ∈ (Commit.releasedParts uploadId parts).map Prod.snd := by
    intro uploadId parts
    rw [StoreCalls.blobs_releasedParts]
    by_cases h : partBlobIds parts = [] <;> simp [h]
  cases commit with
  | putObject bucket object previous => exact hobject bucket object.key previous
  | deleteObject bucket key existing => simp [releases, Commit.released]
  | putPart uploadId part previous =>
      cases previous <;> simp [releases, PutOutcome.ofPart, Commit.released]
  | abortUpload upload parts => exact hparts upload.uploadId parts
  | completeUpload bucket upload object previous parts =>
      show blobId ∈ ((PutOutcome.ofObject previous).releasedBlobId.toList.map ([·]) ++
        [partBlobIds parts].filter (· ≠ [])).flatten ↔
          blobId ∈ (Commit.replacedObject bucket object.key previous ++
            Commit.releasedParts upload.uploadId parts).map Prod.snd
      rw [List.flatten_append, List.mem_append, hobject bucket object.key,
        hparts upload.uploadId, List.map_append, List.mem_append]

theorem begin_operation_brings (write : Write) {blobId : Bytes}
    (h : (StoreCalls.begin write.operation).brings = some blobId) : write.blobId = blobId := by
  have hoperation : write.operation.brings = some write.blobId := by cases write <;> rfl
  rcases StoreCalls.brings_begin write.operation with hsame | hnone
  · rw [hsame, hoperation] at h
    exact Option.some.inj h
  · rw [hnone] at h
    cases h

theorem brings_renamed (write : Write) {bucket : Bytes} {reservation : Reservation}
    {blobId : Bytes} (h : (write.renamed bucket reservation).brings = some blobId) :
    write.blobId = blobId := by
  cases write with
  | completion upload parts object => exact begin_operation_brings _ h
  | _ => exact Option.some.inj h

theorem brings_tracked (write : Write) (reservation : Reservation) (body : Bytes) :
    (write.tracked reservation body).brings = some write.blobId := by
  cases write <;> rfl

/-- What a call brings it brought already, or has just marked. -/
theorem brings_of_move (hmove : Move config shared now phase effect next) {blobId : Bytes}
    (h : next.brings = some blobId) :
    phase.brings = some blobId ∨
      (effect = .track blobId ∧ shared.tracked.find? blobId = none) := by
  cases hmove with
  | track hnew =>
      rw [brings_tracked] at h
      obtain rfl := Option.some.inj h
      exact Or.inr ⟨rfl, hnew⟩
  | partFind hload => exact Or.inl h
  | partFindAgain => exact Or.inl h
  | partList => exact Or.inl h
  | append hfind => exact Or.inl h
  | appended => exact Or.inl h
  | rename => exact Or.inl (congrArg some (brings_renamed _ h))
  | extend hextend => exact Or.inl (congrArg some (begin_operation_brings _ h))
  | store hinner hfree =>
      rcases StoreCalls.brings_of_move hinner with hsame | hnone
      · exact Or.inl (hsame.symm.trans h)
      · rw [Phase.brings, hnone] at h
        cases h
  | _ => cases h

/-- What a call has linked it had linked already, or links now. -/
theorem linked_of_move (hmove : Move config shared now phase effect next) {blobId : Bytes}
    (h : next.linked = some blobId) :
    phase.linked = some blobId ∨ ∃ body, effect = .rename blobId body := by
  cases hmove with
  | @rename bucket reservation write body =>
      refine Or.inr ⟨body, ?_⟩
      have hbrings : (write.renamed bucket reservation).brings = some blobId := by
        cases write <;> exact h
      rw [brings_renamed write hbrings]
  | extend hextend => exact Or.inl (congrArg some (begin_operation_brings _ h))
  | store hinner hfree =>
      rcases StoreCalls.brings_of_move hinner with hsame | hnone
      · exact Or.inl (hsame.symm.trans h)
      · rw [Phase.linked, hnone] at h
        cases h
  | @track reservation write body hnew => cases write <;> cases h
  | _ => cases h

theorem brings_of_linked {blobId : Bytes} (h : phase.linked = some blobId) :
    phase.brings = some blobId := by
  cases phase with
  | extend bucket reservation write => exact h
  | store bucket reservation call => exact h
  | _ => cases h

/-- A call has nothing to do with the store's locks outside its store call, and
starts that with nothing locked and nothing read. -/
structure Phase.Outside (phase : Phase) : Prop where
  locks : phase.call.locks = none
  notes : phase.call.notes = []
  uploading : phase.call.uploading = none
  current : ∀ rows, phase.call.Current rows

theorem outside_of_call {phase : Phase} (h : phase.call = .idle) : phase.Outside where
  locks := by rw [h]; rfl
  notes := by rw [h]; rfl
  uploading := by rw [h]; rfl
  current rows := by rw [h]; trivial

theorem outside_begin (bucket : Bytes) (reservation : Reservation)
    (operation : StoreCalls.Operation) :
    (Phase.store bucket reservation (StoreCalls.begin operation)).Outside where
  locks := (StoreCalls.begin_fresh operation .empty).1
  notes := (StoreCalls.begin_fresh operation .empty).2.1
  uploading := (StoreCalls.begin_fresh operation .empty).2.2.1
  current rows := (StoreCalls.begin_fresh operation rows).2.2.2

theorem outside_begun (request : Request) : (begin request).Outside := by
  cases request with
  | deleteObject bucket key => exact outside_begin ..
  | abortUpload uploadId => exact outside_begin ..
  | _ => exact outside_of_call rfl

/-- A call that is refused is not inside the store. -/
theorem locks_of_claim {reservation : Reservation} (h : phase.claim = some reservation) :
    phase.call.locks = none := by
  cases phase with
  | store bucket claimed call =>
      cases call with
      | returned answer => rfl
      | _ => cases h
  | _ => rfl

/-- A step is one of the store's own, or has nothing to do with the store's locks. -/
theorem call_of_move (hmove : Move config shared now phase effect next) :
    (∃ inner, effect = .store inner ∧
      StoreCalls.Move shared.rows phase.call inner next.call ∧
      inner.Free config.stripeFor shared.store.holders) ∨
    ((∀ inner, effect ≠ .store inner) ∧ phase.call.locks = none ∧ next.Outside) := by
  have hquiet : ∀ inner, Effect.nothing ≠ .store inner := fun _ h => by cases h
  cases hmove with
  | store hinner hfree => exact Or.inl ⟨_, rfl, hinner, hfree⟩
  | @fail phase error hphase =>
      refine Or.inr ⟨hquiet, ?_, outside_of_call rfl⟩
      cases phase <;> first | rfl | exact hphase.elim
  | refused hphase => exact Or.inr ⟨hquiet, locks_of_claim hphase, outside_of_call rfl⟩
  | @giveUp phase hphase =>
      refine Or.inr ⟨hquiet, ?_, outside_of_call rfl⟩
      cases phase <;> first | rfl | exact hphase.elim
  | @track reservation write body hnew =>
      refine Or.inr ⟨(fun _ h => by cases h), rfl, outside_of_call ?_⟩
      cases write <;> rfl
  | @rename bucket reservation write body =>
      refine Or.inr ⟨(fun _ h => by cases h), rfl, ?_⟩
      cases write with
      | completion upload parts object => exact outside_begin ..
      | _ => exact outside_of_call rfl
  | extend hextend => exact Or.inr ⟨(fun _ h => by cases h), rfl, outside_begin ..⟩
  | _ => exact Or.inr ⟨(fun _ h => by cases h), rfl, outside_of_call rfl⟩

theorem phase_of_write (hmove : Move config shared now phase effect next) {commit : Commit}
    (heffect : effect = .store (.write commit)) :
    ∃ bucket reservation, phase = .store bucket reservation (.write commit) ∧
      next = .store bucket reservation (.settle commit) := by
  cases hmove with
  | store hinner hfree =>
      obtain rfl := Effect.store.inj heffect
      obtain ⟨rfl, rfl⟩ := StoreCalls.locks_of_move hinner
      exact ⟨_, _, rfl, rfl⟩
  | _ => cases heffect

/-- What a call means to unlink it meant to already, has just released, or lists. -/
theorem doomed_of_move (hmove : Move config shared now phase effect next) {blobId : Bytes}
    (h : blobId ∈ next.doomed) :
    blobId ∈ phase.doomed ∨
      (∃ commit, effect = .store (.write commit) ∧ blobId ∈ commit.released.map Prod.snd) ∨
      ∃ limit cutoff, phase = .sweepList limit cutoff ∧
        blobId ∈ listOrphans shared.rows limit cutoff := by
  cases hmove with
  | store hinner hfree =>
      cases hinner with
      | @write commit => exact Or.inr (Or.inl ⟨commit, rfl, h⟩)
      | settle => exact Or.inl h
      | @throw phase answer hphase hanswer =>
          cases answer with
          | error error => cases h
          | ok found =>
              cases found with
              | none => cases h
              | some commit => exact absurd rfl (hanswer commit)
      | @give phase key answer hphase hanswer =>
          cases answer with
          | error error => cases h
          | ok found =>
              cases found with
              | none => cases h
              | some commit => exact absurd rfl (hanswer commit)
      | _ => cases h
  | @settle bucket reservation commit =>
      cases commit with
      | none => cases h
      | some commit => exact Or.inl (mem_releases.mp h)
  | deferred => exact Or.inl (List.mem_append_right _ h)
  | look hclear =>
      refine Or.inl ?_
      rcases List.mem_append.mp h with hfirst | hrest
      · exact List.mem_append_left _ ((List.mem_append.mp hfirst).elim id id)
      · exact List.mem_append_right _ hrest
  | unlink => exact Or.inl (List.mem_cons_of_mem _ h)
  | unlinkFails => exact Or.inl (List.mem_cons_of_mem _ h)
  | forget => exact Or.inl (List.mem_append_right _ h)
  | @sweepList limit cutoff blobIds hlist =>
      subst hlist
      have hmem : blobId ∈ listOrphans shared.rows limit cutoff := by
        rcases List.mem_append.mp h with hfirst | hrest
        · exact (List.mem_append.mp hfirst).elim id id
        · cases hrest
      exact Or.inr (Or.inr ⟨_, _, rfl, hmem⟩)
  | @track reservation write body hnew => cases write <;> cases h
  | @rename bucket reservation write body =>
      cases write with
      | completion upload parts object => cases h
      | _ => cases h
  | @extend bucket reservation raised write quotas hextend =>
      have hbegin : (Phase.store bucket raised (StoreCalls.begin write.operation)).doomed = [] := by
        cases write with
        | part uploadId part =>
            show (Phase.store bucket raised (StoreCalls.begin (.putPart uploadId part))).doomed = []
            rw [StoreCalls.begin]
            split <;> rfl
        | _ => rfl
      rw [hbegin] at h
      cases h
  | _ => cases h

theorem unlinks_of_move (hmove : Move config shared now phase effect next) {blobId : Bytes}
    (heffect : effect = .unlink blobId) : phase.unlinks = some blobId := by
  cases hmove with
  | unlink =>
      obtain rfl := Effect.unlink.inj heffect
      rfl
  | _ => cases heffect

theorem doomed_begun (request : Request) : (begin request).doomed = [] := by
  cases request <;> rfl

theorem brings_begun (request : Request) : (begin request).brings = none := by
  cases request <;> rfl

/-- A pass goes by the age it went by, or by one it works out now. -/
theorem cutoff_of_move (hmove : Move config shared now phase effect next) {cutoff : TimestampMs}
    (h : next.cutoff = some cutoff) :
    phase.cutoff = some cutoff ∨ cutoff = now - config.reclaimGraceMs := by
  cases hmove with
  | sweep => exact Or.inr (Option.some.inj h).symm
  | sweepLook hclear => exact Or.inl h
  | @track reservation write body hnew => cases write <;> cases h
  | @rename bucket reservation write body => cases write <;> cases h
  | _ => cases h

end Hands

/-! ### What a step changes -/

section Effects

variable {ι : Type} {config : Config} {shared : Shared ι} {who : ι} {now : TimestampMs}
  {effect : Effect}

@[simp]
theorem clock_apply : (effect.apply config who now shared).clock = now := by cases effect <;> rfl

@[simp]
theorem uploads_apply : (effect.apply config who now shared).uploads = shared.uploads := by
  cases effect <;> rfl

theorem tracked_apply (blobId : Bytes) :
    (effect.apply config who now shared).tracked.find? blobId =
      match effect with
      | .track other => if blobId = other then some now else shared.tracked.find? blobId
      | _ => shared.tracked.find? blobId := by
  cases effect with
  | track other =>
      show (shared.tracked.insert other now).find? blobId = _
      by_cases h : blobId = other <;> simp [OrderedMap.find?_insert, h]
  | _ => rfl

theorem tree_apply (blobId : Bytes) :
    (effect.apply config who now shared).tree.find? blobId =
      match effect with
      | .rename other body => if blobId = other then some body else shared.tree.find? blobId
      | .unlink other => if blobId = other then none else shared.tree.find? blobId
      | _ => shared.tree.find? blobId := by
  cases effect with
  | rename other body =>
      show (shared.tree.insert other body).find? blobId = _
      by_cases h : blobId = other <;> simp [OrderedMap.find?_insert, h]
  | unlink other =>
      show (shared.tree.erase other).find? blobId = _
      by_cases h : blobId = other <;> simp [OrderedMap.find?_erase, h]
  | _ => rfl

/-- A file that is not unlinked stays. -/
theorem tree_kept {blobId : Bytes} (hthere : shared.tree.find? blobId ≠ none)
    (heffect : effect ≠ .unlink blobId) :
    (effect.apply config who now shared).tree.find? blobId ≠ none := by
  rw [tree_apply]
  cases effect with
  | rename other body =>
      dsimp only
      split
      · exact Option.some_ne_none body
      · exact hthere
  | unlink other =>
      dsimp only
      split
      · rename_i hsame
        exact absurd (congrArg Effect.unlink hsame.symm) heffect
      · exact hthere
  | _ => exact hthere

/-- Only a commit changes what the rows name. -/
theorem blobAt_apply (h : ∀ commit, effect ≠ .store (.write commit)) :
    (effect.apply config who now shared).rows.blobAt = shared.rows.blobAt := by
  cases effect with
  | track blobId =>
      show (shared.rows.write [orphanRow blobId now]).blobAt = _
      exact blobAt_orphanRow
  | forget blobIds =>
      show (forgetOrphans shared.store.store blobIds).rows.blobAt = _
      rw [rows_forgetOrphans, blobAt_forget]
      rfl
  | store inner =>
      cases inner with
      | write commit => exact absurd rfl (h commit)
      | _ => rfl
  | _ => rfl

theorem queuedAt_apply (blobId : Bytes) :
    (effect.apply config who now shared).rows.queuedAt blobId =
      match effect with
      | .track other => if blobId = other then some now else shared.rows.queuedAt blobId
      | .forget blobIds => if blobId ∈ blobIds then none else shared.rows.queuedAt blobId
      | .store (.write commit) => (shared.rows.write (commit.batch now)).queuedAt blobId
      | _ => shared.rows.queuedAt blobId := by
  cases effect with
  | track other =>
      show (shared.rows.apply (orphanRow other now)).queuedAt blobId = _
      rw [queuedAt_put_orphan]
  | forget blobIds =>
      show (forgetOrphans shared.store.store blobIds).rows.queuedAt blobId = _
      rw [rows_forgetOrphans, queuedAt_forget]
      rfl
  | store inner => cases inner <;> rfl
  | _ => rfl

end Effects

end MonoBucket.EngineCalls

/-
A strictly durable payload outlives the power

With strict durability `commit` returns once the file has been flushed, renamed and the
directory it was renamed into flushed. From then on the payload is there, whole, through
any number of restarts and power cuts, until it is removed.

The directories above the file are not flushed into theirs by anybody, so this is for
power cuts that keep the directories there are. A cut that loses one loses every payload
in it.
-/

import MonoBucket.Storage.BlobTree

namespace MonoBucket.BlobFiles

open PowerLoss (Entry Link)

variable {config : Config} {shared next : Shared} {phase after : Phase}

/-- Every strictly durable payload that was reported is found under its name, now and after a
power cut. -/
def Lasting (shared : Shared) : Prop :=
  ∀ blobId payload, shared.published blobId = some payload → payload.durability = .strict →
    payload.returned = true → payload.removed = false →
      ∃ path, finalPath blobId = .ok path ∧ shared.disk.Lasts path (.file payload.inode)

/-! ### Steps -/

section Steps

variable {disk : Disk}

/-- What was renamed into the tree stays, and its names are as they were. -/
theorem Lasting.of_links (h : Lasting shared) (hpublished : next.published = shared.published)
    (hlinks : ∀ blobId path, finalPath blobId = .ok path →
      next.disk.links path = shared.disk.links path) : Lasting next := by
  intro blobId payload hpayload hstrict hreturned hunremoved
  rw [hpublished] at hpayload
  obtain ⟨path, hpath, hlasts⟩ := h blobId payload hpayload hstrict hreturned hunremoved
  exact ⟨path, hpath, (hlinks blobId path hpath).trans hlasts⟩

theorem links_of_putLink {path other : Path} {entry : Option Entry}
    (hlinks : disk.links = shared.disk.putLink path entry) (hne : other ≠ path) :
    disk.links other = shared.disk.links other := by
  rw [hlinks, PowerLoss.Disk.putLink, Function.update_of_ne hne]

theorem Lasting.makeDirectory (h : Lasting shared) {directory : Path}
    (hdirectory : IsDirectoryPath directory)
    (hmake : shared.disk.makeDirectory directory = some disk) : Lasting (shared.onDisk disk) := by
  obtain ⟨-, -, hlinks | hlinks⟩ := PowerLoss.Disk.makeDirectory_eq_some hmake
  · exact h.of_links rfl fun _ path _ => congrFun hlinks path
  · exact h.of_links rfl fun _ path hpath => links_of_putLink hlinks (hdirectory.ne_finalPath hpath)

theorem Lasting.unlink (h : Lasting shared) {path : Path}
    (hunlink : shared.disk.unlink path = some disk)
    (hpath : ∀ blobId other, finalPath blobId = .ok other → other ≠ path) :
    Lasting (shared.onDisk disk) :=
  h.of_links rfl fun blobId other hother =>
    links_of_putLink (PowerLoss.Disk.unlink_eq_some hunlink).2 (hpath blobId other hother)

theorem Lasting.publish (h : Lasting shared) {writer : BlobWriter} {handed : Bytes}
    {durability : Durability} {path : Path} (hpath : finalPath writer.blobId = .ok path)
    (hrename : shared.disk.rename (temporaryPath writer.blobId) path = some disk) :
    Lasting (shared.publish writer handed durability disk) := by
  intro blobId payload hpayload hstrict hreturned hunremoved
  by_cases hsame : blobId = writer.blobId
  · subst hsame
    rw [shared.published_publish_self] at hpayload
    obtain rfl := Option.some.inj hpayload
    exact absurd hstrict (of_decide_eq_true hreturned)
  · rw [shared.published_publish_of_ne disk handed durability hsame] at hpayload
    obtain ⟨other, hother, hlasts⟩ := h blobId payload hpayload hstrict hreturned hunremoved
    obtain ⟨inode, -, -, hlinks⟩ :=
      PowerLoss.Disk.rename_eq_some (finalPath_ne_temporaryPath hpath).symm hrename
    refine ⟨other, hother, ?_⟩
    show disk.links other = _
    rw [hlinks, Function.update_of_ne (finalPath_ne_temporaryPath hother), PowerLoss.Disk.putLink,
      Function.update_of_ne, hlasts]
    rintro rfl
    exact hsame (finalPath_injective hother hpath)

/-- The directory is flushed, and the payload renamed into it lasts. -/
theorem Lasting.acknowledge (h : Lasting shared) (horderly : Orderly shared) {writer : BlobWriter}
    {handed : Bytes} {path : Path} (hlinked : shared.Linked writer handed path) :
    Lasting (shared.acknowledge writer.blobId (shared.disk.flushDirectory path.dropLast)) := by
  obtain ⟨-, hpath, payload, hpublished, -, -, hcuts⟩ := hlinked
  intro blobId found hfound hstrict hreturned hunremoved
  by_cases hsame : blobId = writer.blobId
  · subst hsame
    rw [shared.published_acknowledge_self, hpublished] at hfound
    obtain rfl := Option.some.inj hfound
    obtain ⟨other, hother, hlook⟩ :=
      (horderly.kept writer.blobId payload hpublished).linked hunremoved hcuts
    obtain rfl : path = other := Except.ok.inj (hpath.symm.trans hother)
    exact ⟨path, hpath, PowerLoss.Disk.lasts_flushDirectory hlook rfl⟩
  · rw [shared.published_acknowledge_of_ne _ hsame] at hfound
    obtain ⟨other, hother, hlasts⟩ := h blobId found hfound hstrict hreturned hunremoved
    exact ⟨other, hother, hlasts.flushDirectory _⟩

theorem Lasting.remove (h : Lasting shared) {blobId : Bytes} {path : Path}
    (hpath : finalPath blobId = .ok path) (hunlink : shared.disk.unlink path = some disk) :
    Lasting (shared.remove blobId disk) := by
  intro other payload hpayload hstrict hreturned hunremoved
  by_cases hsame : other = blobId
  · subst hsame
    rw [shared.published_remove_self] at hpayload
    obtain ⟨before, -, rfl⟩ := Option.map_eq_some_iff.mp hpayload
    cases hunremoved
  · rw [shared.published_remove_of_ne disk hsame] at hpayload
    obtain ⟨found, hfound, hlasts⟩ := h other payload hpayload hstrict hreturned hunremoved
    refine ⟨found, hfound, ?_⟩
    refine (links_of_putLink (PowerLoss.Disk.unlink_eq_some hunlink).2 ?_).trans hlasts
    rintro rfl
    exact hsame (finalPath_injective hfound hpath)

theorem Move.lasting (hmove : Move config shared phase next after) (horderly : Orderly shared)
    (hsound : Sound shared phase) (h : Lasting shared) : Lasting next := by
  cases hmove with
  | stays | fails | openSource _ | statSource | copy _ | close _ | openShard | unwound | opening _
  | stat | read _ => exact h
  | create hcreate =>
      obtain ⟨-, -, -, -, hlinks⟩ := PowerLoss.Disk.create_eq_some hcreate
      exact h.of_links rfl fun _ path hpath => links_of_putLink hlinks (finalPath_ne_temporaryPath hpath)
  | write | flush => exact h.of_links rfl fun _ _ _ => rfl
  | makeShard hmake => exact h.makeDirectory (hsound.2.2 _ List.mem_cons_self) hmake
  | rename hrename => exact h.publish hsound.2 hrename
  | flushShard => exact h.acknowledge horderly hsound
  | unwind hunlink => exact h.unlink hunlink fun _ _ hother => finalPath_ne_temporaryPath hother

end Steps

/-! ### Runs -/

section Runs

variable {ι : Type} {state : State ι}

/-- A power cut keeps the directories there are. -/
def KeepsShards (state : State ι) : Label ι → Prop
  | .cut age _ => state.shared.disk.KeepsDirectories age
  | _ => True

/-- The payload is not removed. -/
def Spares (blobId : Bytes) : Label ι → Prop
  | .remove other _ => other ≠ blobId
  | _ => True

structure Enduring (blobId : Bytes) (state : State ι) (label : Label ι) : Prop where
  fresh : Fresh state label
  keeps : KeepsShards state label
  spares : Spares blobId label

/-- What holds all along while a payload is not removed. -/
structure Endures (blobId : Bytes) (state : State ι) : Prop where
  invariant : Invariant state
  lasting : Lasting state.shared
  unremoved : ∀ payload, state.shared.published blobId = some payload → payload.removed = false

theorem Move.unremoved (hmove : Move config shared phase next after) {blobId : Bytes}
    (h : ∀ payload, shared.published blobId = some payload → payload.removed = false) :
    ∀ payload, next.published blobId = some payload → payload.removed = false := by
  cases hmove with
  | stays | fails | openSource _ | statSource | copy _ | close _ | openShard | unwound | opening _
  | stat | read _ | create _ | write | flush | makeShard _ | unwind _ => exact h
  | @rename writer handed durability path disk _ =>
      intro payload hpayload
      by_cases hsame : blobId = writer.blobId
      · subst hsame
        rw [shared.published_publish_self] at hpayload
        cases hpayload
        rfl
      · rw [shared.published_publish_of_ne disk handed durability hsame] at hpayload
        exact h payload hpayload
  | @flushShard writer handed path =>
      intro payload hpayload
      by_cases hsame : blobId = writer.blobId
      · subst hsame
        rw [shared.published_acknowledge_self] at hpayload
        obtain ⟨before, hbefore, rfl⟩ := Option.map_eq_some_iff.mp hpayload
        exact h before hbefore
      · rw [shared.published_acknowledge_of_ne _ hsame] at hpayload
        exact h payload hpayload

theorem disk_of_begin {call : Call} (h : begin shared phase call = some (next, after)) :
    next.disk = shared.disk ∧ next.published = shared.published := by
  unfold begin at h
  split at h
  · cases h
    exact ⟨rfl, rfl⟩
  · split at h <;> cases h <;> exact ⟨rfl, rfl⟩
  · cases h
    exact ⟨rfl, rfl⟩
  · split at h <;> cases h <;> exact ⟨rfl, rfl⟩
  all_goals cases h
  all_goals exact ⟨rfl, rfl⟩

theorem Endures.step [DecidableEq ι] {blobId : Bytes} (h : Endures blobId state) {label : Label ι}
    (hguard : Enduring blobId state label) {after : State ι}
    (hstep : BlobFiles.step config state label = some after) : Endures blobId after := by
  have hinvariant := h.invariant.step hguard.fresh hstep
  suffices hshared : Lasting after.shared ∧
      ∀ payload, after.shared.published blobId = some payload → payload.removed = false from
    ⟨hinvariant, hshared.1, hshared.2⟩
  cases label with
  | call who call =>
      simp only [BlobFiles.step] at hstep
      split_ifs at hstep with hserving
      obtain ⟨⟨next, phase⟩, hbegin, rfl⟩ := Option.map_eq_some_iff.mp hstep
      obtain ⟨hdisk, hpublished⟩ := disk_of_begin hbegin
      refine ⟨h.lasting.of_links hpublished fun _ path _ => by rw [Pool.move_shared, hdisk], ?_⟩
      rw [Pool.move_shared, hpublished]
      exact h.unremoved
  | system who outcome =>
      obtain ⟨⟨next, phase⟩, hadvance, rfl⟩ := Option.map_eq_some_iff.mp hstep
      have hmove := move_of_advance hadvance
      exact ⟨hmove.lasting h.invariant.orderly (h.invariant.sound who) h.lasting,
        hmove.unremoved h.unremoved⟩
  | remove other outcome =>
      simp only [BlobFiles.step] at hstep
      split_ifs at hstep with hserving
      cases hstep
      rcases removed_spec state.shared other outcome with hsame | ⟨path, disk, hpath, hunlink, hremoved⟩
      · dsimp only
        rw [hsame]
        exact ⟨h.lasting, h.unremoved⟩
      · dsimp only
        rw [hremoved]
        refine ⟨h.lasting.remove hpath hunlink, fun payload hpayload => h.unremoved payload ?_⟩
        rwa [state.shared.published_remove_of_ne disk (Ne.symm hguard.spares)] at hpayload
  | kill =>
      cases hstep
      exact ⟨h.lasting.of_links rfl fun _ _ _ => rfl, h.unremoved⟩
  | cut age torn =>
      cases hstep
      refine ⟨fun other payload hpayload hstrict hreturned hunremoved => ?_, h.unremoved⟩
      obtain ⟨path, hpath, hlasts⟩ := h.lasting other payload hpayload hstrict hreturned hunremoved
      exact ⟨path, hpath, hlasts.cut hguard.keeps torn⟩
  | layOut =>
      simp only [BlobFiles.step] at hstep
      split_ifs at hstep with hserving
      obtain ⟨disk, hmake, rfl⟩ := Option.map_eq_some_iff.mp hstep
      obtain ⟨laid, hlaid, hdisk⟩ := Option.bind_eq_some_iff.mp hmake
      have hfirst := h.lasting.makeDirectory (.inl le_rfl) hlaid
      exact ⟨@Lasting.makeDirectory (state.shared.onDisk laid) _ hfirst temporaryDir (.inl le_rfl) hdisk,
        h.unremoved⟩
  | sweep name outcome =>
      simp only [BlobFiles.step] at hstep
      split_ifs at hstep with hserving
      cases hstep
      rcases swept_spec state.shared name outcome with hsame | ⟨disk, hunlink, hswept⟩
      · dsimp only
        rw [hsame]
        exact ⟨h.lasting, h.unremoved⟩
      · dsimp only
        rw [hswept]
        refine ⟨h.lasting.unlink hunlink fun other path hpath => ?_, h.unremoved⟩
        rw [eq_of_finalPath hpath]
        intro hsame
        simpa [temporaryDir] using congrArg List.length hsame
  | serve =>
      cases hstep
      exact ⟨h.lasting.of_links rfl fun _ _ _ => rfl, h.unremoved⟩

/-- What was renamed into the tree stays the payload it is. -/
theorem Invariant.goes_of_step [DecidableEq ι] (h : Invariant state) {label : Label ι}
    {after : State ι} (hstep : BlobFiles.step config state label = some after) {blobId : Bytes}
    {payload : Published} (hpublished : state.shared.published blobId = some payload) :
    ∃ later, after.shared.published blobId = some later ∧ payload.Goes later := by
  have hsame : ∀ {shared : Shared}, shared.published = state.shared.published →
      ∃ later, shared.published blobId = some later ∧ payload.Goes later :=
    fun hshared => ⟨payload, by rw [hshared, hpublished], .refl payload⟩
  cases label with
  | call who call =>
      simp only [BlobFiles.step] at hstep
      split_ifs at hstep with hserving
      obtain ⟨⟨next, phase⟩, hbegin, rfl⟩ := Option.map_eq_some_iff.mp hstep
      exact hsame (disk_of_begin hbegin).2
  | system who outcome =>
      obtain ⟨⟨next, phase⟩, hadvance, rfl⟩ := Option.map_eq_some_iff.mp hstep
      obtain ⟨-, hframe, -⟩ := (move_of_advance hadvance).spec h.orderly (h.sound who)
      exact hframe.published blobId payload hpublished
  | remove other outcome =>
      simp only [BlobFiles.step] at hstep
      split_ifs at hstep with hserving
      cases hstep
      rcases removed_spec state.shared other outcome with hunchanged | ⟨path, disk, hpath, hunlink, hremoved⟩
      · dsimp only
        rw [hunchanged]
        exact hsame rfl
      · dsimp only
        rw [hremoved]
        exact (relinks_remove hpath hunlink).published blobId payload hpublished
  | kill | cut _ _ | serve =>
      cases hstep
      exact hsame rfl
  | layOut =>
      simp only [BlobFiles.step] at hstep
      split_ifs at hstep with hserving
      obtain ⟨disk, -, rfl⟩ := Option.map_eq_some_iff.mp hstep
      exact hsame rfl
  | sweep name outcome =>
      simp only [BlobFiles.step] at hstep
      split_ifs at hstep with hserving
      cases hstep
      rcases swept_spec state.shared name outcome with hunchanged | ⟨disk, -, hswept⟩
      · dsimp only
        rw [hunchanged]
        exact hsame rfl
      · dsimp only
        rw [hswept]
        exact hsame rfl

theorem endures_start (blobId : Bytes) : Endures blobId (start : State ι) where
  invariant := invariant_start
  lasting _ _ hpublished := by cases hpublished
  unremoved _ hpublished := by cases hpublished

variable [DecidableEq ι] {first second : List (Label ι)} {middle final : State ι}

/-- The payload of a strict `commit` that returned is in the tree ever after, whole, whatever
restarts and power cuts there are, until it is removed. -/
theorem strict_payload_lasts {who : ι} {committed : Committed} {payload : Published}
    (hguard : Trace.Every (step config) (Enduring committed.blobId) start (first ++ second))
    (hfirst : Trace.run (step config) start first = some middle)
    (hreturned : middle.calls who = .returned committed)
    (hpublished : middle.shared.published committed.blobId = some payload)
    (hstrict : payload.durability = .strict)
    (hsecond : Trace.run (step config) middle second = some final) :
    ∃ path, finalPath committed.blobId = .ok path ∧
      final.shared.disk.read? path = some committed.hashed := by
  have hmiddle : Endures committed.blobId middle :=
    hguard.front.run_invariant (fun h hguard hstep => Endures.step h hguard hstep)
      (endures_start committed.blobId) hfirst
  obtain ⟨found, hfound, hhanded, hacknowledged⟩ := hmiddle.invariant.intact.reported who committed
    hreturned
  obtain rfl : found = payload := Option.some.inj (hfound.symm.trans hpublished)
  -- What was reported stays so, and its payload is not removed.
  have hkeeps : ∀ {state : State ι} {label : Label ι} {next : State ι},
      (Endures committed.blobId state ∧
        ∃ later, state.shared.published committed.blobId = some later ∧ found.Goes later) →
      Enduring committed.blobId state label → step config state label = some next →
      Endures committed.blobId next ∧
        ∃ later, next.shared.published committed.blobId = some later ∧ found.Goes later := by
    rintro state label next ⟨hendures, later, hlater, hgoes⟩ hguard hstep
    obtain ⟨last, hlast, hagain⟩ := hendures.invariant.goes_of_step hstep hlater
    exact ⟨hendures.step hguard hstep, last, hlast, hgoes.trans hagain⟩
  obtain ⟨hendures, later, hlater, hgoes⟩ := (hguard.rest hfirst).run_invariant hkeeps
    ⟨hmiddle, found, hpublished, .refl found⟩ hsecond
  have hstays : later.durability = .strict := hgoes.durability.trans hstrict
  obtain ⟨path, hpath, hlasts⟩ := hendures.lasting committed.blobId later hlater hstays
    (hgoes.returned hacknowledged) (hendures.unremoved later hlater)
  have hlook : final.shared.disk.look path = some (.file later.inode) := congrArg Link.current hlasts
  have hcontents := (hendures.invariant.orderly.kept committed.blobId later hlater).contents
    (.inl (by rw [hstays]; exact fun hnone => by cases hnone))
  refine ⟨path, hpath, ?_⟩
  rw [PowerLoss.Disk.read?, hlook]
  exact congrArg some (by rw [← hhanded, ← hgoes.handed]; exact hcontents)

end Runs

/-! ### A power cut -/

section Fixed

/-- The power goes, and the store starts again. -/
def outage : List (Label (Fin 2)) := [.cut (fun _ => 0) fun _ => [], .layOut, .serve]

theorem enduring_outage :
    Trace.Every (step slashConfig) (Enduring catId) start (stores .strict ++ outage) := by
  have hfresh : Trace.Every (step slashConfig) Fresh start (stores .strict ++ outage) := by
    decide +kernel
  have hlabels : ∀ label ∈ stores .strict ++ outage,
      (∀ state : State (Fin 2), KeepsShards state label) ∧ Spares catId label := by
    simp [stores, outage, KeepsShards, Spares, PowerLoss.Disk.keepsDirectories_current]
  exact (hfresh.and (Trace.every_of_forall_mem hlabels start)).imp (fun _ _ _ => trivial)
    (fun _ hguard => ⟨hguard.1, hguard.2.1 _, hguard.2.2⟩) trivial

def Phase.report : Phase → Option Committed
  | .returned committed => some committed
  | _ => none

theorem eq_returned_of_report {phase : Phase} {committed : Committed}
    (h : phase.report = some committed) : phase = .returned committed := by
  cases phase with
  | returned found => exact congrArg Phase.returned (Option.some.inj h)
  | _ => cases h

theorem strict_payload_lasts_outage :
    ∃ path, finalPath catId = .ok path ∧
      (afterRun (stores .strict ++ outage)).shared.disk.read? path = some (ascii "abc") := by
  have hfirst := @run_eq_afterRun (stores .strict) (by decide +kernel)
  have hall := @run_eq_afterRun (stores .strict ++ outage) (by decide +kernel)
  rw [Trace.run_append, hfirst, Option.bind_some] at hall
  have hreturned : (afterRun (stores .strict)).calls 0 = .returned ⟨catId, ascii "abc"⟩ :=
    eq_returned_of_report (by decide +kernel)
  have hpublished : (afterRun (stores .strict)).shared.published catId =
      some ⟨0, ascii "abc", .strict, 0, true, false⟩ := by decide +kernel
  exact strict_payload_lasts enduring_outage hfirst hreturned hpublished rfl hall

end Fixed

end MonoBucket.BlobFiles

/-
A process that dies between two of its writes

The rows and the payload tree are two stores with no transaction between them. An
operation writes a marker, links a file, writes its batch, unlinks files and drops
their markers, each step durable before the next. When the process dies after any of
them, what is left is the rows and the tree of that moment, and `recover` runs on
these: it unlinks every file a marker lists and drops the markers.

With the operations one after another, what `recover` leaves has the rows from before
the interrupted operation or those it would have had after; every payload a row names,
at the size recorded; no other file, and no marker.
-/

import MonoBucket.Storage.BucketSettings
import MonoBucket.Storage.OrphanLog

namespace MonoBucket.CrashRecovery

open EngineCalls
open StoreCalls (Marked)
open Codec

variable {ι : Type} {config : Config}

/-! ### The system -/

/-- The engine's operations that write a bucket's row and nothing else. -/
inductive Edit
  | deleteBucket (name : Bytes)
  | setBucket (name : Bytes) (setting : BucketSettings.Setting)
  deriving DecidableEq

def Edit.call (engine : StorageEngine) : Edit → StorageEngine × Except StoreError Unit
  | .deleteBucket name => engine.deleteBucket name
  | .setBucket name setting => setting.call engine name

inductive Label (ι : Type)
  | engine (label : EngineCalls.Label ι)
  | edit (edit : Edit)

/-- A step of an engine call, or an edit: one write, made or refused. -/
def step [DecidableEq ι] (config : Config) (state : State ι) : Label ι → Option (State ι)
  | .engine label => EngineCalls.step config state label
  | .edit edit =>
    some { state with
      shared := state.shared.withEngine (edit.call (state.shared.engine config)).1 }

/-- A call that has not begun, or is over. -/
def Rests : Phase → Prop
  | .idle | .returned _ => True
  | _ => False

instance : ∀ phase : Phase, Decidable (Rests phase)
  | .idle | .returned _ => isTrue trivial
  | .reserve .. | .track .. | .partFind .. | .partFindAgain .. | .partList ..
  | .completeFind .. | .completeFindAgain .. | .completeList .. | .append .. | .rename ..
  | .extend .. | .store .. | .refuse .. | .look .. | .unlink .. | .sweep _ | .sweepLook ..
  | .sweepList .. | .getRead .. | .getOpen _ | .raise | .snapshot | .scan _ | .copy ..
  | .drop _ => isFalse id

/-- A step that goes on with a call. -/
def Label.Continues : Label ι → Prop
  | .engine label => label.caller ≠ none
  | .edit _ => False

/-- An operation begins when none is under way, every removal succeeds, and the clock
does not go back. -/
def Alone (state : State ι) : Label ι → Prop
  | .edit _ | .engine (.createBucket ..) | .engine (.createUpload _) | .engine (.start ..) =>
    ∀ who, Rests (state.calls who)
  | .engine (.call _ now) => state.shared.clock ≤ now
  | .engine (.remove _ removed) => removed = true
  | .engine (.visit ..) | .engine (.giveUp _) => True

instance [Fintype ι] (state : State ι) : ∀ label, Decidable (Alone state label)
  | .edit _ | .engine (.createBucket ..) | .engine (.createUpload _) | .engine (.start ..) =>
    inferInstanceAs (Decidable (∀ who, Rests (state.calls who)))
  | .engine (.call _ now) => inferInstanceAs (Decidable (state.shared.clock ≤ now))
  | .engine (.remove _ removed) => inferInstanceAs (Decidable (removed = true))
  | .engine (.visit ..) | .engine (.giveUp _) => isTrue trivial

/-! ### What a crash leaves -/

/-- What outlives the process. -/
structure Disk where
  rows : Rows
  tree : OrderedMap Bytes Bytes

def disk (state : State ι) : Disk := ⟨state.rows, state.shared.tree⟩

/-- `reclaimOlderThan` with no limit, at the start: every marker due is of a payload
nobody is writing. -/
def recover (disk : Disk) (now : TimestampMs) : Disk :=
  let blobIds := listOrphans disk.rows disk.rows.entries.length now
  { rows := disk.rows.write (blobIds.map fun blobId => .delete (Keys.orphan blobId))
    tree := blobIds.foldl OrderedMap.erase disk.tree }

/-- The bucket, object, upload and part rows are the ones of another time; so is every
row but the markers. -/
def SameRecords (before after : Rows) : Prop :=
  ∀ key, key.head? ≠ some Keys.kOrphan → after.find? key = before.find? key

/-- Every payload a row names is there at the size recorded, and nothing else is: no
other file, no marker. -/
structure Consistent (disk : Disk) : Prop where
  present : ∀ key, ∀ pair ∈ disk.rows.payloadAt key,
    ∃ body, disk.tree.find? pair.1 = some body ∧ pair.2 = body.length.toUInt64
  named : ∀ blobId, disk.tree.find? blobId ≠ none → disk.rows.Names blobId
  unmarked : ∀ blobId, disk.rows.queuedAt blobId = none

/-! ### Recovery -/

section Recovery

variable {disk : Disk} {now : TimestampMs}

theorem SameRecords.refl (rows : Rows) : SameRecords rows rows := fun _ _ => rfl

theorem SameRecords.trans {first second third : Rows} (h : SameRecords first second)
    (hnext : SameRecords second third) : SameRecords first third :=
  fun key hkey => (hnext key hkey).trans (h key hkey)

theorem SameRecords.symm {first second : Rows} (h : SameRecords first second) :
    SameRecords second first := fun key hkey => (h key hkey).symm

theorem sameRecords_write {rows : Rows} {batch : WriteBatch}
    (h : ∀ op ∈ batch, op.key.head? = some Keys.kOrphan) : SameRecords rows (rows.write batch) := by
  intro key hkey
  refine Rows.find?_write_of_forall_ne rows fun op hop hsame => hkey ?_
  rw [← hsame]
  exact h op hop

theorem SameRecords.payloadAt {before after : Rows} (h : SameRecords before after) (key : Bytes) :
    after.payloadAt key = before.payloadAt key := by
  by_cases hkey : key.head? = some Keys.kOrphan
  · have hnone : ∀ rows : Rows, rows.payloadAt key = none := by
      intro rows
      refine Option.bind_eq_none_iff.mpr fun stored _ => ?_
      exact rowPayload_of_head? hkey (by decide) (by decide)
    rw [hnone, hnone]
  · rw [Rows.payloadAt, h key hkey, Rows.payloadAt]

theorem find?_foldl_erase (blobIds : List Bytes) (tree : OrderedMap Bytes Bytes) (blobId : Bytes) :
    (blobIds.foldl OrderedMap.erase tree).find? blobId =
      if blobId ∈ blobIds then none else tree.find? blobId := by
  induction blobIds generalizing tree with
  | nil => rfl
  | cons first rest ih =>
      rw [List.foldl_cons, ih, tree.find?_erase]
      by_cases hrest : blobId ∈ rest
      · rw [if_pos hrest, if_pos (List.mem_cons_of_mem _ hrest)]
      · by_cases hfirst : blobId = first
        · rw [if_neg hrest, if_pos hfirst, if_pos (by rw [hfirst]; exact List.mem_cons_self)]
        · rw [if_neg hrest, if_neg hfirst,
            if_neg fun hmem => (List.mem_cons.mp hmem).elim hfirst hrest]

/-- `recover` drops markers, and touches no other row. -/
theorem sameRecords_recover (disk : Disk) (now : TimestampMs) :
    SameRecords disk.rows (recover disk now).rows := by
  refine sameRecords_write fun op hop => ?_
  obtain ⟨blobId, -, rfl⟩ := List.mem_map.mp hop
  rfl

/-- The rows are the ones the engine's own `recover` leaves; its limit is the largest size
there is. -/
theorem recover_rows {engine : StorageEngine} (tree : OrderedMap Bytes Bytes)
    (hlimit : engine.metadata.rows.entries.length ≤ 2 ^ 64 - 1) :
    (recover ⟨engine.metadata.rows, tree⟩ now).rows = (engine.recover now).metadata.rows := by
  rw [StorageEngine.recover, rows_forgetOrphans, recover, listOrphans_of_length_le hlimit,
    listOrphans_of_length_le (le_refl _)]

/-- With nothing in flight and no marker of a later time, `recover` leaves what the rows
name and nothing else. -/
theorem consistent_recover
    (hpresent : ∀ key, ∀ pair ∈ disk.rows.payloadAt key,
      ∃ body, disk.tree.find? pair.1 = some body ∧ pair.2 = body.length.toUInt64)
    (haccounted : ∀ blobId, disk.tree.find? blobId ≠ none →
      disk.rows.Names blobId ∨ Marked disk.rows blobId)
    (hunmarked : ∀ blobId, disk.rows.Names blobId → disk.rows.queuedAt blobId = none)
    (hdated : ∀ blobId, ∀ queuedAt ∈ disk.rows.queuedAt blobId, queuedAt ≤ now) :
    Consistent (recover disk now) := by
  have hlisted : ∀ {blobId : Bytes}, Marked disk.rows blobId →
      blobId ∈ listOrphans disk.rows disk.rows.entries.length now := by
    intro blobId hmarked
    obtain ⟨queuedAt, hqueued⟩ := Option.ne_none_iff_exists'.mp hmarked
    exact mem_listOrphans_of_queuedAt (le_refl _) hqueued
      (Int64.not_lt.mpr (hdated blobId queuedAt hqueued))
  have hkept : ∀ {blobId : Bytes}, disk.rows.Names blobId →
      blobId ∉ listOrphans disk.rows disk.rows.entries.length now := fun hnames hmem =>
    marked_of_mem_listOrphans hmem (hunmarked _ hnames)
  have hsame := sameRecords_recover disk now
  refine ⟨fun key pair hpair => ?_, fun blobId hthere => ?_, fun blobId => ?_⟩
  · rw [hsame.payloadAt] at hpair
    obtain ⟨body, hbody, hsize⟩ := hpresent key pair hpair
    refine ⟨body, ?_, hsize⟩
    have hnames : disk.rows.Names pair.1 := by
      refine ⟨key, ?_⟩
      rw [Rows.blobAt_eq_payloadAt, hpair]
      rfl
    rw [recover, find?_foldl_erase, if_neg (hkept hnames)]
    exact hbody
  · rw [recover, find?_foldl_erase] at hthere
    split at hthere
    · exact absurd rfl hthere
    · rename_i hunlisted
      obtain ⟨key, hkey⟩ := (haccounted blobId hthere).resolve_right fun hmarked =>
        hunlisted (hlisted hmarked)
      refine ⟨key, ?_⟩
      rw [Rows.blobAt_eq_payloadAt, hsame.payloadAt, ← Rows.blobAt_eq_payloadAt]
      exact hkey
  · rw [recover, queuedAt_forget]
    split
    · rfl
    · rename_i hunlisted
      by_contra hmarked
      exact hunlisted (hlisted hmarked)

end Recovery

/-! ### One operation at a time -/

structure Orderly (config : Config) (state : State ι) : Prop where
  listed : Listed config state
  kept : EngineCalls.Kept state
  filed : Filed state
  sole : ∀ {who other}, ¬ Rests (state.calls who) → ¬ Rests (state.calls other) → who = other
  linked : ∀ {who blobId}, (state.calls who).linked = some blobId →
    state.shared.tree.find? blobId ≠ none
  noted : ∀ {who key blobId}, (key, blobId) ∈ (state.calls who).call.notes →
    state.rows.blobAt key = some blobId
  dated : ∀ {blobId queuedAt}, state.rows.queuedAt blobId = some queuedAt →
    queuedAt ≤ state.shared.clock

section Steps

variable {state next : State ι} {shared : Shared ι} {now : TimestampMs} {who : ι}
  {phase before after : Phase} {effect : Effect} {blobId : Bytes}

theorem not_rests_of_move (hmove : Move config shared now before effect after) :
    ¬ Rests before := by
  cases hmove with
  | fail hphase => cases before <;> first | exact id | exact hphase.elim
  | refused hphase => cases before <;> first | exact id | cases hphase
  | giveUp hphase => cases before <;> first | exact id | exact hphase.elim
  | _ => exact id

theorem Rests.doomed (h : Rests phase) : phase.doomed = [] := by
  cases phase <;> first | rfl | exact h.elim

theorem Rests.linked (h : Rests phase) : phase.linked = none := by
  cases phase <;> first | rfl | exact h.elim

theorem Rests.unlinked (h : Rests phase) : phase.unlinked = none := by
  cases phase <;> first | rfl | exact h.elim

theorem Rests.notes (h : Rests phase) : phase.call.notes = [] := by
  cases phase <;> first | rfl | exact h.elim

/-- While one call is under way every other rests. -/
theorem Orderly.others (h : Orderly config state) (hwho : ¬ Rests (state.calls who)) {other : ι}
    (hother : other ≠ who) : Rests (state.calls other) := by
  by_contra hbusy
  exact hother (h.sole hbusy hwho)

theorem not_rests_of_commits {commit : StoreCalls.Commit} (h : phase.commits = some commit) :
    ¬ Rests phase := by
  cases phase with
  | store bucket reservation call => exact id
  | _ => cases h

theorem doomed_of_commits {commit : StoreCalls.Commit} (h : phase.commits = some commit) :
    phase.doomed = [] := by
  cases phase with
  | store bucket reservation call =>
      cases call with
      | write other => rfl
      | _ => cases h
  | _ => cases h

theorem Orderly.safe (h : Orderly config state) (label : EngineCalls.Label ι) :
    Safe state label := by
  intro who _ commit hcommit blobId hput
  obtain ⟨-, hlinked, -⟩ := hand_of_commits hcommit
  refine ⟨h.linked (hlinked.trans hput), fun other hdoomed => ?_⟩
  by_cases hother : other = who
  · rw [hother, doomed_of_commits hcommit] at hdoomed
    cases hdoomed
  · rw [(h.others (not_rests_of_commits hcommit) hother).doomed] at hdoomed
    cases hdoomed

theorem Orderly.endsAsRead (h : Orderly config state) (label : EngineCalls.Label ι) :
    EndsAsRead state label := by
  intro who _ commit hcommit
  obtain ⟨-, -, hnotes⟩ := hand_of_commits hcommit
  have hparts : ∀ {upload : UploadRecord} {parts : List PartRecord},
      (∀ pair ∈ StoreCalls.Commit.releasedParts upload.uploadId parts, pair ∈ commit.released) →
      ∀ part ∈ parts, ∀ blobId ∈ state.rows.blobAt (Keys.part upload.uploadId part.partNumber),
        blobId = part.blobId.items := by
    intro upload parts hreleased part hpart blobId hblob
    have hnoted := hreleased _ (List.mem_map.mpr ⟨part, hpart, rfl⟩)
    rw [← hnotes] at hnoted
    exact Option.some.inj ((Option.mem_def.mp hblob).symm.trans (h.noted hnoted))
  cases commit with
  | abortUpload upload parts => exact hparts fun _ hpair => hpair
  | completeUpload bucket upload object previous parts =>
      exact hparts fun _ hpair => List.mem_append_right _ hpair
  | _ => trivial

theorem Orderly.passesOver (h : Orderly config state) (label : EngineCalls.Label ι) :
    PassesOver state label := by
  intro who _ pass hpass blobId _ other hunlinked
  by_cases hother : other = who
  · rw [hother] at hunlinked
    generalize state.calls who = phase at hpass hunlinked
    cases phase with
    | sweepList limit cutoff => cases hunlinked
    | _ => cases hpass
  · have hbusy : ¬ Rests (state.calls who) := by
      generalize state.calls who = phase at hpass
      cases phase with
      | sweepList limit cutoff => exact id
      | _ => cases hpass
    rw [(h.others hbusy hother).unlinked] at hunlinked
    cases hunlinked

variable [DecidableEq ι]

theorem Orderly.linked_take (h : Orderly config state)
    (hmove : Move config state.shared now (state.calls who) effect phase) :
    ∀ other blobId, ((state.take config who now (effect, phase)).calls other).linked = some blobId →
      (effect.apply config who now state.shared).tree.find? blobId ≠ none := by
  refine forall_take (P := fun _ held => ∀ blobId, held.linked = some blobId →
    (effect.apply config who now state.shared).tree.find? blobId ≠ none)
    (fun blobId hlinked => ?_) fun other hother blobId hlinked => ?_
  · rcases linked_of_move hmove hlinked with hold | ⟨body, rfl⟩
    · refine tree_kept (h.linked hold) fun hunlink => ?_
      obtain ⟨_, _, _, _, hphase⟩ := phase_of_unlinks (unlinks_of_move hmove hunlink)
      rw [hphase] at hold
      cases hold
    · rw [tree_apply]
      dsimp only
      rw [if_pos rfl]
      exact Option.some_ne_none body
  · rw [(h.others (not_rests_of_move hmove) hother).linked] at hlinked
    cases hlinked

theorem Orderly.noted_take (h : Orderly config state)
    (hmove : Move config state.shared now (state.calls who) effect phase) :
    ∀ other key blobId,
      (key, blobId) ∈ ((state.take config who now (effect, phase)).calls other).call.notes →
      (effect.apply config who now state.shared).rows.blobAt key = some blobId := by
  refine forall_take (P := fun _ held => ∀ key blobId, (key, blobId) ∈ held.call.notes →
    (effect.apply config who now state.shared).rows.blobAt key = some blobId)
    (fun key blobId hnoted => ?_) fun other hother key blobId hnoted => ?_
  · rcases call_of_move hmove with ⟨inner, rfl, hinner, -⟩ | ⟨-, -, houtside⟩
    · by_cases hwrite : ∃ commit, inner = .write commit
      · obtain ⟨commit, rfl⟩ := hwrite
        rw [(StoreCalls.locks_of_move hinner).2] at hnoted
        cases hnoted
      · rw [blobAt_apply fun commit hsame => hwrite ⟨commit, Effect.store.inj hsame⟩]
        exact (StoreCalls.notes_of_move hinner hnoted).elim (fun hold => h.noted hold) id
    · rw [houtside.notes] at hnoted
      cases hnoted
  · rw [(h.others (not_rests_of_move hmove) hother).notes] at hnoted
    cases hnoted

omit [DecidableEq ι] in
theorem Orderly.dated_apply (h : Orderly config state) (hclock : state.shared.clock ≤ now)
    {queuedAt : TimestampMs}
    (hqueued : (effect.apply config who now state.shared).rows.queuedAt blobId = some queuedAt) :
    queuedAt ≤ now := by
  have hold : state.rows.queuedAt blobId = some queuedAt → queuedAt ≤ now := fun hqueued =>
    Int64.le_trans (h.dated hqueued) hclock
  rw [queuedAt_apply] at hqueued
  cases effect with
  | track marked =>
      dsimp only at hqueued
      split at hqueued
      · obtain rfl := Option.some.inj hqueued
        exact Int64.le_refl _
      · exact hold hqueued
  | forget blobIds =>
      dsimp only at hqueued
      split at hqueued
      · cases hqueued
      · exact hold hqueued
  | store inner =>
      cases inner with
      | write commit =>
          dsimp only at hqueued
          rw [StoreCalls.queuedAt_commit] at hqueued
          split at hqueued
          · obtain rfl := Option.some.inj hqueued
            exact Int64.le_refl _
          · split at hqueued
            · cases hqueued
            · exact hold hqueued
      | _ => exact hold hqueued
  | _ => exact hold hqueued

/-- Whoever is under way after a step was before, or has just begun. -/
theorem Orderly.sole_step (h : Orderly config state) {label : EngineCalls.Label ι}
    (halone : Alone state (.engine label)) (hstep : EngineCalls.step config state label = some next)
    {who other : ι} (hwho : ¬ Rests (next.calls who)) (hother : ¬ Rests (next.calls other)) :
    who = other := by
  have hone : ∀ {mover : ι} {shared : Shared ι} {phase : Phase},
      (∀ other, other ≠ mover → Rests (state.calls other)) →
      ∀ {who : ι}, ¬ Rests ((state.move mover shared phase).calls who) → who = mover := by
    intro mover shared phase hrest who hwho
    by_contra hne
    rw [state.move_calls_of_ne _ _ hne] at hwho
    exact hwho (hrest who hne)
  cases turn_of_step hstep with
  | createBucket hstore => exact h.sole hwho hother
  | createUpload hnew hstore => exact h.sole hwho hother
  | @start starter request hidle =>
      have hrest : ∀ third, third ≠ starter → Rests (state.calls third) := fun third _ =>
        halone third
      exact (hone hrest hwho).trans (hone hrest hother).symm
  | move hcaller hmove hremoves =>
      have hrest := fun third (hthird : third ≠ _) => h.others (not_rests_of_move hmove) hthird
      exact (hone hrest hwho).trans (hone hrest hother).symm

theorem Orderly.engine (h : Orderly config state) {label : EngineCalls.Label ι}
    (halone : Alone state (.engine label))
    (hstep : EngineCalls.step config state label = some next) : Orderly config next := by
  have hclock : state.shared.clock ≤ label.now state.shared.clock := by
    cases label with
    | call who now => exact halone
    | _ => exact Int64.le_refl _
  have habsent : OnlyAbsentFails state label := by
    cases label with
    | remove who removed =>
        obtain rfl : removed = true := halone
        trivial
    | _ => trivial
  refine
    { listed := h.listed.step habsent (h.endsAsRead label) (h.passesOver label) hstep
      kept := h.kept.step (h.safe label) hstep
      filed := h.filed.step h.kept.sound hstep
      sole := h.sole_step halone hstep
      linked := ?_, noted := ?_, dated := ?_ }
  all_goals
    rcases quiet_or_move (turn_of_step hstep) with hquiet | ⟨who, effect, phase, -, hmove, -, rfl⟩
  · intro who blobId hlinked
    rw [hquiet.linked] at hlinked
    rw [hquiet.tree]
    exact h.linked hlinked
  · exact h.linked_take hmove _ _
  · intro who key blobId hnoted
    rw [hquiet.calls (fun phase => phase.call.notes)
      (fun request => (outside_begun request).notes)] at hnoted
    rw [hquiet.blobAt]
    exact h.noted hnoted
  · exact h.noted_take hmove _ _ _
  · intro blobId queuedAt hqueued
    rw [hquiet.queuedAt] at hqueued
    rw [hquiet.clock]
    exact h.dated hqueued
  · intro blobId queuedAt hqueued
    rw [shared_take, clock_apply]
    exact h.dated_apply hclock hqueued

end Steps

/-! ### Edits -/

section Edits

variable {state : State ι} {engine : StorageEngine}

theorem onlyBucket_call (engine : StorageEngine) (edit : Edit) :
    ∃ name, StorageEngine.OnlyBucket name engine.metadata.rows (edit.call engine).1.metadata.rows := by
  have honly : ∀ {name : Bytes} {after : Rows},
      StorageEngine.Rewrites name engine.metadata.rows after →
      StorageEngine.OnlyBucket name engine.metadata.rows after := fun h => h.mono fun _ hop => hop.1
  cases edit with
  | deleteBucket name => exact ⟨name, honly StorageEngine.rewrites_deleteBucket⟩
  | setBucket name setting =>
      refine ⟨name, honly ?_⟩
      cases setting with
      | quota quotaBytes => exact StorageEngine.rewrites_setBucketQuota quotaBytes
      | publicRead read => exact StorageEngine.rewrites_rewriteBucket fun _ => rfl
      | policy document read list => exact StorageEngine.rewrites_rewriteBucket fun _ => rfl
      | cors rules => exact StorageEngine.rewrites_rewriteBucket fun _ => rfl
      | durability override => exact StorageEngine.rewrites_rewriteBucket fun _ => rfl

theorem holds_call {Q : Bytes → Bytes → Prop} (hrows : engine.metadata.rows.Holds Q)
    (hbucket : ∀ bucket : BucketRecord, Q (Keys.bucket bucket.name) (encodeBucket bucket))
    (edit : Edit) : (edit.call engine).1.metadata.rows.Holds Q := by
  cases edit with
  | deleteBucket name => exact StorageEngine.holds_deleteBucket hrows
  | setBucket name setting =>
      cases setting with
      | quota quotaBytes =>
          exact StorageEngine.holds_setBucketQuota hrows fun bucket _ =>
            hbucket { bucket with quotaBytes := quotaBytes }
      | publicRead read => exact StorageEngine.holds_rewriteBucket hrows fun _ _ => hbucket _
      | policy document read list => exact StorageEngine.holds_rewriteBucket hrows fun _ _ => hbucket _
      | cors rules => exact StorageEngine.holds_rewriteBucket hrows fun _ _ => hbucket _
      | durability override => exact StorageEngine.holds_rewriteBucket hrows fun _ _ => hbucket _

theorem quiet_edit (state : State ι) (edit : Edit) :
    Quiet state { state with
      shared := state.shared.withEngine (edit.call (state.shared.engine config)).1 } := by
  obtain ⟨name, batch, hrows, hbatch⟩ := onlyBucket_call (state.shared.engine config) edit
  obtain ⟨hblobAt, hqueuedAt⟩ := quiet_of_tags hrows fun op hop => by
    rw [hbatch op hop]
    exact ⟨Keys.kBucket, rfl, by decide, by decide, by decide⟩
  exact quiet_of_rows hblobAt hqueuedAt rfl rfl rfl rfl rfl

theorem Orderly.edit (h : Orderly config state) (edit : Edit) :
    Orderly config { state with
      shared := state.shared.withEngine (edit.call (state.shared.engine config)).1 } := by
  have hquiet : Quiet state { state with
      shared := state.shared.withEngine (edit.call (state.shared.engine config)).1 } :=
    quiet_edit state edit
  refine
    { listed := h.listed.quiet hquiet
      kept := h.kept.quiet hquiet
      filed := ?_
      sole := h.sole
      linked := h.linked
      noted := ?_
      dated := ?_ }
  · refine
      { rows := ?_, files := h.filed.files, known := h.filed.known, unlinked := h.filed.unlinked,
        carried := h.filed.carried }
    refine holds_call h.filed.rows (fun bucket => ?_) edit
    exact Filed.other_row (.bucket bucket trivial) rfl (by decide) (by decide)
  · intro who key blobId hnoted
    rw [hquiet.blobAt]
    exact h.noted hnoted
  · intro blobId queuedAt hqueued
    rw [hquiet.queuedAt] at hqueued
    exact h.dated hqueued

end Edits

/-! ### One commit an operation -/

/-- A call that may still come to its commit. -/
def MayCommit : Phase → Prop
  | .store _ _ (.settle _) | .store _ _ (.returned _) => False
  | .reserve .. | .track .. | .partFind .. | .partFindAgain .. | .partList .. | .completeFind ..
  | .completeFindAgain .. | .completeList .. | .append .. | .rename .. | .extend .. | .store .. =>
    True
  | _ => False

section Commits

variable {state next : State ι} {shared : Shared ι} {now : TimestampMs} {who : ι}
  {phase before after : Phase} {effect : Effect}

/-- A call makes at most one commit. -/
theorem mayCommit_of_move (hmove : Move config shared now before effect after)
    (h : MayCommit after ∨ ∃ commit, effect = .store (.write commit)) : MayCommit before := by
  cases hmove with
  | store hinner hfree =>
      cases hinner with
      | settle =>
          rcases h with hafter | ⟨commit, hwrite⟩
          · exact hafter
          · cases hwrite
      | throw hphase hanswer =>
          rcases h with hafter | ⟨commit, hwrite⟩
          · exact hafter.elim
          · cases hwrite
      | give hphase hanswer =>
          rcases h with hafter | ⟨commit, hwrite⟩
          · exact hafter.elim
          · cases hwrite
      | _ => trivial
  | reserve hreserve => trivial
  | track hnew => trivial
  | partFind hload => trivial
  | partFindAgain => trivial
  | partList => trivial
  | completeFind hload => trivial
  | completeFindAgain => trivial
  | completeList => trivial
  | append hfind => trivial
  | appended => trivial
  | rename => trivial
  | extend hextend => trivial
  | _ =>
      rcases h with hafter | ⟨commit, hwrite⟩
      · exact hafter.elim
      · cases hwrite

theorem Rests.not_mayCommit (h : Rests phase) : ¬ MayCommit phase := by
  cases phase <;> first | exact id | exact h.elim

/-- Without a commit only markers change. -/
theorem sameRecords_apply [DecidableEq ι] (h : ∀ commit, effect ≠ .store (.write commit)) :
    SameRecords shared.rows (effect.apply config who now shared).rows := by
  cases effect with
  | track blobId =>
      refine sameRecords_write fun op hop => ?_
      rw [List.mem_singleton.mp hop]
      rfl
  | forget blobIds =>
      show SameRecords shared.rows (forgetOrphans shared.store.store blobIds).rows
      rw [rows_forgetOrphans]
      refine sameRecords_write fun op hop => ?_
      obtain ⟨blobId, -, rfl⟩ := List.mem_map.mp hop
      rfl
  | store inner =>
      cases inner with
      | write commit => exact absurd rfl (h commit)
      | _ => exact .refl _
  | _ => exact .refl _

end Commits

/-! ### Every run -/

section Runs

variable [DecidableEq ι] {state next begun crashed : State ι} {label first : Label ι}
  {before steps : List (Label ι)} {now : TimestampMs}

theorem Orderly.step (h : Orderly config state) (halone : Alone state label)
    (hstep : CrashRecovery.step config state label = some next) : Orderly config next := by
  cases label with
  | engine label => exact h.engine halone hstep
  | edit edit =>
      obtain rfl := Option.some.inj hstep
      exact h.edit edit

omit [DecidableEq ι] in
theorem orderly_emptyStart : Orderly config (emptyStart : State ι) where
  listed := listed_emptyStart
  kept := kept_emptyStart
  filed := filed_emptyStart
  sole := fun h => absurd trivial h
  linked := fun h => nomatch h
  noted := fun h => nomatch h
  dated := fun h => nomatch h

/-- The rows are still the ones a moment had, or no call can commit any more. -/
def Settled (begun state : State ι) : Prop :=
  SameRecords begun.rows state.rows ∨ ∀ who, ¬ MayCommit (state.calls who)

/-- A call that goes on makes its one commit, or leaves the rows alone. -/
theorem Settled.continue (h : Settled begun state) (horderly : Orderly config state)
    (hcontinues : label.Continues) (hstep : CrashRecovery.step config state label = some next) :
    Settled begun next := by
  cases label with
  | edit edit => exact hcontinues.elim
  | engine label =>
      cases turn_of_step hstep with
      | createBucket hstore => exact absurd rfl hcontinues
      | createUpload hnew hstore => exact absurd rfl hcontinues
      | start hidle => exact absurd rfl hcontinues
      | @move label who effect phase hwho hmove hremoves =>
          by_cases hwrite : ∃ commit, effect = .store (.write commit)
          · refine Or.inr (forall_take (P := fun _ held => ¬ MayCommit held) ?_ fun other hother => ?_)
            · obtain ⟨commit, rfl⟩ := hwrite
              obtain ⟨bucket, reservation, -, rfl⟩ := phase_of_write hmove rfl
              exact id
            · exact (horderly.others (not_rests_of_move hmove) hother).not_mayCommit
          · refine h.imp (fun hsame => hsame.trans (sameRecords_apply fun commit hcommit =>
              hwrite ⟨commit, hcommit⟩)) fun hdone => ?_
            refine forall_take (P := fun _ held => ¬ MayCommit held) (fun hmay => ?_)
              fun other _ => hdone other
            exact hdone who (mayCommit_of_move hmove (Or.inl hmay))

/-- Once no call can commit, what goes on leaves the rows alone. -/
theorem sameRecords_of_run {rest : List (Label ι)} {final : State ι}
    (hdone : ∀ who, ¬ MayCommit (state.calls who)) (hcontinues : ∀ label ∈ rest, label.Continues)
    (hrun : Trace.run (CrashRecovery.step config) state rest = some final) :
    SameRecords state.rows final.rows := by
  have hkeeps : ∀ {earlier later : State ι} {label : Label ι},
      (SameRecords state.rows earlier.rows ∧ ∀ who, ¬ MayCommit (earlier.calls who)) →
      label.Continues → CrashRecovery.step config earlier label = some later →
      SameRecords state.rows later.rows ∧ ∀ who, ¬ MayCommit (later.calls who) := by
    rintro earlier later label ⟨hsame, hdone⟩ hcontinues hstep
    cases label with
    | edit edit => exact hcontinues.elim
    | engine label =>
        cases turn_of_step hstep with
        | createBucket hstore => exact absurd rfl hcontinues
        | createUpload hnew hstore => exact absurd rfl hcontinues
        | start hidle => exact absurd rfl hcontinues
        | @move label who effect phase hwho hmove hremoves =>
            refine ⟨hsame.trans (sameRecords_apply fun commit hwrite => ?_), ?_⟩
            · exact hdone who (mayCommit_of_move hmove (Or.inr ⟨commit, hwrite⟩))
            · refine forall_take (P := fun _ held => ¬ MayCommit held) (fun hmay => ?_)
                fun other _ => hdone other
              exact hdone who (mayCommit_of_move hmove (Or.inl hmay))
  exact ((Trace.every_of_forall_mem hcontinues state).run_invariant hkeeps ⟨.refl _, hdone⟩ hrun).1

/-- An operation that begins leaves the rows alone; one that is a single write is over
with it. -/
theorem settled_of_first (hrests : ∀ who, Rests (begun.calls who))
    (hstep : CrashRecovery.step config begun first = some next) : Settled begun next := by
  have hdone : ∀ who, ¬ MayCommit (begun.calls who) := fun who => (hrests who).not_mayCommit
  cases first with
  | edit edit =>
      obtain rfl := Option.some.inj hstep
      exact Or.inr hdone
  | engine label =>
      cases turn_of_step hstep with
      | createBucket hstore => exact Or.inr hdone
      | createUpload hnew hstore => exact Or.inr hdone
      | start hidle => exact Or.inl (.refl _)
      | move hwho hmove hremoves => exact absurd (hrests _) (not_rests_of_move hmove)

/-- From the empty store, operations one after another with a clock that does not go
back and removals that succeed; the process dies after any step of the next one, and
`recover` runs at that time or later. What it leaves has every payload a row names, at
its size, no other file and no marker; and the rows of before the operation, or those
the operation would have left, however it went on. -/
theorem recovered_of_alone
    (halone : Trace.Every (CrashRecovery.step config) Alone emptyStart (before ++ first :: steps))
    (hbefore : Trace.run (CrashRecovery.step config) emptyStart before = some begun)
    (hcompleted : ∀ who, Rests (begun.calls who))
    (hsteps : ∀ label ∈ steps, label.Continues)
    (hcrash : Trace.run (CrashRecovery.step config) begun (first :: steps) = some crashed)
    (hnow : crashed.shared.clock ≤ now) :
    Consistent (recover (disk crashed) now) ∧
      (SameRecords begun.rows (recover (disk crashed) now).rows ∨
        ∀ rest final, (∀ label ∈ rest, label.Continues) →
          Trace.run (CrashRecovery.step config) crashed rest = some final →
          SameRecords final.rows (recover (disk crashed) now).rows) := by
  have hkept : ∀ {earlier later : State ι} {label : Label ι}, Orderly config earlier →
      Alone earlier label → CrashRecovery.step config earlier label = some later →
      Orderly config later := fun h halone hstep => h.step halone hstep
  have hbegun := halone.front.run_invariant hkept orderly_emptyStart hbefore
  obtain ⟨started, hfirst, hrest⟩ := Trace.run_cons_eq_some.mp hcrash
  have hduring := halone.rest hbefore
  have hstarted := hkept hbegun hduring.1 hfirst
  have hgoes : ∀ {earlier later : State ι} {label : Label ι},
      Orderly config earlier ∧ Settled begun earlier → Alone earlier label ∧ label.Continues →
      CrashRecovery.step config earlier label = some later →
      Orderly config later ∧ Settled begun later :=
    fun h hmeets hstep => ⟨hkept h.1 hmeets.1 hstep, h.2.continue h.1 hmeets.2 hstep⟩
  have hmeets := (hduring.2 started hfirst).and (Trace.every_of_forall_mem hsteps started)
  obtain ⟨horderly, hsettled⟩ :=
    hmeets.run_invariant hgoes ⟨hstarted, settled_of_first hcompleted hfirst⟩ hrest
  have hrecovered := sameRecords_recover (disk crashed) now
  refine ⟨consistent_recover (fun key pair hpair => ?_) horderly.listed.accounted
    horderly.kept.unmarked fun blobId queuedAt hqueued =>
      Int64.le_trans (horderly.dated hqueued) hnow, ?_⟩
  · obtain ⟨stored, hfind, hrow⟩ := Option.bind_eq_some_iff.mp hpair
    obtain ⟨body, hwritten, hsize⟩ := (horderly.filed.rows key stored hfind).2 pair hrow
    have hnames : crashed.rows.Names pair.1 := by
      refine ⟨key, ?_⟩
      rw [Rows.blobAt_eq_payloadAt, show crashed.rows.payloadAt key = some pair from hpair]
      rfl
    obtain ⟨content, hcontent⟩ := Option.ne_none_iff_exists'.mp (horderly.kept.present _ hnames)
    have hsame := horderly.filed.files hcontent
    rw [hwritten] at hsame
    obtain rfl := Option.some.inj hsame
    exact ⟨body, hcontent, hsize⟩
  · refine hsettled.imp (fun hsame => hsame.trans hrecovered) fun hdone rest final hcontinues hrun => ?_
    exact (sameRecords_of_run hdone hcontinues hrun).symm.trans hrecovered

end Runs

/-! ### A fixed run -/

section Fixed

def afterAlone (labels : List (Label (Fin 4))) : State (Fin 4) :=
  (Trace.run (CrashRecovery.step sampleConfig) emptyStart labels).getD emptyStart

def storesAlone : List (Label (Fin 4)) := stores.map .engine

/-- An object stored over another. -/
def overwriteBegins : Label (Fin 4) :=
  .engine (.start 1 (.putObject (ascii "photos") secondPicture (ascii "noon") 4))

/-- The process dies when the batch is written and the file of the first is not yet
unlinked. -/
def untilCommit : List (Label (Fin 4)) := (calls 1 9 2).map .engine

theorem recovered_of_alone_overwriting :
    Consistent (recover (disk (afterAlone (storesAlone ++ overwriteBegins :: untilCommit))) 5) ∧
      (SameRecords (afterAlone storesAlone).rows
          (recover (disk (afterAlone (storesAlone ++ overwriteBegins :: untilCommit))) 5).rows ∨
        ∀ rest final, (∀ label ∈ rest, label.Continues) →
          Trace.run (CrashRecovery.step sampleConfig)
            (afterAlone (storesAlone ++ overwriteBegins :: untilCommit)) rest = some final →
          SameRecords final.rows
            (recover (disk (afterAlone (storesAlone ++ overwriteBegins :: untilCommit))) 5).rows) := by
  have hstored : (Trace.run (CrashRecovery.step sampleConfig) emptyStart storesAlone).isSome := by
    decide +kernel
  have hruns : (Trace.run (CrashRecovery.step sampleConfig) emptyStart
      (storesAlone ++ overwriteBegins :: untilCommit)).isSome := by
    decide +kernel
  obtain ⟨begun, hbegun⟩ := Option.isSome_iff_exists.mp hstored
  obtain ⟨crashed, hcrashed⟩ := Option.isSome_iff_exists.mp hruns
  have hbefore : afterAlone storesAlone = begun := by rw [afterAlone, hbegun]; rfl
  have hafter : afterAlone (storesAlone ++ overwriteBegins :: untilCommit) = crashed := by
    rw [afterAlone, hcrashed]
    rfl
  have hrests : ∀ who, Rests ((afterAlone storesAlone).calls who) := by decide +kernel
  have hclock : (afterAlone (storesAlone ++ overwriteBegins :: untilCommit)).shared.clock ≤ 5 := by
    decide +kernel
  have hcontinues : ∀ label ∈ untilCommit, label.Continues := by
    intro label hlabel
    obtain ⟨call, hcall, rfl⟩ := List.mem_map.mp hlabel
    rw [List.eq_of_mem_replicate hcall]
    exact Option.some_ne_none 1
  have halone : Trace.Every (CrashRecovery.step sampleConfig) Alone emptyStart
      (storesAlone ++ overwriteBegins :: untilCommit) := by
    decide +kernel
  rw [Trace.run_append, hbegun, Option.bind_some] at hcrashed
  rw [hbefore] at hrests ⊢
  rw [hafter] at hclock ⊢
  exact recovered_of_alone halone hbegun hrests hcontinues hcrashed hclock

end Fixed

end MonoBucket.CrashRecovery

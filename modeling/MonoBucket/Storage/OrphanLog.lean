/-
Every file named or on the reclamation list

A payload is on the list from before its file is written until its row is, and again
from the batch that takes its row away. A reclaim takes the files off the tree one
by one and then drops their records all together, whatever each removal came to; so
a removal that fails leaves a file that nothing names and nothing lists.

Three things keep that from happening. A removal fails only where there is no file;
no pass takes up a payload whose file is still to be linked in; and the end of an
upload drops no part that has come to name another payload since it was read. Then
every file in the tree is named by a row or listed, after every step of every run.
-/

import MonoBucket.Storage.Payloads

namespace MonoBucket

open Codec

/-! ### What a store call has read of the row it has locked -/

namespace StoreCalls

/-- The row a call has locked and read. -/
def Phase.loaded : Phase → Option Bytes
  | .completeCollect bucket _ object _ => some (Keys.object bucket object.key)
  | .write commit => some commit.lockKey
  | _ => none

/-- The part rows the end of an upload drops name what they did when they were
read, if they are still there. -/
def Commit.PartsStand (rows : Rows) : Commit → Prop
  | .abortUpload upload parts | .completeUpload _ upload _ _ parts =>
    ∀ part ∈ parts, ∀ blobId ∈ rows.blobAt (Keys.part upload.uploadId part.partNumber),
      blobId = part.blobId.items
  | .putObject .. | .deleteObject .. | .putPart .. => True

instance (rows : Rows) : ∀ commit, Decidable (Commit.PartsStand rows commit)
  | .abortUpload .. | .completeUpload .. => inferInstanceAs (Decidable (∀ part ∈ _, _))
  | .putObject .. | .deleteObject .. | .putPart .. => isTrue trivial

section Loaded

variable {rows : Rows} {phase next : Phase} {effect : Effect} {commit : Commit} {key blobId : Bytes}

theorem locks_of_loaded (h : phase.loaded = some key) : phase.locks = some key := by
  cases phase with
  | completeCollect bucket upload object previous => exact h
  | write commit => exact h
  | _ => cases h

theorem published_lockKey (h : commit.published.map Prod.fst = some key) : commit.lockKey = key := by
  cases commit with
  | putObject bucket object previous => exact Option.some.inj h
  | putPart uploadId part previous => exact Option.some.inj h
  | completeUpload bucket upload object previous parts => exact Option.some.inj h
  | _ => cases h

theorem blobAt_uploadById (uploadId : Bytes) : rows.blobAt (Keys.uploadById uploadId) = none := by
  have hkind : (Keys.uploadById uploadId).head? = some Keys.kUploadById := rfl
  exact blobAt_of_tag hkind (by decide) (by decide)

/-- What the row a call has locked names, the call has noted. -/
theorem noted_of_move (hmove : Move rows phase effect next)
    (hnoted : ∀ key blobId, phase.loaded = some key → rows.blobAt key = some blobId →
      (key, blobId) ∈ phase.notes)
    (hloaded : next.loaded = some key) (hblob : rows.blobAt key = some blobId) :
    (key, blobId) ∈ next.notes := by
  cases hmove with
  | putLoad hload =>
      obtain rfl := Option.some.inj hloaded
      exact mem_replacedObject_of_current hload hblob
  | deleteLoad hload =>
      obtain rfl := Option.some.inj hloaded
      rw [Commit.lockKey, blobAt_of_loadObject hload] at hblob
      obtain rfl := Option.some.inj hblob
      exact List.mem_singleton_self _
  | partLoad hload =>
      obtain rfl := Option.some.inj hloaded
      rw [Commit.lockKey, blobAt_of_loadPart hload] at hblob
      obtain ⟨old, hold, rfl⟩ := Option.map_eq_some_iff.mp hblob
      exact List.mem_map.mpr ⟨old, Option.mem_toList.mpr hold, rfl⟩
  | abortCollect hparts =>
      obtain rfl := Option.some.inj hloaded
      rw [Commit.lockKey, blobAt_uploadById] at hblob
      cases hblob
  | completeLoad hload =>
      obtain rfl := Option.some.inj hloaded
      exact mem_replacedObject_of_current hload hblob
  | completeCollect hparts => exact List.mem_append_left _ (hnoted key blobId hloaded hblob)
  | _ => cases hloaded

/-- A commit under another lock takes the row away or leaves it. -/
theorem blobAt_of_other_commit {now : TimestampMs} (hlock : commit.lockKey ≠ key)
    (h : (rows.write (commit.batch now)).blobAt key = some blobId) :
    rows.blobAt key = some blobId := by
  rw [blobAt_commit] at h
  rcases Commit.blobAfter_cases h with hput | ⟨-, hkept⟩
  · exact absurd (published_lockKey (congrArg (Option.map Prod.fst) hput)) hlock
  · exact hkept

/-- What the rows a batch clears or writes over name, it releases. -/
theorem mem_released_of_noted
    (hnoted : ∀ blobId, rows.blobAt commit.lockKey = some blobId →
      (commit.lockKey, blobId) ∈ commit.released)
    (hparts : commit.PartsStand rows) (hblob : rows.blobAt key = some blobId)
    (hkey : commit.published.map Prod.fst = some key ∨ key ∈ commit.released.map Prod.fst) :
    (key, blobId) ∈ commit.released := by
  have hlocked : commit.lockKey = key → (key, blobId) ∈ commit.released := by
    rintro rfl
    exact hnoted blobId hblob
  have hended : ∀ {upload : UploadRecord} {parts : List PartRecord},
      (∀ part ∈ parts, ∀ blobId ∈ rows.blobAt (Keys.part upload.uploadId part.partNumber),
        blobId = part.blobId.items) →
      key ∈ (Commit.releasedParts upload.uploadId parts).map Prod.fst →
      (key, blobId) ∈ Commit.releasedParts upload.uploadId parts := by
    intro upload parts hstand hmem
    obtain ⟨part, hpart, rfl⟩ := List.mem_map.mp (mem_releasedParts.mp hmem)
    obtain rfl := hstand part hpart blobId hblob
    exact List.mem_map.mpr ⟨part, hpart, rfl⟩
  rcases hkey with hpublished | hreleased
  · exact hlocked (published_lockKey hpublished)
  · cases commit with
    | putObject bucket object previous => exact hlocked (eq_of_mem_replacedObject key hreleased).symm
    | deleteObject bucket objectKey existing =>
        exact hlocked (List.mem_singleton.mp hreleased).symm
    | putPart uploadId part previous =>
        obtain ⟨pair, hpair, rfl⟩ := List.mem_map.mp hreleased
        obtain ⟨old, -, rfl⟩ := List.mem_map.mp hpair
        exact hlocked rfl
    | abortUpload upload parts => exact hended hparts hreleased
    | completeUpload bucket upload object previous parts =>
        rw [Commit.released, List.map_append] at hreleased
        rcases List.mem_append.mp hreleased with hreplaced | hrest
        · exact hlocked (eq_of_mem_replacedObject key hreplaced).symm
        · exact List.mem_append_right _ (hended hparts hrest)

end Loaded

end StoreCalls

namespace EngineCalls

open StoreCalls (Commit Locked Marked)

variable {ι : Type} {config : Config} {state next : State ι} {label : Label ι}

/-! ### Minding the list -/

/-- The files of a reclaim that it has been through. -/
def Phase.passed : Phase → List Bytes
  | .unlink _ rest blobIds _ => blobIds.filter (· ∉ rest)
  | _ => []

/-- A removal fails only where there is no file. -/
def OnlyAbsentFails {ι : Type} (state : State ι) : Label ι → Prop
  | .remove who false =>
    ∀ blobId ∈ (state.calls who).unlinks, state.shared.tree.find? blobId = none
  | _ => True

instance {ι : Type} (state : State ι) : ∀ label, Decidable (OnlyAbsentFails state label)
  | .remove who false => inferInstanceAs (Decidable (∀ blobId ∈ (state.calls who).unlinks, _))
  | .remove _ true | .createBucket .. | .createUpload _ | .start .. | .call .. | .visit ..
  | .giveUp _ => isTrue trivial

/-- The parts an upload ends with stand as they were read. -/
def EndsAsRead {ι : Type} (state : State ι) (label : Label ι) : Prop :=
  ∀ who ∈ label.caller, ∀ commit ∈ (state.calls who).commits, commit.PartsStand state.rows

/-- No pass takes up a payload whose file is still to be linked in. -/
def PassesOver {ι : Type} (state : State ι) (label : Label ι) : Prop :=
  ∀ who ∈ label.caller, ∀ pass ∈ (state.calls who).lists,
    ∀ blobId ∈ listOrphans state.rows pass.1 pass.2, ∀ other,
      (state.calls other).unlinked ≠ some blobId

instance {ι : Type} (state : State ι) (label : Label ι) : Decidable (EndsAsRead state label) :=
  inferInstanceAs (Decidable (∀ who ∈ label.caller, _))

instance {ι : Type} [Fintype ι] (state : State ι) (label : Label ι) :
    Decidable (PassesOver state label) :=
  inferInstanceAs (Decidable (∀ who ∈ label.caller, _))

/-- Every file in the tree is named by a row or on the list. -/
def Accounted {ι : Type} (state : State ι) : Prop :=
  ∀ blobId, state.shared.tree.find? blobId ≠ none →
    state.rows.Names blobId ∨ Marked state.rows blobId

/-! ### What a run keeps -/

structure Listed {ι : Type} (config : Config) (state : State ι) : Prop where
  sound : state.custody.Sound
  known : ∀ blobId, Marked state.rows blobId → state.custody.issued blobId
  doomed : ∀ who, ∀ blobId ∈ (state.calls who).doomed, state.custody.issued blobId
  locked : Locked config.stripeFor state.shared.store.holders fun who =>
    (state.calls who).call.locks
  noted : ∀ who key blobId, (state.calls who).call.loaded = some key →
    state.rows.blobAt key = some blobId → (key, blobId) ∈ (state.calls who).call.notes
  /-- A payload whose file is still to come is listed, and nobody is after it. -/
  pending : ∀ who blobId, (state.calls who).unlinked = some blobId →
    Marked state.rows blobId ∧ ∀ other, blobId ∉ (state.calls other).doomed
  passed : ∀ who, ∀ blobId ∈ (state.calls who).passed, state.shared.tree.find? blobId = none
  accounted : Accounted state

theorem doomed_of_passed {phase : Phase} {blobId : Bytes} (h : blobId ∈ phase.passed) :
    blobId ∈ phase.doomed := by
  cases phase with
  | unlink answer rest blobIds batches =>
      exact List.mem_append_left _ (List.mem_append_right _ (List.mem_filter.mp h).1)
  | _ => cases h

theorem doomed_of_unlinks {phase : Phase} {blobId : Bytes} (h : phase.unlinks = some blobId) :
    blobId ∈ phase.doomed := by
  obtain ⟨answer, rest, blobIds, batches, rfl⟩ := phase_of_unlinks h
  exact List.mem_cons_self

section Moves

variable {who : ι} {now : TimestampMs} {phase before after : Phase} {effect : Effect}
  {shared : Shared ι} {blobId : Bytes}

theorem loaded_of_outside (h : phase.Outside) : phase.call.loaded = none := by
  by_contra hloaded
  obtain ⟨key, hkey⟩ := Option.ne_none_iff_exists'.mp hloaded
  have hlocks := StoreCalls.locks_of_loaded hkey
  rw [h.locks] at hlocks
  cases hlocks

/-- A file a reclaim has been through it had been through, or comes to now. -/
theorem passed_of_move (hmove : Move config shared now before effect after)
    (h : blobId ∈ after.passed) : blobId ∈ before.passed ∨ before.unlinks = some blobId := by
  have hnext : ∀ {answer : Answer} {first : Bytes} {rest blobIds : List Bytes}
      {batches : List (List Bytes)}, blobId ∈ (Phase.unlink answer rest blobIds batches).passed →
      blobId ∈ (Phase.unlink answer (first :: rest) blobIds batches).passed ∨
        some first = some blobId := by
    intro answer first rest blobIds batches hmem
    obtain ⟨hlisted, hgone⟩ := List.mem_filter.mp hmem
    by_cases hfirst : blobId = first
    · exact Or.inr (congrArg some hfirst.symm)
    · refine Or.inl (List.mem_filter.mpr ⟨hlisted, decide_eq_true fun hrest => ?_⟩)
      exact of_decide_eq_true hgone ((List.mem_cons.mp hrest).resolve_left hfirst)
  cases hmove with
  | look hclear => simp [Phase.passed] at h
  | sweepList hlist => simp [Phase.passed] at h
  | unlink => exact hnext h
  | unlinkFails => exact hnext h
  | @track reservation write body hnew => cases write <;> cases h
  | @rename bucket reservation write body => cases write <;> cases h
  | _ => cases h

/-- A list is dropped when all of it has been gone through. -/
theorem passed_of_forget (hmove : Move config shared now before effect after)
    {blobIds : List Bytes} (heffect : effect = .forget blobIds) (h : blobId ∈ blobIds) :
    blobId ∈ before.passed := by
  cases hmove with
  | forget =>
      obtain rfl := Effect.forget.inj heffect
      exact List.mem_filter.mpr ⟨h, decide_eq_true List.not_mem_nil⟩
  | _ => cases heffect

variable [DecidableEq ι]

theorem locks_take : (fun other => ((state.take config who now (effect, phase)).calls other).call.locks) =
    Function.update (fun other => (state.calls other).call.locks) who phase.call.locks := by
  funext other
  by_cases hother : other = who
  · rw [hother, Function.update_self, State.take, state.move_calls_self]
  · rw [Function.update_of_ne hother, State.take, state.move_calls_of_ne _ _ hother]

/-- Whoever has a key locked goes on holding its stripe. -/
theorem Listed.locked_take (h : Listed config state)
    (hmove : Move config state.shared now (state.calls who) effect phase) :
    Locked config.stripeFor (effect.apply config who now state.shared).store.holders fun other =>
      ((state.take config who now (effect, phase)).calls other).call.locks := by
  rw [locks_take]
  rcases call_of_move hmove with ⟨inner, rfl, hinner, hfree⟩ | ⟨hquiet, hbefore, houtside⟩
  · exact h.locked.move rfl hinner hfree
  · have hholders : (effect.apply config who now state.shared).store.holders =
        state.shared.store.holders := by
      cases effect with
      | store inner => exact absurd rfl (hquiet inner)
      | _ => rfl
    rw [hholders, houtside.locks, ← hbefore, Function.update_eq_self]
    exact h.locked

/-- What a call has read of the row it has locked stays what the row names. -/
theorem Listed.noted_take (h : Listed config state)
    (hmove : Move config state.shared now (state.calls who) effect phase) :
    ∀ other key blobId,
      ((state.take config who now (effect, phase)).calls other).call.loaded = some key →
      (state.take config who now (effect, phase)).rows.blobAt key = some blobId →
      (key, blobId) ∈ ((state.take config who now (effect, phase)).calls other).call.notes := by
  refine forall_take (P := fun _ held => ∀ key blobId, held.call.loaded = some key →
    (effect.apply config who now state.shared).rows.blobAt key = some blobId →
      (key, blobId) ∈ held.call.notes) (fun key blobId hloaded hblob => ?_)
    fun other hother key blobId hloaded hblob => ?_
  · rcases call_of_move hmove with ⟨inner, rfl, hinner, -⟩ | ⟨-, -, houtside⟩
    · by_cases hwrite : ∃ commit, inner = .write commit
      · obtain ⟨commit, rfl⟩ := hwrite
        rw [(StoreCalls.locks_of_move hinner).2] at hloaded
        cases hloaded
      · rw [blobAt_apply fun commit hsame => hwrite ⟨commit, Effect.store.inj hsame⟩] at hblob
        exact StoreCalls.noted_of_move hinner (h.noted who) hloaded hblob
    · rw [loaded_of_outside houtside] at hloaded
      cases hloaded
  · refine h.noted other key blobId hloaded ?_
    by_cases hwrite : ∃ commit, effect = .store (.write commit)
    · obtain ⟨commit, rfl⟩ := hwrite
      obtain ⟨bucket, reservation, hphase, -⟩ := phase_of_write hmove rfl
      -- The row is locked by its reader, so the commit is of another.
      refine StoreCalls.blobAt_of_other_commit (fun hsame => hother ?_) hblob
      refine h.locked.exclusive (StoreCalls.locks_of_loaded hloaded) ?_
      show (state.calls who).call.locks = some key
      rw [hphase, ← hsame]
      rfl
    · rwa [blobAt_apply fun commit hsame => hwrite ⟨commit, hsame⟩] at hblob

/-- What a call means to unlink has been given out. -/
theorem Listed.doomed_take (h : Listed config state)
    (hmove : Move config state.shared now (state.calls who) effect phase) :
    ∀ other, ∀ blobId ∈ ((state.take config who now (effect, phase)).calls other).doomed,
      (state.take config who now (effect, phase)).custody.issued blobId := by
  refine forall_take (P := fun _ held => ∀ blobId ∈ held.doomed,
    (effect.apply config who now state.shared).tracked.find? blobId ≠ none) (fun blobId hmem => ?_)
    fun other _ blobId hmem => issued_apply (h.doomed other blobId hmem)
  refine issued_apply ?_
  rcases doomed_of_move hmove hmem with hold | ⟨commit, rfl, hreleased⟩ | ⟨limit, cutoff, -, hlist⟩
  · exact h.doomed who blobId hold
  · obtain ⟨key, -, hnoted⟩ := noted_of_released hmove hreleased
    exact h.sound.notedIssued hnoted
  · exact h.known blobId (marked_of_mem_listOrphans hlist)

theorem Listed.pending_take (h : Listed config state)
    (hmove : Move config state.shared now (state.calls who) effect phase)
    (hpass : ∀ pass ∈ (state.calls who).lists, ∀ blobId ∈ listOrphans state.rows pass.1 pass.2,
      ∀ other, (state.calls other).unlinked ≠ some blobId) :
    ∀ other blobId,
      ((state.take config who now (effect, phase)).calls other).unlinked = some blobId →
      Marked (state.take config who now (effect, phase)).rows blobId ∧
        ∀ third, blobId ∉ ((state.take config who now (effect, phase)).calls third).doomed := by
  intro other blobId hunlinked
  have hbefore : (state.calls other).unlinked = some blobId ∨
      (effect = .track blobId ∧ state.shared.tracked.find? blobId = none) := by
    revert hunlinked
    refine forall_take (P := fun holder held => held.unlinked = some blobId →
      (state.calls holder).unlinked = some blobId ∨ _) (fun hunlinked => ?_)
      (fun _ _ => Or.inl) other
    exact (unlinked_of_move hmove hunlinked).imp And.left id
  rw [rows_take, Marked, queuedAt_apply]
  rcases hbefore with hold | ⟨rfl, hnew⟩
  · obtain ⟨hmarked, hfree⟩ := h.pending other blobId hold
    have hbrings : state.custody.bringing other = some blobId := brings_of_unlinked hold
    refine ⟨?_, ?_⟩
    · cases effect with
      | track marked =>
          dsimp only
          split
          · exact Option.some_ne_none now
          · exact hmarked
      | forget blobIds =>
          dsimp only
          split
          · rename_i hdropped
            exact absurd (doomed_of_passed (passed_of_forget hmove rfl hdropped)) (hfree who)
          · exact hmarked
      | store inner =>
          cases inner with
          | write commit =>
              dsimp only
              rw [StoreCalls.queuedAt_commit]
              split
              · exact Option.some_ne_none now
              · split
                · rename_i hput
                  -- It is committed by the call that still has to link it.
                  obtain rfl := h.sound.distinct hbrings (brings_of_published hmove hput)
                  obtain ⟨bucket, reservation, hphase, -⟩ := phase_of_write hmove rfl
                  rw [hphase] at hold
                  cases hold
                · exact hmarked
          | _ => exact hmarked
      | _ => exact hmarked
    · refine forall_take (P := fun _ held => blobId ∉ held.doomed) (fun hmem => ?_)
        fun third _ => hfree third
      rcases doomed_of_move hmove hmem with hdoomed | ⟨commit, rfl, hreleased⟩ |
        ⟨limit, cutoff, hphase, hlist⟩
      · exact hfree who hdoomed
      · obtain ⟨key, -, hnoted⟩ := noted_of_released hmove hreleased
        exact h.sound.notedSettled hnoted hbrings
      · exact hpass (limit, cutoff) (by rw [hphase]; rfl) blobId hlist other hold
  · refine ⟨?_, ?_⟩
    · dsimp only
      rw [if_pos rfl]
      exact Option.some_ne_none now
    · refine forall_take (P := fun _ held => blobId ∉ held.doomed) (fun hmem => ?_)
        fun third _ hmem => h.doomed third blobId hmem hnew
      rcases doomed_of_move hmove hmem with hdoomed | ⟨commit, hwrite, -⟩ | ⟨limit, cutoff, -, hlist⟩
      · exact h.doomed who blobId hdoomed hnew
      · cases hwrite
      · exact h.known blobId (marked_of_mem_listOrphans hlist) hnew

/-- What a reclaim has been through is off the tree, and stays off it. -/
theorem Listed.passed_take (h : Listed config state)
    (hmove : Move config state.shared now (state.calls who) effect phase)
    (hgone : ∀ blobId ∈ (state.calls who).unlinks,
      effect = .unlink blobId ∨ state.shared.tree.find? blobId = none) :
    ∀ other, ∀ blobId ∈ ((state.take config who now (effect, phase)).calls other).passed,
      (state.take config who now (effect, phase)).shared.tree.find? blobId = none := by
  have hstays : ∀ {other : ι} {blobId : Bytes}, blobId ∈ (state.calls other).doomed →
      state.shared.tree.find? blobId = none →
      (effect.apply config who now state.shared).tree.find? blobId = none := by
    intro other blobId hdoomed habsent
    rw [tree_apply]
    cases effect with
    | rename linked body =>
        dsimp only
        rw [if_neg, habsent]
        rintro rfl
        exact (h.pending who blobId (unlinked_of_rename hmove rfl)).2 other hdoomed
    | unlink removed =>
        dsimp only
        split
        · rfl
        · exact habsent
    | _ => exact habsent
  refine forall_take (P := fun _ held => ∀ blobId ∈ held.passed,
    (effect.apply config who now state.shared).tree.find? blobId = none) (fun blobId hmem => ?_)
    fun other _ blobId hmem => hstays (doomed_of_passed hmem) (h.passed other blobId hmem)
  rcases passed_of_move hmove hmem with hold | hnow
  · exact hstays (doomed_of_passed hold) (h.passed who blobId hold)
  · rcases hgone blobId hnow with rfl | habsent
    · rw [tree_apply]
      dsimp only
      rw [if_pos rfl]
    · exact hstays (doomed_of_unlinks hnow) habsent

/-- Every file in the tree stays named or listed. -/
theorem Listed.accounted_take (h : Listed config state)
    (hmove : Move config state.shared now (state.calls who) effect phase)
    (hparts : ∀ commit ∈ (state.calls who).commits, commit.PartsStand state.rows) :
    Accounted (state.take config who now (effect, phase)) := by
  intro blobId hthere
  rw [shared_take, tree_apply] at hthere
  by_cases hwrite : ∃ commit, effect = .store (.write commit)
  · obtain ⟨commit, rfl⟩ := hwrite
    obtain ⟨bucket, reservation, hphase, -⟩ := phase_of_write hmove rfl
    have hnoted := h.noted who commit.lockKey
    rw [hphase] at hnoted hparts
    rw [rows_take, Marked, queuedAt_apply]
    show (state.rows.write (commit.batch now)).Names blobId ∨
      (state.rows.write (commit.batch now)).queuedAt blobId ≠ none
    rw [StoreCalls.queuedAt_commit]
    by_cases hreleased : blobId ∈ commit.released.map Prod.snd
    · rw [if_pos hreleased]
      exact Or.inr (Option.some_ne_none now)
    · rw [if_neg hreleased]
      by_cases hput : commit.published.map Prod.snd = some blobId
      · obtain ⟨⟨key, put⟩, hpair, rfl⟩ := Option.map_eq_some_iff.mp hput
        refine Or.inl ⟨key, ?_⟩
        rw [StoreCalls.blobAt_commit, Commit.blobAfter, hpair]
        exact if_pos rfl
      · rw [if_neg hput]
        refine (h.accounted blobId hthere).imp ?_ id
        rintro ⟨key, hkey⟩
        refine ⟨key, ?_⟩
        have hkept : ¬ (commit.published.map Prod.fst = some key ∨
            key ∈ commit.released.map Prod.fst) := fun hcleared =>
          hreleased (List.mem_map.mpr ⟨_, StoreCalls.mem_released_of_noted
            (fun other hother => hnoted other rfl hother) (hparts commit rfl) hkey hcleared, rfl⟩)
        rw [StoreCalls.blobAt_commit, Commit.blobAfter, if_neg fun hsame => hkept (Or.inl hsame),
          if_neg fun hsame => hkept (Or.inr hsame)]
        exact hkey
  · have hnames : (state.take config who now (effect, phase)).rows.Names blobId ↔
        state.rows.Names blobId := names_take fun commit hsame => hwrite ⟨commit, hsame⟩
    rw [hnames, rows_take, Marked, queuedAt_apply]
    cases effect with
    | track other =>
        dsimp only
        split
        · exact Or.inr (Option.some_ne_none now)
        · exact h.accounted blobId hthere
    | rename linked body =>
        dsimp only at hthere ⊢
        by_cases hsame : blobId = linked
        · subst hsame
          exact Or.inr (h.pending who blobId (unlinked_of_rename hmove rfl)).1
        · rw [if_neg hsame] at hthere
          exact h.accounted blobId hthere
    | unlink removed =>
        dsimp only at hthere ⊢
        split at hthere
        · exact absurd rfl hthere
        · exact h.accounted blobId hthere
    | forget blobIds =>
        dsimp only
        refine (h.accounted blobId hthere).imp id fun hmarked => ?_
        rw [if_neg fun hdropped => hthere (h.passed who blobId (passed_of_forget hmove rfl hdropped))]
        exact hmarked
    | store inner =>
        cases inner with
        | write commit => exact absurd ⟨commit, rfl⟩ hwrite
        | _ => exact h.accounted blobId hthere
    | _ => exact h.accounted blobId hthere

end Moves

theorem Listed.quiet (h : Listed config state) (hquiet : Quiet state next) :
    Listed config next := by
  have hlocks : (fun who => (next.calls who).call.locks) = fun who => (state.calls who).call.locks := by
    funext who
    exact hquiet.calls (fun phase => phase.call.locks)
      (fun request => (outside_begun request).locks) who
  have hloaded : ∀ who, (next.calls who).call.loaded = (state.calls who).call.loaded :=
    hquiet.calls (fun phase => phase.call.loaded) fun request =>
      loaded_of_outside (outside_begun request)
  have hnotes : ∀ who, (next.calls who).call.notes = (state.calls who).call.notes :=
    hquiet.calls (fun phase => phase.call.notes) fun request => (outside_begun request).notes
  have hunlinked : ∀ who, (next.calls who).unlinked = (state.calls who).unlinked :=
    hquiet.calls Phase.unlinked fun request => by cases request <;> rfl
  have hpassed : ∀ who, (next.calls who).passed = (state.calls who).passed :=
    hquiet.calls Phase.passed fun request => by cases request <;> rfl
  have hmarked : ∀ blobId, Marked next.rows blobId ↔ Marked state.rows blobId := fun blobId => by
    rw [Marked, hquiet.queuedAt, Marked]
  refine
    { sound := ?_, known := ?_, doomed := ?_, locked := ?_, noted := ?_, pending := ?_,
      passed := ?_, accounted := ?_ }
  · rw [hquiet.custody]
    exact h.sound
  · intro blobId hmark
    rw [hquiet.custody]
    exact h.known blobId ((hmarked blobId).mp hmark)
  · intro who blobId hmem
    rw [hquiet.doomed] at hmem
    rw [hquiet.custody]
    exact h.doomed who blobId hmem
  · rw [hquiet.holders, hlocks]
    exact h.locked
  · intro who key blobId hkey hblob
    rw [hloaded] at hkey
    rw [hquiet.blobAt] at hblob
    rw [hnotes]
    exact h.noted who key blobId hkey hblob
  · intro who blobId hmem
    rw [hunlinked] at hmem
    obtain ⟨hmark, hfree⟩ := h.pending who blobId hmem
    refine ⟨(hmarked blobId).mpr hmark, fun other hdoomed => hfree other ?_⟩
    rwa [hquiet.doomed] at hdoomed
  · intro who blobId hmem
    rw [hpassed] at hmem
    rw [hquiet.tree]
    exact h.passed who blobId hmem
  · intro blobId hthere
    rw [hquiet.tree] at hthere
    rw [Rows.Names, hquiet.blobAt, hmarked]
    exact h.accounted blobId hthere

variable [DecidableEq ι]

theorem Listed.step (h : Listed config state) (habsent : OnlyAbsentFails state label)
    (hends : EndsAsRead state label) (hpasses : PassesOver state label)
    (hstep : step config state label = some next) : Listed config next := by
  rcases quiet_or_move (turn_of_step hstep) with hquiet |
    ⟨who, effect, phase, hwho, hmove, hremoves, rfl⟩
  · exact h.quiet hquiet
  · have hgone : ∀ blobId ∈ (state.calls who).unlinks,
        effect = .unlink blobId ∨ state.shared.tree.find? blobId = none := by
      intro blobId hunlinks
      obtain ⟨removed, rfl, heffect⟩ := hremoves blobId hunlinks
      cases removed with
      | true => exact Or.inl heffect
      | false => exact Or.inr (habsent blobId hunlinks)
    exact
      { sound := h.sound.step (custody_take hmove)
        known := fun _ hmarked => known_take h.sound h.known hmove hmarked
        doomed := h.doomed_take hmove
        locked := h.locked_take hmove
        noted := h.noted_take hmove
        pending := h.pending_take hmove (hpasses who hwho)
        passed := h.passed_take hmove hgone
        accounted := h.accounted_take hmove (hends who hwho) }

/-! ### Every run -/

omit [DecidableEq ι] in
theorem listed_emptyStart : Listed config (emptyStart : State ι) where
  sound := kept_emptyStart.sound
  known := kept_emptyStart.known
  doomed := fun _ _ h => nomatch h
  locked := fun _ _ h => nomatch h
  noted := fun _ _ _ h => nomatch h
  pending := fun _ _ h => nomatch h
  passed := fun _ _ h => nomatch h
  accounted := fun _ h => absurd rfl h

/-- From the empty store, in whatever order the steps come, as long as a removal fails
only where there is no file, no pass takes up a payload still to be linked in and no
upload ends on a part that has changed since it was read: every file in the tree is
named by a row or on the list. -/
theorem accounted_of_onlyAbsentFails {final : State ι} {labels : List (Label ι)}
    (hguard : Trace.Every (step config) (fun state label =>
      OnlyAbsentFails state label ∧ EndsAsRead state label ∧ PassesOver state label)
      emptyStart labels)
    (hrun : Trace.run (step config) emptyStart labels = some final) : Accounted final := by
  have hkept : ∀ {before after : State ι} {label : Label ι}, Listed config before →
      OnlyAbsentFails before label ∧ EndsAsRead before label ∧ PassesOver before label →
      step config before label = some after → Listed config after :=
    fun h hmeets hstep => h.step hmeets.1 hmeets.2.1 hmeets.2.2 hstep
  exact (hguard.run_invariant hkept listed_emptyStart hrun).accounted

/-! ### Fixed runs -/

section Fixed

theorem accounted_of_onlyAbsentFails_overwritten :
    Accounted (after (stores ++ overwrites ++ reclaims)) := by
  have hruns : (Trace.run (step sampleConfig) emptyStart
      (stores ++ overwrites ++ reclaims)).isSome := by decide +kernel
  obtain ⟨final, hfinal⟩ := Option.isSome_iff_exists.mp hruns
  have hafter : after (stores ++ overwrites ++ reclaims) = final := by rw [after, hfinal]; rfl
  rw [hafter]
  exact accounted_of_onlyAbsentFails (by decide +kernel) hfinal

/-- The reclaim of an overwritten payload whose removal fails. -/
def reclaimsInVain : List (Label (Fin 4)) := calls 1 1 3 ++ [.remove 1 false] ++ calls 1 2 3

/-- The removal fails and the record is dropped all the same: the reclaim returns, and
the file is still there, named by no row and on no list. -/
theorem record_dropped_without_its_file :
    (Trace.run (step sampleConfig) emptyStart (stores ++ overwrites ++ reclaimsInVain)).isSome ∧
      (∃ answer, (after (stores ++ overwrites ++ reclaimsInVain)).calls 1 = .returned answer) ∧
      ¬ Accounted (after (stores ++ overwrites ++ reclaimsInVain)) := by
  refine ⟨by decide +kernel, ⟨_, rfl⟩, fun haccounted => ?_⟩
  have hthere : (after (stores ++ overwrites ++ reclaimsInVain)).shared.tree.find? (ascii "p") ≠
      none := by decide +kernel
  have hlost : ¬ (after (stores ++ overwrites ++ reclaimsInVain)).rows.Names (ascii "p") ∧
      (after (stores ++ overwrites ++ reclaimsInVain)).rows.queuedAt (ascii "p") = none := by
    decide +kernel
  exact (haccounted _ hthere).elim hlost.1 fun hmarked => hmarked hlost.2

end Fixed

end EngineCalls

end MonoBucket

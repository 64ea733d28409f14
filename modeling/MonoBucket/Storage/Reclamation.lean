/-
Reclamation takes no live payload

A payload is taken for garbage by the age of its marker. One that is still on its
way into a row is marked too, so what keeps it is that its write takes less than
the grace: whoever lists it lists it after its batch would have been written.

Two invariants say this. What a call means to unlink, no row names; that is kept by
every step but the commit of a payload somebody means to unlink. And a payload
still on its way that somebody means to unlink, or that has left the tree, is older
than the grace; that needs only a clock that does not go back, and rules such a
commit out.
-/

import MonoBucket.Storage.EngineMoves

namespace MonoBucket.EngineCalls

open StoreCalls (Commit)

variable {ι : Type} {config : Config} {state next : State ι} {label : Label ι}

/-! ### Time -/

def Phase.commits : Phase → Option Commit
  | .store _ _ (.write commit) => some commit
  | _ => none

/-- The clock does not go back, and a payload's row is written within the grace of
its marker. -/
def Timely {ι : Type} (config : Config) (state : State ι) (label : Label ι) : Prop :=
  state.shared.clock ≤ label.now state.shared.clock ∧
    ∀ who ∈ label.caller, ∀ commit ∈ (state.calls who).commits,
      ∀ blobId ∈ commit.published.map Prod.snd, ∀ trackedAt ∈ state.shared.tracked.find? blobId,
        (label.now state.shared.clock).toInt < trackedAt.toInt + config.reclaimGraceMs.toInt

instance {ι : Type} (state : State ι) (label : Label ι) : Decidable (Timely config state label) :=
  inferInstanceAs (Decidable (_ ∧ ∀ who ∈ label.caller, _))

/-! ### What is named, marked and doomed -/

/-- The rows as slots, and what the calls have in hand. -/
def State.custody {ι : Type} (state : State ι) : Custody ι Bytes Bytes where
  slots := state.rows.blobAt
  issued blobId := state.shared.tracked.find? blobId ≠ none
  bringing who := (state.calls who).brings
  noted who key blobId := (key, blobId) ∈ (state.calls who).call.notes

structure Kept {ι : Type} (state : State ι) : Prop where
  sound : state.custody.Sound
  unmarked : ∀ blobId, state.rows.Names blobId → state.rows.queuedAt blobId = none
  known : ∀ blobId, state.rows.queuedAt blobId ≠ none → state.custody.issued blobId
  doomed : ∀ who, ∀ blobId ∈ (state.calls who).doomed,
    state.custody.issued blobId ∧ ¬ state.rows.Names blobId
  present : ∀ blobId, state.rows.Names blobId → state.shared.tree.find? blobId ≠ none

/-- What a commit names is in the tree, and nobody means to unlink it. -/
def Safe {ι : Type} (state : State ι) (label : Label ι) : Prop :=
  ∀ who ∈ label.caller, ∀ commit ∈ (state.calls who).commits,
    ∀ blobId ∈ commit.published.map Prod.snd,
      state.shared.tree.find? blobId ≠ none ∧ ∀ other, blobId ∉ (state.calls other).doomed

/-- A payload no row can be given any more in time. -/
def Overdue {ι : Type} (config : Config) (shared : Shared ι) (blobId : Bytes) : Prop :=
  ∃ trackedAt, shared.tracked.find? blobId = some trackedAt ∧
    trackedAt.toInt + config.reclaimGraceMs.toInt ≤ shared.clock.toInt

structure Timed {ι : Type} (config : Config) (state : State ι) : Prop where
  clock : 0 ≤ state.shared.clock.toInt
  tracked : ∀ {blobId trackedAt}, state.shared.tracked.find? blobId = some trackedAt →
    trackedAt.toInt ≤ state.shared.clock.toInt
  marker : ∀ {who blobId queuedAt}, (state.calls who).brings = some blobId →
    state.rows.queuedAt blobId = some queuedAt → state.shared.tracked.find? blobId = some queuedAt
  cutoff : ∀ {who cutoff}, (state.calls who).cutoff = some cutoff →
    config.reclaimGraceMs.toInt ≤ 0 ∨
      cutoff.toInt + config.reclaimGraceMs.toInt ≤ state.shared.clock.toInt
  doomed : ∀ {who other blobId}, blobId ∈ (state.calls who).doomed →
    (state.calls other).brings = some blobId → Overdue config state.shared blobId
  linked : ∀ {who blobId}, (state.calls who).linked = some blobId →
    state.shared.tree.find? blobId ≠ none ∨ Overdue config state.shared blobId

theorem hand_of_commits {phase : Phase} {commit : Commit} (h : phase.commits = some commit) :
    phase.brings = commit.published.map Prod.snd ∧ phase.linked = commit.published.map Prod.snd ∧
      phase.call.notes = commit.released := by
  cases phase with
  | store bucket reservation call =>
      cases call with
      | write other =>
          obtain rfl := Option.some.inj h
          exact ⟨rfl, rfl, rfl⟩
      | _ => cases h
  | _ => cases h

/-- A write in time commits a payload that is there and that nobody is after. -/
theorem Timed.safe (h : Timed config state) (htimely : Timely config state label) :
    Safe state label := by
  intro who hwho commit hcommit blobId hput
  obtain ⟨hbrings, hlinked, -⟩ := hand_of_commits hcommit
  have hclock := Int64.le_iff_toInt_le.mp htimely.1
  have hnot : ¬ Overdue config state.shared blobId := by
    rintro ⟨trackedAt, htracked, hover⟩
    have := htimely.2 who hwho commit hcommit blobId hput trackedAt htracked
    omega
  refine ⟨(h.linked (hlinked.trans hput)).resolve_right hnot, fun other hdoomed => ?_⟩
  exact hnot (h.doomed hdoomed (hbrings.trans hput))

/-! ### Steps outside a call -/

/-- A step that is no call's own: a bucket or an upload made, or a call begun. -/
structure Quiet {ι : Type} (state next : State ι) : Prop where
  blobAt : next.rows.blobAt = state.rows.blobAt
  queuedAt : next.rows.queuedAt = state.rows.queuedAt
  tree : next.shared.tree = state.shared.tree
  tracked : next.shared.tracked = state.shared.tracked
  clock : next.shared.clock = state.shared.clock
  written : next.shared.written = state.shared.written
  holders : next.shared.store.holders = state.shared.store.holders
  custody : next.custody = state.custody
  /-- No call has anything else in hand. -/
  calls : ∀ {α : Type} (hand : Phase → α), (∀ request, hand (begin request) = hand .idle) →
    ∀ who, hand (next.calls who) = hand (state.calls who)

theorem Quiet.linked (h : Quiet state next) (who : ι) :
    (next.calls who).linked = (state.calls who).linked :=
  h.calls Phase.linked (fun request => by cases request <;> rfl) who

theorem Quiet.doomed (h : Quiet state next) (who : ι) :
    (next.calls who).doomed = (state.calls who).doomed :=
  h.calls Phase.doomed doomed_begun who

theorem Quiet.cutoff (h : Quiet state next) (who : ι) :
    (next.calls who).cutoff = (state.calls who).cutoff :=
  h.calls Phase.cutoff (fun request => by cases request <;> rfl) who

theorem custody_congr (hblobAt : next.rows.blobAt = state.rows.blobAt)
    (htracked : next.shared.tracked = state.shared.tracked)
    (hbrings : ∀ who, (next.calls who).brings = (state.calls who).brings)
    (hnotes : ∀ who, (next.calls who).call.notes = (state.calls who).call.notes) :
    next.custody = state.custody := by
  have hfirst : (fun who => (next.calls who).brings) = fun who => (state.calls who).brings :=
    funext hbrings
  have hsecond : (fun who => (next.calls who).call.notes) = fun who => (state.calls who).call.notes :=
    funext hnotes
  show Custody.mk next.rows.blobAt (fun blobId => next.shared.tracked.find? blobId ≠ none)
    (fun who => (next.calls who).brings)
    (fun who key blobId => (key, blobId) ∈ (fun who => (next.calls who).call.notes) who) = _
  rw [hblobAt, htracked, hfirst, hsecond]
  rfl

theorem quiet_of_rows {shared : Shared ι} (hblobAt : shared.rows.blobAt = state.rows.blobAt)
    (hqueuedAt : shared.rows.queuedAt = state.rows.queuedAt)
    (htree : shared.tree = state.shared.tree) (htracked : shared.tracked = state.shared.tracked)
    (hclock : shared.clock = state.shared.clock)
    (hwritten : shared.written = state.shared.written)
    (hholders : shared.store.holders = state.shared.store.holders) :
    Quiet state { state with shared := shared } where
  blobAt := hblobAt
  queuedAt := hqueuedAt
  tree := htree
  tracked := htracked
  clock := hclock
  written := hwritten
  holders := hholders
  custody := custody_congr hblobAt htracked (fun _ => rfl) fun _ => rfl
  calls _ _ _ := rfl

theorem quiet_of_tags {store : MetadataStore} {batch : WriteBatch}
    (hrows : store.rows = state.rows.write batch)
    (htags : ∀ op ∈ batch, ∃ tag, op.key.head? = some tag ∧ tag ≠ Keys.kObject ∧
      tag ≠ Keys.kPart ∧ tag ≠ Keys.kOrphan) :
    store.rows.blobAt = state.rows.blobAt ∧ store.rows.queuedAt = state.rows.queuedAt := by
  rw [hrows]
  refine ⟨blobAt_write_of_tags fun op hop => ?_, queuedAt_write_of_tags fun op hop hmark => ?_⟩
  · obtain ⟨tag, htag, hobject, hpart, -⟩ := htags op hop
    exact ⟨tag, htag, hobject, hpart⟩
  · obtain ⟨tag, htag, -, -, horphan⟩ := htags op hop
    exact horphan (Option.some.inj (htag.symm.trans hmark))

variable [DecidableEq ι]

/-- Every step is a call's own, or quiet. -/
theorem quiet_or_move (h : Turn config state label next) :
    Quiet state next ∨ ∃ who effect phase, label.caller = some who ∧
      Move config state.shared (label.now state.shared.clock) (state.calls who) effect phase ∧
      Removes label who (state.calls who) effect ∧
      next = state.take config who (label.now state.shared.clock) (effect, phase) := by
  cases h with
  | @createBucket name quotaBytes now bucket store quotas hstore =>
      refine Or.inl ?_
      have hrows := StorageEngine.createBucket_ok hstore
      obtain ⟨hblobAt, hqueuedAt⟩ := quiet_of_tags hrows fun op hop => by
        rw [List.mem_singleton.mp hop]
        exact ⟨Keys.kBucket, rfl, by decide, by decide, by decide⟩
      exact quiet_of_rows hblobAt hqueuedAt rfl rfl rfl rfl rfl
  | @createUpload upload store hnew hstore =>
      refine Or.inl ?_
      obtain ⟨hblobAt, hqueuedAt⟩ := quiet_of_tags (createUpload_ok hstore) fun op hop => by
        obtain ⟨tag, hhead, rfl | rfl⟩ := StoreCalls.tags_createUploadBatch upload op hop
        · exact ⟨_, hhead, by decide, by decide, by decide⟩
        · exact ⟨_, hhead, by decide, by decide, by decide⟩
      exact quiet_of_rows hblobAt hqueuedAt rfl rfl rfl rfl rfl
  | @start who request hidle =>
      refine Or.inl ?_
      have hsame : ∀ {α : Type} (hand : Phase → α), hand (begin request) = hand .idle →
          ∀ other, hand ((state.move who state.shared (begin request)).calls other) =
            hand (state.calls other) := by
        intro α hand hbegun other
        by_cases hother : other = who
        · rw [hother, state.move_calls_self, hbegun, hidle]
        · rw [state.move_calls_of_ne _ _ hother]
      exact
        { blobAt := rfl
          queuedAt := rfl
          tree := rfl
          tracked := rfl
          clock := rfl
          written := rfl
          holders := rfl
          custody := custody_congr rfl rfl (hsame Phase.brings (brings_begun request))
            (hsame (fun phase => phase.call.notes) (outside_begun request).notes)
          calls := fun hand hbegun => hsame hand (hbegun request) }
  | move hwho hmove hremoves => exact Or.inr ⟨_, _, _, hwho, hmove, hremoves, rfl⟩

/-! ### Steps of a call -/

section Moves

variable {who : ι} {now : TimestampMs} {effect : Effect} {phase : Phase}

theorem rows_take : (state.take config who now (effect, phase)).rows =
    (effect.apply config who now state.shared).rows := rfl

theorem shared_take : (state.take config who now (effect, phase)).shared =
    effect.apply config who now state.shared := rfl

theorem forall_take {P : ι → Phase → Prop} (hwho : P who phase)
    (hother : ∀ other, other ≠ who → P other (state.calls other)) :
    ∀ other, P other ((state.take config who now (effect, phase)).calls other) :=
  (Pool.forall_move state who _ phase).mpr ⟨hwho, hother⟩

/-- The row a step puts a payload in. -/
def Effect.target : Effect → Option Bytes
  | .store (.write commit) => commit.published.map Prod.fst
  | _ => none

omit [DecidableEq ι] in
/-- A payload's marker is written once, when it is given out. -/
theorem issued_apply {blobId : Bytes} (h : state.shared.tracked.find? blobId ≠ none) :
    (effect.apply config who now state.shared).tracked.find? blobId ≠ none := by
  rw [tracked_apply]
  cases effect with
  | track other =>
      dsimp only
      split
      · exact Option.some_ne_none now
      · exact h
  | _ => exact h

omit [DecidableEq ι] in
theorem blobAt_commit_apply {commit : Commit} {key blobId : Bytes}
    (h : ((Effect.store (.write commit)).apply config who now state.shared).rows.blobAt key =
      some blobId) :
    commit.published = some (key, blobId) ∨
      (key ∉ commit.released.map Prod.fst ∧ state.rows.blobAt key = some blobId) := by
  have hrows : ((Effect.store (.write commit)).apply config who now state.shared).rows =
      state.rows.write (commit.batch now) := rfl
  rw [hrows, StoreCalls.blobAt_commit] at h
  exact StoreCalls.Commit.blobAfter_cases h

theorem custody_take (hmove : Move config state.shared now (state.calls who) effect phase) :
    Custody.Step who effect.target state.custody
      (state.take config who now (effect, phase)).custody where
  issued h := issued_apply h
  slots := by
    intro key blobId hslot
    have hslot : (effect.apply config who now state.shared).rows.blobAt key = some blobId := hslot
    by_cases heffect : ∃ commit, effect = .store (.write commit)
    · obtain ⟨commit, rfl⟩ := heffect
      refine (blobAt_commit_apply hslot).symm.imp (fun hkept => hkept.2) fun hput => ?_
      obtain ⟨bucket, reservation, hphase, rfl⟩ := phase_of_write hmove rfl
      refine ⟨congrArg (Option.map Prod.fst) hput, ?_, ?_⟩
      · show (state.calls who).brings = some blobId
        rw [hphase]
        exact congrArg (Option.map Prod.snd) hput
      · show ((state.take config who now _).calls who).brings = none
        rw [State.take, state.move_calls_self]
        rfl
    · rw [blobAt_apply fun commit h => heffect ⟨commit, h⟩] at hslot
      exact Or.inl hslot
  bringing := by
    intro blobId hbringing
    have hbringing : ((state.take config who now (effect, phase)).calls who).brings =
      some blobId := hbringing
    rw [State.take, state.move_calls_self] at hbringing
    refine (brings_of_move hmove hbringing).imp id ?_
    rintro ⟨rfl, hnew⟩
    refine ⟨not_not.mpr hnew, ?_⟩
    show (Effect.apply config who now state.shared (.track blobId)).tracked.find? blobId ≠ none
    rw [tracked_apply]
    simp
  bringingOther := fun hother => congrArg Phase.brings (state.move_calls_of_ne _ _ hother)
  noted := by
    intro key blobId hnoted
    have hnoted : (key, blobId) ∈
      ((state.take config who now (effect, phase)).calls who).call.notes := hnoted
    rw [State.take, state.move_calls_self] at hnoted
    rcases call_of_move hmove with ⟨inner, rfl, hinner, -⟩ | ⟨-, -, houtside⟩
    · exact StoreCalls.notes_of_move hinner hnoted
    · rw [houtside.notes] at hnoted
      cases hnoted
  notedOther := by
    intro other hother
    funext key blobId
    show ((key, blobId) ∈ ((state.take config who now (effect, phase)).calls other).call.notes) = _
    rw [State.take, state.move_calls_of_ne _ _ hother]
    rfl

omit [DecidableEq ι] in
/-- What is unlinked somebody meant to unlink. -/
theorem doomed_of_unlink (hmove : Move config state.shared now (state.calls who) effect phase)
    {blobId : Bytes} (heffect : effect = .unlink blobId) : blobId ∈ (state.calls who).doomed := by
  generalize state.calls who = before at hmove
  cases hmove with
  | unlink =>
      obtain rfl := Effect.unlink.inj heffect
      exact List.mem_cons_self ..
  | _ => cases heffect

omit [DecidableEq ι] in
/-- What a commit releases its call has read of a row. -/
theorem noted_of_released {commit : Commit}
    (hmove : Move config state.shared now (state.calls who) (.store (.write commit)) phase)
    {blobId : Bytes} (hreleased : blobId ∈ commit.released.map Prod.snd) :
    ∃ key, (key, blobId) ∈ commit.released ∧ state.custody.noted who key blobId := by
  obtain ⟨⟨key, released⟩, hpair, rfl⟩ := List.mem_map.mp hreleased
  obtain ⟨bucket, reservation, hphase, -⟩ := phase_of_write hmove rfl
  refine ⟨key, hpair, ?_⟩
  show (key, released) ∈ (state.calls who).call.notes
  rw [hphase]
  exact hpair

omit [DecidableEq ι] in
/-- What a commit names its call has brought. -/
theorem brings_of_published {commit : Commit}
    (hmove : Move config state.shared now (state.calls who) (.store (.write commit)) phase)
    {blobId : Bytes} (hput : commit.published.map Prod.snd = some blobId) :
    state.custody.bringing who = some blobId := by
  obtain ⟨bucket, reservation, hphase, -⟩ := phase_of_write hmove rfl
  show (state.calls who).brings = some blobId
  rw [hphase]
  exact hput

/-- No row names what a commit has just released. -/
theorem not_names_of_released (h : state.custody.Sound) {commit : Commit}
    (hmove : Move config state.shared now (state.calls who) (.store (.write commit)) phase)
    {blobId : Bytes} (hreleased : blobId ∈ commit.released.map Prod.snd) :
    state.custody.issued blobId ∧
      ¬ (state.take config who now (.store (.write commit), phase)).rows.Names blobId := by
  obtain ⟨key, hpair, hnoted⟩ := noted_of_released hmove hreleased
  refine ⟨h.notedIssued hnoted, h.not_held_of_dropped (custody_take hmove) hnoted ?_⟩
  show (state.rows.write (commit.batch now)).blobAt key ≠ some blobId
  rw [StoreCalls.blobAt_commit]
  refine StoreCalls.Commit.blobAfter_ne_of_released hpair fun hsame => ?_
  exact h.notedSettled hnoted (brings_of_published hmove hsame)

/-- A marker is of a payload that has been given out. -/
theorem known_take (hsound : state.custody.Sound)
    (hknown : ∀ blobId, state.rows.queuedAt blobId ≠ none → state.custody.issued blobId)
    (hmove : Move config state.shared now (state.calls who) effect phase) {blobId : Bytes}
    (hqueued : (state.take config who now (effect, phase)).rows.queuedAt blobId ≠ none) :
    (state.take config who now (effect, phase)).custody.issued blobId := by
  rw [rows_take, queuedAt_apply] at hqueued
  show (effect.apply config who now state.shared).tracked.find? blobId ≠ none
  cases effect with
  | track other =>
      rw [tracked_apply]
      dsimp only at hqueued ⊢
      split
      · exact Option.some_ne_none now
      · rename_i hother
        rw [if_neg hother] at hqueued
        exact hknown blobId hqueued
  | forget blobIds =>
      dsimp only at hqueued
      split at hqueued
      · exact absurd rfl hqueued
      · exact issued_apply (hknown blobId hqueued)
  | store inner =>
      cases inner with
      | write commit =>
          dsimp only at hqueued
          rw [StoreCalls.queuedAt_commit] at hqueued
          split at hqueued
          · rename_i hreleased
            exact (not_names_of_released hsound hmove hreleased).1
          · split at hqueued
            · exact absurd rfl hqueued
            · exact issued_apply (hknown blobId hqueued)
      | _ => exact issued_apply (hknown blobId hqueued)
  | _ => exact issued_apply (hknown blobId hqueued)

theorem names_take (heffect : ∀ commit, effect ≠ .store (.write commit)) {blobId : Bytes} :
    (state.take config who now (effect, phase)).rows.Names blobId ↔ state.rows.Names blobId := by
  rw [Rows.Names, rows_take, blobAt_apply heffect]
  rfl

/-- What a row names after a commit it named before, or the commit put there. -/
theorem names_of_commit {commit : Commit} {blobId : Bytes}
    (h : (state.take config who now (.store (.write commit), phase)).rows.Names blobId) :
    commit.published.map Prod.snd = some blobId ∨ state.rows.Names blobId := by
  obtain ⟨key, hkey⟩ := h
  exact (blobAt_commit_apply hkey).imp (congrArg (Option.map Prod.snd)) fun hkept => ⟨key, hkept.2⟩

/-- A step that commits nothing. -/
theorem Kept.read (h : Kept state)
    (hmove : Move config state.shared now (state.calls who) effect phase)
    (heffect : ∀ commit, effect ≠ .store (.write commit)) :
    Kept (state.take config who now (effect, phase)) where
  sound := h.sound.step (custody_take hmove)
  unmarked := by
    intro blobId hafter
    have hnames := (names_take heffect).mp hafter
    clear hafter
    rw [rows_take, queuedAt_apply]
    cases effect with
    | track other =>
        dsimp only
        split
        · rename_i hsame
          subst hsame
          -- What is marked now has never been named.
          obtain ⟨key, hkey⟩ := hnames
          have hissued : state.shared.tracked.find? blobId ≠ none := h.sound.issued hkey
          generalize state.calls who = before at hmove
          cases hmove with
          | track hnew => exact absurd hnew hissued
        · exact h.unmarked blobId hnames
    | forget blobIds =>
        dsimp only
        split
        · rfl
        · exact h.unmarked blobId hnames
    | store inner =>
        cases inner with
        | write commit => exact absurd rfl (heffect commit)
        | _ => exact h.unmarked blobId hnames
    | _ => exact h.unmarked blobId hnames
  known _ hqueued := known_take h.sound h.known hmove hqueued
  doomed := by
    have hlisted : ∀ {blobId}, state.rows.queuedAt blobId ≠ none →
        state.custody.issued blobId ∧ ¬ state.rows.Names blobId :=
      fun {blobId} hqueued =>
        ⟨h.known blobId hqueued, fun hnames => hqueued (h.unmarked blobId hnames)⟩
    have hdoomed : ∀ {blobId}, blobId ∈ phase.doomed →
        state.custody.issued blobId ∧ ¬ state.rows.Names blobId := by
      intro blobId hmem
      rcases doomed_of_move hmove hmem with hold | ⟨commit, hwrite, -⟩ | ⟨limit, cutoff, -, hlist⟩
      · exact h.doomed who blobId hold
      · exact absurd hwrite (heffect commit)
      · exact hlisted (marked_of_mem_listOrphans hlist)
    refine forall_take (P := fun _ held => ∀ blobId ∈ held.doomed,
      (state.take config who now (effect, phase)).custody.issued blobId ∧
        ¬ (state.take config who now (effect, phase)).rows.Names blobId) ?_ fun other _ => ?_
    · exact fun blobId hmem => (hdoomed hmem).imp issued_apply fun hfree hnames =>
        hfree ((names_take heffect).mp hnames)
    · exact fun blobId hmem => (h.doomed other blobId hmem).imp issued_apply fun hfree hnames =>
        hfree ((names_take heffect).mp hnames)
  present := by
    intro blobId hafter
    have hnames := (names_take heffect).mp hafter
    exact tree_kept (h.present blobId hnames) fun hunlinked =>
      (h.doomed who blobId (doomed_of_unlink hmove hunlinked)).2 hnames

/-- The batch of a payload that is there and that nobody is after. -/
theorem Kept.commit (h : Kept state) {commit : Commit}
    (hmove : Move config state.shared now (state.calls who) (.store (.write commit)) phase)
    (hsafe : ∀ blobId ∈ commit.published.map Prod.snd, state.shared.tree.find? blobId ≠ none ∧
      ∀ other, blobId ∉ (state.calls other).doomed) :
    Kept (state.take config who now (.store (.write commit), phase)) where
  sound := h.sound.step (custody_take hmove)
  unmarked := by
    intro blobId hnames
    rw [rows_take, queuedAt_apply]
    dsimp only
    rw [StoreCalls.queuedAt_commit]
    split
    · rename_i hreleased
      exact absurd hnames (not_names_of_released h.sound hmove hreleased).2
    · split
      · rfl
      · rename_i hput
        exact h.unmarked blobId ((names_of_commit hnames).resolve_left hput)
  known _ hqueued := known_take h.sound h.known hmove hqueued
  doomed := by
    refine forall_take (P := fun _ held => ∀ blobId ∈ held.doomed,
      (state.take config who now (.store (.write commit), phase)).custody.issued blobId ∧
        ¬ (state.take config who now (.store (.write commit), phase)).rows.Names blobId) ?_
      fun other _ => ?_
    · intro blobId hmem
      obtain ⟨bucket, reservation, -, rfl⟩ := phase_of_write hmove rfl
      exact not_names_of_released h.sound hmove hmem
    · intro blobId hmem
      obtain ⟨hissued, hfree⟩ := h.doomed other blobId hmem
      refine ⟨hissued, fun hnames => ?_⟩
      rcases names_of_commit hnames with hput | hold
      · exact (hsafe blobId hput).2 other hmem
      · exact hfree hold
  present := by
    intro blobId hnames
    show state.shared.tree.find? blobId ≠ none
    exact (names_of_commit hnames).elim (fun hput => (hsafe blobId hput).1) (h.present blobId)

end Moves

omit [DecidableEq ι] in
theorem Kept.quiet (h : Kept state) (hquiet : Quiet state next) : Kept next where
  sound := by
    rw [hquiet.custody]
    exact h.sound
  unmarked blobId hnames := by
    rw [Rows.Names, hquiet.blobAt] at hnames
    rw [hquiet.queuedAt]
    exact h.unmarked blobId hnames
  known blobId hqueued := by
    rw [hquiet.queuedAt] at hqueued
    rw [hquiet.custody]
    exact h.known blobId hqueued
  doomed who blobId hmem := by
    rw [hquiet.doomed] at hmem
    rw [hquiet.custody, Rows.Names, hquiet.blobAt]
    exact h.doomed who blobId hmem
  present blobId hnames := by
    rw [Rows.Names, hquiet.blobAt] at hnames
    rw [hquiet.tree]
    exact h.present blobId hnames

theorem Kept.step (h : Kept state) (hsafe : Safe state label)
    (hstep : step config state label = some next) : Kept next := by
  rcases quiet_or_move (turn_of_step hstep) with hquiet | ⟨who, effect, phase, hwho, hmove, -, rfl⟩
  · exact h.quiet hquiet
  · by_cases heffect : ∃ commit, effect = .store (.write commit)
    · obtain ⟨commit, rfl⟩ := heffect
      obtain ⟨bucket, reservation, hphase, -⟩ := phase_of_write hmove rfl
      exact h.commit hmove (hsafe who hwho commit (by rw [hphase]; rfl))
    · exact h.read hmove fun commit hwrite => heffect ⟨commit, hwrite⟩

/-! ### Age -/

section Ages

variable {who : ι} {now : TimestampMs} {effect : Effect} {phase : Phase}

theorem toInt_cutoff (hnow : 0 ≤ now.toInt) :
    config.reclaimGraceMs.toInt ≤ 0 ∨
      (now - config.reclaimGraceMs).toInt + config.reclaimGraceMs.toInt ≤ now.toInt := by
  by_cases hgrace : config.reclaimGraceMs.toInt ≤ 0
  · exact Or.inl hgrace
  · have hhigh := now.toInt_lt
    have hwide := config.reclaimGraceMs.toInt_lt
    rw [Int64.toInt_sub, Int.bmod_eq_of_le (by omega) (by omega)]
    omega

omit [DecidableEq ι] in
theorem new_of_track (hmove : Move config state.shared now (state.calls who) effect phase)
    {blobId : Bytes} (heffect : effect = .track blobId) :
    state.shared.tracked.find? blobId = none := by
  generalize state.calls who = before at hmove
  cases hmove with
  | track hnew =>
      obtain rfl := Effect.track.inj heffect
      exact hnew
  | _ => cases heffect

omit [DecidableEq ι] in
theorem tracked_take (hmove : Move config state.shared now (state.calls who) effect phase)
    {blobId : Bytes} {trackedAt : TimestampMs}
    (h : state.shared.tracked.find? blobId = some trackedAt) :
    (effect.apply config who now state.shared).tracked.find? blobId = some trackedAt := by
  rw [tracked_apply]
  cases effect with
  | track other =>
      dsimp only
      split
      · rename_i hsame
        subst hsame
        rw [new_of_track hmove rfl] at h
        cases h
      · exact h
  | _ => exact h

omit [DecidableEq ι] in
theorem Overdue.take (hmove : Move config state.shared now (state.calls who) effect phase)
    (hclock : state.shared.clock.toInt ≤ now.toInt) {blobId : Bytes}
    (h : Overdue config state.shared blobId) :
    Overdue config (effect.apply config who now state.shared) blobId := by
  obtain ⟨trackedAt, htracked, hover⟩ := h
  refine ⟨trackedAt, tracked_take hmove htracked, ?_⟩
  rw [clock_apply]
  omega

/-- A marker of a payload that is brought is the one it was given. -/
theorem Timed.marker_take (h : Timed config state) (hkept : Kept state)
    (hmove : Move config state.shared now (state.calls who) effect phase) {other : ι}
    {blobId : Bytes} {queuedAt : TimestampMs}
    (hbrings : (state.calls other).brings = some blobId)
    (hqueued : (state.take config who now (effect, phase)).rows.queuedAt blobId = some queuedAt) :
    state.shared.tracked.find? blobId = some queuedAt := by
  have hbringing : state.custody.bringing other = some blobId := hbrings
  rw [rows_take, queuedAt_apply] at hqueued
  cases effect with
  | track marked =>
      dsimp only at hqueued
      split at hqueued
      · rename_i hsame
        subst hsame
        exact absurd (new_of_track hmove rfl) (hkept.sound.brought hbringing)
      · exact h.marker hbrings hqueued
  | forget blobIds =>
      dsimp only at hqueued
      split at hqueued
      · cases hqueued
      · exact h.marker hbrings hqueued
  | store inner =>
      cases inner with
      | write commit =>
          dsimp only at hqueued
          rw [StoreCalls.queuedAt_commit] at hqueued
          split at hqueued
          · rename_i hreleased
            obtain ⟨key, -, hnoted⟩ := noted_of_released hmove hreleased
            exact absurd hbringing (hkept.sound.notedSettled hnoted)
          · split at hqueued
            · cases hqueued
            · exact h.marker hbrings hqueued
      | _ => exact h.marker hbrings hqueued
  | _ => exact h.marker hbrings hqueued

omit [DecidableEq ι] in
/-- A payload on its way that a call comes to be after is older than the grace. -/
theorem Timed.doomed_take (h : Timed config state) (hkept : Kept state)
    (hmove : Move config state.shared now (state.calls who) effect phase) {other : ι}
    {blobId : Bytes} (hmem : blobId ∈ phase.doomed)
    (hbrings : (state.calls other).brings = some blobId) : Overdue config state.shared blobId := by
  rcases doomed_of_move hmove hmem with hold | ⟨commit, rfl, hreleased⟩ |
    ⟨limit, cutoff, hphase, hlist⟩
  · exact h.doomed hold hbrings
  · obtain ⟨key, -, hnoted⟩ := noted_of_released hmove hreleased
    have hbringing : state.custody.bringing other = some blobId := hbrings
    exact absurd hbringing (hkept.sound.notedSettled hnoted)
  · obtain ⟨queuedAt, hqueued, hdue⟩ := queuedAt_of_mem_listOrphans hlist
    have hcutoff : (state.calls who).cutoff = some cutoff := by rw [hphase]; rfl
    have htracked := h.marker hbrings hqueued
    have hclock := h.tracked htracked
    have hdue := Int64.le_iff_toInt_le.mp (Int64.not_lt.mp hdue)
    refine ⟨queuedAt, htracked, ?_⟩
    rcases h.cutoff hcutoff with hgrace | hcutoff
    · omega
    · omega

theorem Timed.move (h : Timed config state) (hkept : Kept state)
    (hclock : state.shared.clock.toInt ≤ now.toInt)
    (hmove : Move config state.shared now (state.calls who) effect phase) :
    Timed config (state.take config who now (effect, phase)) where
  clock := by
    rw [shared_take, clock_apply]
    exact h.clock.trans hclock
  tracked := by
    intro blobId trackedAt htracked
    rw [shared_take, clock_apply]
    rw [shared_take, tracked_apply] at htracked
    cases effect with
    | track other =>
        dsimp only at htracked
        split at htracked
        · obtain rfl := Option.some.inj htracked
          exact le_refl _
        · exact (h.tracked htracked).trans hclock
    | _ => exact (h.tracked htracked).trans hclock
  marker := by
    refine fun {caller blobId queuedAt} => forall_take (P := fun _ held => held.brings = some blobId →
      (state.take config who now (effect, phase)).rows.queuedAt blobId = some queuedAt →
        (effect.apply config who now state.shared).tracked.find? blobId = some queuedAt)
      (fun hbrings hqueued => ?_) (fun other _ hbrings hqueued => ?_) caller
    · rcases brings_of_move hmove hbrings with hold | ⟨rfl, hnew⟩
      · exact tracked_take hmove (h.marker_take hkept hmove hold hqueued)
      · rw [rows_take, queuedAt_apply] at hqueued
        dsimp only at hqueued
        rw [if_pos rfl] at hqueued
        rw [tracked_apply]
        dsimp only
        rw [if_pos rfl]
        exact hqueued
    · exact tracked_take hmove (h.marker_take hkept hmove hbrings hqueued)
  cutoff := by
    refine fun {caller cutoff} => forall_take (P := fun _ held => held.cutoff = some cutoff →
      config.reclaimGraceMs.toInt ≤ 0 ∨ cutoff.toInt + config.reclaimGraceMs.toInt ≤
        (effect.apply config who now state.shared).clock.toInt)
      (fun hcutoff => ?_) (fun other _ hcutoff => ?_) caller
    · rw [clock_apply]
      rcases cutoff_of_move hmove hcutoff with hold | rfl
      · exact (h.cutoff hold).imp id hclock.trans'
      · exact toInt_cutoff (h.clock.trans hclock)
    · rw [clock_apply]
      exact (h.cutoff hcutoff).imp id hclock.trans'
  doomed := by
    intro caller other blobId hmem hbrings
    -- Who is after it, and who brings it, each the one that moves or not.
    have hbefore : (∃ bringer, (state.calls bringer).brings = some blobId) ∨
        effect = .track blobId := by
      revert hbrings
      refine forall_take (P := fun _ held => held.brings = some blobId → _) (fun hbrings => ?_)
        (fun bringer _ hbrings => Or.inl ⟨bringer, hbrings⟩) other
      exact (brings_of_move hmove hbrings).imp (fun hold => ⟨who, hold⟩) And.left
    rcases hbefore with ⟨bringer, hbrings⟩ | rfl
    · refine Overdue.take hmove hclock ?_
      revert hmem
      exact forall_take (P := fun _ held => blobId ∈ held.doomed → Overdue config state.shared blobId)
        (fun hmem => h.doomed_take hkept hmove hmem hbrings)
        (fun chaser _ hmem => h.doomed hmem hbrings) caller
    · -- Nobody is after a payload that has just been given out.
      have hnew := new_of_track hmove rfl
      refine absurd hnew ?_
      revert hmem
      refine forall_take (P := fun _ held => blobId ∈ held.doomed →
        state.shared.tracked.find? blobId ≠ none) (fun hmem => ?_)
        (fun chaser _ hmem => (hkept.doomed chaser blobId hmem).1) caller
      rcases doomed_of_move hmove hmem with hold | ⟨commit, hwrite, -⟩ | ⟨limit, cutoff, -, hlist⟩
      · exact (hkept.doomed who blobId hold).1
      · cases hwrite
      · exact hkept.known blobId (marked_of_mem_listOrphans hlist)
  linked := by
    have hstays : ∀ {holder : ι} {blobId : Bytes}, (state.calls holder).linked = some blobId →
        (effect.apply config who now state.shared).tree.find? blobId ≠ none ∨
          Overdue config (effect.apply config who now state.shared) blobId := by
      intro holder blobId hlinked
      by_cases hunlinked : effect = .unlink blobId
      · exact Or.inr (Overdue.take hmove hclock
          (h.doomed (doomed_of_unlink hmove hunlinked) (brings_of_linked hlinked)))
      · exact (h.linked hlinked).imp (fun hthere => tree_kept hthere hunlinked)
          (Overdue.take hmove hclock)
    refine fun {caller blobId} => forall_take (P := fun _ held => held.linked = some blobId →
      (effect.apply config who now state.shared).tree.find? blobId ≠ none ∨
        Overdue config (effect.apply config who now state.shared) blobId)
      (fun hlinked => ?_) (fun other _ hlinked => hstays hlinked) caller
    rcases linked_of_move hmove hlinked with hold | ⟨body, rfl⟩
    · exact hstays hold
    · refine Or.inl ?_
      rw [tree_apply]
      dsimp only
      rw [if_pos rfl]
      exact Option.some_ne_none body

end Ages

omit [DecidableEq ι] in
theorem Timed.quiet (h : Timed config state) (hquiet : Quiet state next) : Timed config next := by
  have hbrings : ∀ who, (next.calls who).brings = (state.calls who).brings := fun who =>
    congrFun (congrArg Custody.bringing hquiet.custody) who
  have hoverdue : ∀ {blobId}, Overdue config state.shared blobId →
      Overdue config next.shared blobId := by
    intro blobId hover
    rw [Overdue, hquiet.tracked, hquiet.clock]
    exact hover
  refine
    { clock := ?_, tracked := ?_, marker := ?_, cutoff := ?_, doomed := ?_, linked := ?_ }
  · rw [hquiet.clock]
    exact h.clock
  · intro blobId trackedAt htracked
    rw [hquiet.tracked] at htracked
    rw [hquiet.clock]
    exact h.tracked htracked
  · intro who blobId queuedAt hbringing hqueued
    rw [hbrings] at hbringing
    rw [hquiet.queuedAt] at hqueued
    rw [hquiet.tracked]
    exact h.marker hbringing hqueued
  · intro who cutoff hcutoff
    rw [hquiet.cutoff] at hcutoff
    rw [hquiet.clock]
    exact h.cutoff hcutoff
  · intro who other blobId hmem hbringing
    rw [hquiet.doomed] at hmem
    rw [hbrings] at hbringing
    exact hoverdue (h.doomed hmem hbringing)
  · intro who blobId hlinked
    rw [hquiet.linked] at hlinked
    rw [hquiet.tree]
    exact (h.linked hlinked).imp id hoverdue

theorem Timed.step (h : Timed config state) (hkept : Kept state)
    (htimely : Timely config state label) (hstep : step config state label = some next) :
    Timed config next := by
  rcases quiet_or_move (turn_of_step hstep) with hquiet | ⟨who, effect, phase, -, hmove, -, rfl⟩
  · exact h.quiet hquiet
  · exact h.move hkept (Int64.le_iff_toInt_le.mp htimely.1) hmove

/-! ### Every run -/

omit [DecidableEq ι] in
theorem kept_emptyStart : Kept (emptyStart : State ι) where
  sound :=
    { issued := fun h => nomatch h
      once := fun h => nomatch h
      brought := fun h => nomatch h
      fresh := fun h => nomatch h
      distinct := fun h => nomatch h
      notedIssued := fun h => nomatch h
      notedSettled := fun h => nomatch h
      notedPlace := fun h => nomatch h }
  unmarked := fun _ h => nomatch h
  known := fun _ h => absurd rfl h
  doomed := fun _ _ h => nomatch h
  present := fun _ h => nomatch h

omit [DecidableEq ι] in
theorem timed_emptyStart : Timed config (emptyStart : State ι) where
  clock := le_refl 0
  tracked := fun h => nomatch h
  marker := fun h => nomatch h
  cutoff := fun h => nomatch h
  doomed := fun h => nomatch h
  linked := fun h => nomatch h

/-- From the empty store, in whatever order the steps come and whatever a removal
does, as long as the clock does not go back and every payload's row is written
within the grace of its marker: every payload an object's or a part's row names is
in the tree. -/
theorem present_of_timely {final : State ι} {labels : List (Label ι)}
    (htimely : Trace.Every (step config) (Timely config) emptyStart labels)
    (hrun : Trace.run (step config) emptyStart labels = some final) :
    ∀ blobId, final.rows.Names blobId → final.shared.tree.find? blobId ≠ none := by
  have hkept : ∀ {before after : State ι} {label : Label ι}, Kept before ∧ Timed config before →
      Timely config before label → step config before label = some after →
      Kept after ∧ Timed config after :=
    fun h htimely hstep => ⟨h.1.step (h.2.safe htimely) hstep, h.2.step h.1 htimely hstep⟩
  exact (htimely.run_invariant hkept ⟨kept_emptyStart, timed_emptyStart⟩ hrun).1.present

/-! ### Fixed runs -/

section Fixed

def sampleConfig : Config where
  stripeFor := StoreCalls.sampleStripe
  maxUploadBytes := 1000
  reclaimGraceMs := 100

def firstPicture : ObjectRecord where
  key := ascii "holiday"
  blobId := ⟨ascii "p", fits_p⟩

def secondPicture : ObjectRecord where
  key := ascii "holiday"
  blobId := ⟨ascii "q", by decide⟩

def after (labels : List (Label (Fin 4))) : State (Fin 4) :=
  (Trace.run (step sampleConfig) emptyStart labels).getD emptyStart

/-- A call's own steps, all at one time. -/
def calls (who : Fin 4) (count : Nat) (now : TimestampMs) : List (Label (Fin 4)) :=
  List.replicate count (.call who now)

/-- An object stored from start to end. -/
def stores : List (Label (Fin 4)) :=
  [.createBucket (ascii "photos") 0 0,
    .start 0 (.putObject (ascii "photos") firstPicture (ascii "dawn") 4)] ++ calls 0 11 1

/-- Another stored over it, up to its commit and the release of the first. -/
def overwrites : List (Label (Fin 4)) :=
  .start 1 (.putObject (ascii "photos") secondPicture (ascii "noon") 4) :: calls 1 10 2

/-- The first one's payload unlinked and its marker dropped. -/
def reclaims : List (Label (Fin 4)) := calls 1 1 3 ++ [.remove 1 true] ++ calls 1 2 3

theorem present_of_timely_overwritten :
    (after (stores ++ overwrites ++ reclaims)).rows.Names (ascii "q") ∧
      (after (stores ++ overwrites ++ reclaims)).shared.tree.find? (ascii "q") ≠ none := by
  have hruns : (Trace.run (step sampleConfig) emptyStart
      (stores ++ overwrites ++ reclaims)).isSome := by decide +kernel
  obtain ⟨final, hfinal⟩ := Option.isSome_iff_exists.mp hruns
  have hafter : after (stores ++ overwrites ++ reclaims) = final := by rw [after, hfinal]; rfl
  have hnamed : (after (stores ++ overwrites ++ reclaims)).rows.Names (ascii "q") := by
    decide +kernel
  refine ⟨hnamed, ?_⟩
  rw [hafter] at hnamed ⊢
  exact present_of_timely (by decide +kernel) hfinal _ hnamed

end Fixed

end MonoBucket.EngineCalls

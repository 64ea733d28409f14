/-
A checkpoint of a running store

A checkpoint raises a flag, takes the rows, copies the tree file by file and drops
the flag. A reclaim looks at the flag before it unlinks anything. What it has
released by then was released before the flag went up, so the rows taken do not name
it; and a pass that looked before lists no marker written since, because it goes by
an age.

The flag does not count: the end of one checkpoint drops it under another. As long as
no reclaim finds it down while a checkpoint is at its copy, every checkpoint that
returns has every payload its rows name, all of its bytes.
-/

import MonoBucket.Storage.Payloads

namespace MonoBucket.EngineCalls

variable {ι : Type} {config : Config} {state next : State ι} {label : Label ι}

/-! ### Checkpoints -/

/-- The rows of a checkpoint that is at its copy. -/
def Phase.taken : Phase → Option Rows
  | .scan rows | .copy rows _ _ => some rows
  | _ => none

/-- The copy a checkpoint has returned with. -/
def Phase.copied : Phase → Option Copy
  | .returned (.copied result) => some result
  | _ => none

/-- A reclaim about to look at the flag. -/
def Phase.Looks : Phase → Prop
  | .look _ (_ :: _) | .sweepLook .. => True
  | _ => False

instance : ∀ phase : Phase, Decidable phase.Looks
  | .look _ (_ :: _) | .sweepLook .. => isTrue trivial
  | .look _ [] | .idle | .reserve .. | .track .. | .partFind .. | .partFindAgain ..
  | .partList .. | .completeFind .. | .completeFindAgain .. | .completeList .. | .append ..
  | .rename .. | .extend .. | .store .. | .refuse .. | .unlink .. | .sweep _ | .sweepList ..
  | .getRead .. | .getOpen _ | .raise | .snapshot | .scan _ | .copy .. | .drop _ | .returned _ =>
    isFalse id

/-- No reclaim finds the flag down while a checkpoint is at its copy. -/
def FlagHolds {ι : Type} (state : State ι) (label : Label ι) : Prop :=
  ∀ who ∈ label.caller, (state.calls who).Looks → state.shared.checkpointing = false →
    ∀ other, (state.calls other).taken = none

instance {ι : Type} [Fintype ι] (state : State ι) (label : Label ι) :
    Decidable (FlagHolds state label) :=
  inferInstanceAs (Decidable (∀ who ∈ label.caller, _))

/-- Every payload the rows of a copy name is in its tree, every byte that was linked
in under its name and as many as its row says. -/
def Copy.Whole (written : OrderedMap Bytes Bytes) (copy : Copy) : Prop :=
  ∀ key, ∀ pair ∈ copy.rows.payloadAt key, ∃ body, copy.tree.find? pair.1 = some body ∧
    written.find? pair.1 = some body ∧ pair.2 = body.length.toUInt64

/-! ### What a run keeps -/

def Answer.Whole (written : OrderedMap Bytes Bytes) : Answer → Prop
  | .copied copy => copy.Whole written
  | _ => True

/-- How far a checkpoint is: what its rows name has been copied, or is still to be
come to. -/
def Phase.Covers (written : OrderedMap Bytes Bytes) : Phase → Prop
  | .scan rows => ∀ key, ∀ pair ∈ rows.payloadAt key, Sized written pair.1 pair.2
  | .copy rows pending copied => ∀ key, ∀ pair ∈ rows.payloadAt key,
    Sized written pair.1 pair.2 ∧ (pair.1 ∈ pending ∨
      ∃ body, copied.find? pair.1 = some body ∧ written.find? pair.1 = some body)
  | .look answer _ | .unlink answer .. | .drop answer | .returned answer => answer.Whole written
  | _ => True

/-- The files a reclaim has yet to unlink. -/
def Phase.removing : Phase → List Bytes
  | .unlink _ rest _ _ => rest
  | _ => []

/-- A file that stays while no reclaim finds the flag down. -/
structure Spared {ι : Type} (state : State ι) (blobId : Bytes) : Prop where
  present : state.shared.tree.find? blobId ≠ none
  removing : ∀ who, blobId ∉ (state.calls who).removing
  young : ∀ who, ∀ pass ∈ (state.calls who).lists, ∀ queuedAt ∈ state.rows.queuedAt blobId,
    pass.2.toInt < queuedAt.toInt

structure Backed {ι : Type} (state : State ι) : Prop where
  spared : ∀ who, ∀ rows ∈ (state.calls who).taken, ∀ blobId, rows.Names blobId →
    Spared state blobId
  covers : ∀ who, (state.calls who).Covers state.shared.written

section Moves

variable {who : ι} {now : TimestampMs} {phase before after : Phase} {effect : Effect}
  {shared : Shared ι} {blobId : Bytes} {written grown : OrderedMap Bytes Bytes}

theorem names_of_payloadAt {rows : Rows} {key : Bytes} {pair : Bytes × UInt64}
    (h : rows.payloadAt key = some pair) : rows.Names pair.1 := by
  refine ⟨key, ?_⟩
  rw [Rows.blobAt_eq_payloadAt, h]
  rfl

theorem taken_of_move (hmove : Move config shared now before effect after) {rows : Rows}
    (h : after.taken = some rows) :
    before.taken = some rows ∨ (before = .snapshot ∧ rows = shared.rows) := by
  cases hmove with
  | snapshot => exact Or.inr ⟨rfl, (Option.some.inj h).symm⟩
  | scan => exact Or.inl h
  | visit hfind => exact Or.inl h
  | vanished hfind => exact Or.inl h
  | @track reservation write body hnew => cases write <;> cases h
  | @rename bucket reservation write body => cases write <;> cases h
  | _ => cases h

/-- A reclaim has a file to unlink that it had already, that it has found the flag down
for, or that it lists. -/
theorem removing_of_move (hmove : Move config shared now before effect after)
    (h : blobId ∈ after.removing) :
    blobId ∈ before.removing ∨ (before.Looks ∧ shared.checkpointing = false) ∨
      ∃ pass, before.lists = some pass ∧ blobId ∈ listOrphans shared.rows pass.1 pass.2 := by
  cases hmove with
  | look hclear => exact Or.inr (Or.inl ⟨trivial, hclear⟩)
  | sweepList hlist =>
      subst hlist
      exact Or.inr (Or.inr ⟨_, rfl, h⟩)
  | unlink => exact Or.inl (List.mem_cons_of_mem _ h)
  | unlinkFails => exact Or.inl (List.mem_cons_of_mem _ h)
  | @track reservation write body hnew => cases write <;> cases h
  | @rename bucket reservation write body => cases write <;> cases h
  | _ => cases h

theorem lists_of_move (hmove : Move config shared now before effect after)
    {pass : Nat × TimestampMs} (h : after.lists = some pass) :
    before.Looks ∧ shared.checkpointing = false := by
  cases hmove with
  | sweepLook hclear => exact ⟨trivial, hclear⟩
  | @track reservation write body hnew => cases write <;> cases h
  | @rename bucket reservation write body => cases write <;> cases h
  | _ => cases h

theorem cutoff_of_lists {pass : Nat × TimestampMs} (h : phase.lists = some pass) :
    phase.cutoff = some pass.2 := by
  cases phase with
  | sweepList limit cutoff =>
      obtain rfl := Option.some.inj h
      rfl
  | _ => cases h

theorem removing_of_unlinks (h : phase.unlinks = some blobId) : blobId ∈ phase.removing := by
  obtain ⟨answer, rest, blobIds, batches, rfl⟩ := phase_of_unlinks h
  exact List.mem_cons_self

theorem doomed_of_removing (h : blobId ∈ phase.removing) : blobId ∈ phase.doomed := by
  cases phase with
  | unlink answer rest blobIds batches =>
      exact List.mem_append_left _ (List.mem_append_left _ h)
  | _ => cases h

theorem Copy.Whole.mono {copy : Copy} (hgrown : ∀ {blobId body}, written.find? blobId = some body →
    grown.find? blobId = some body) (h : copy.Whole written) : copy.Whole grown := by
  intro key pair hpair
  obtain ⟨body, hcopied, hwritten, hsize⟩ := h key pair hpair
  exact ⟨body, hcopied, hgrown hwritten, hsize⟩

theorem Answer.Whole.mono {answer : Answer}
    (hgrown : ∀ {blobId body}, written.find? blobId = some body → grown.find? blobId = some body)
    (h : answer.Whole written) : answer.Whole grown := by
  cases answer with
  | copied copy => exact Copy.Whole.mono hgrown h
  | _ => trivial

theorem Phase.Covers.mono (hgrown : ∀ {blobId body}, written.find? blobId = some body →
    grown.find? blobId = some body) (h : phase.Covers written) : phase.Covers grown := by
  cases phase with
  | scan rows => exact fun key pair hpair => (h key pair hpair).mono hgrown
  | copy rows pending copied =>
      intro key pair hpair
      obtain ⟨hsized, hplace⟩ := h key pair hpair
      refine ⟨hsized.mono hgrown, hplace.imp id ?_⟩
      rintro ⟨body, hcopied, hwritten⟩
      exact ⟨body, hcopied, hgrown hwritten⟩
  | look answer batches => exact Answer.Whole.mono hgrown h
  | unlink answer rest blobIds batches => exact Answer.Whole.mono hgrown h
  | drop answer => exact Answer.Whole.mono hgrown h
  | returned answer => exact Answer.Whole.mono hgrown h
  | _ => trivial

theorem whole_of_covers {copy : Copy} (h : phase.Covers written) (hcopied : phase.copied = some copy) :
    copy.Whole written := by
  cases phase with
  | returned answer =>
      cases answer with
      | copied other =>
          obtain rfl := Option.some.inj hcopied
          exact h
      | _ => cases hcopied
  | _ => cases hcopied

/-- What a checkpoint has taken in, after its own step. -/
theorem covers_of_move (hmove : Move config shared now before effect after)
    (h : before.Covers shared.written)
    (hsized : ∀ key, ∀ pair ∈ shared.rows.payloadAt key, Sized shared.written pair.1 pair.2)
    (hfiles : ∀ {blobId body}, shared.tree.find? blobId = some body →
      shared.written.find? blobId = some body)
    (hpresent : ∀ rows ∈ before.taken, ∀ blobId, rows.Names blobId →
      shared.tree.find? blobId ≠ none) : after.Covers shared.written := by
  cases hmove with
  | snapshot => exact hsized
  | scan =>
      intro key pair hpair
      refine ⟨h key pair hpair, Or.inl ?_⟩
      obtain ⟨body, hbody⟩ := Option.ne_none_iff_exists'.mp
        (hpresent _ rfl _ (names_of_payloadAt hpair))
      exact List.mem_map.mpr ⟨_, shared.tree.find?_eq_some_iff.mp hbody, rfl⟩
  | @visit rows pending copied blobId body hfind =>
      intro key pair hpair
      obtain ⟨hsize, hplace⟩ := h key pair hpair
      refine ⟨hsize, ?_⟩
      by_cases hsame : pair.1 = blobId
      · rw [hsame]
        exact Or.inr ⟨body, copied.find?_insert_self .., hfiles hfind⟩
      · refine hplace.imp (fun hpending => ?_) ?_
        · exact List.mem_filter.mpr ⟨hpending, decide_eq_true hsame⟩
        · rintro ⟨content, hcopied, hwritten⟩
          exact ⟨content, by rw [copied.find?_insert_of_ne _ hsame, hcopied], hwritten⟩
  | @vanished rows pending copied blobId hfind =>
      intro key pair hpair
      obtain ⟨hsize, hplace⟩ := h key pair hpair
      refine ⟨hsize, hplace.imp (fun hpending => ?_) id⟩
      refine List.mem_filter.mpr ⟨hpending, decide_eq_true fun hsame => ?_⟩
      exact hpresent rows rfl _ (names_of_payloadAt hpair) (by rw [hsame, hfind])
  | copied =>
      intro key pair hpair
      obtain ⟨⟨body, hbody, hsize⟩, hplace⟩ := h key pair hpair
      obtain ⟨content, hcopied, hwritten⟩ := hplace.resolve_left List.not_mem_nil
      rw [hbody] at hwritten
      obtain rfl := Option.some.inj hwritten
      exact ⟨body, hcopied, hbody, hsize⟩
  | looked => exact h
  | deferred => exact h
  | look hclear => exact h
  | unlink => exact h
  | unlinkFails => exact h
  | forget => exact h
  | drop => exact h
  | @track reservation write body hnew => cases write <;> trivial
  | @rename bucket reservation write body => cases write <;> trivial
  | _ => trivial

variable [DecidableEq ι]

/-- A file a checkpoint needs stays. -/
theorem Spared.take (h : Spared state blobId) (htimed : Timed config state)
    (hgrace : 0 < config.reclaimGraceMs.toInt) (hclock : state.shared.clock.toInt ≤ now.toInt)
    (hmove : Move config state.shared now (state.calls who) effect phase)
    (hflag : (state.calls who).Looks → state.shared.checkpointing ≠ false) :
    Spared (state.take config who now (effect, phase)) blobId where
  present := tree_kept h.present fun hunlink =>
    h.removing who (removing_of_unlinks (unlinks_of_move hmove hunlink))
  removing := by
    refine forall_take (P := fun _ held => blobId ∉ held.removing) (fun hmem => ?_)
      fun other _ => h.removing other
    rcases removing_of_move hmove hmem with hold | ⟨hlooks, hdown⟩ | ⟨pass, hpass, hlist⟩
    · exact h.removing who hold
    · exact hflag hlooks hdown
    · obtain ⟨queuedAt, hqueued, hdue⟩ := queuedAt_of_mem_listOrphans hlist
      have hyoung := h.young who pass hpass queuedAt hqueued
      have hdue := Int64.le_iff_toInt_le.mp (Int64.not_lt.mp hdue)
      omega
  young := by
    -- A marker written now is younger than any age a pass goes by.
    have hnew : ∀ {other : ι} {pass : Nat × TimestampMs}, (state.calls other).lists = some pass →
        pass.2.toInt < now.toInt := by
      intro other pass hpass
      have hcutoff : (state.calls other).cutoff = some pass.2 := cutoff_of_lists hpass
      rcases htimed.cutoff hcutoff with hnone | hold
      · omega
      · omega
    refine forall_take (P := fun _ held => ∀ pass ∈ held.lists,
      ∀ queuedAt ∈ (effect.apply config who now state.shared).rows.queuedAt blobId,
        pass.2.toInt < queuedAt.toInt) (fun pass hpass => ?_)
      fun other _ pass hpass queuedAt hqueued => ?_
    · obtain ⟨hlooks, hdown⟩ := lists_of_move hmove hpass
      exact absurd hdown (hflag hlooks)
    · have hold := h.young other pass hpass
      have hqueued : (effect.apply config who now state.shared).rows.queuedAt blobId =
        some queuedAt := hqueued
      rw [queuedAt_apply] at hqueued
      cases effect with
      | track marked =>
          dsimp only at hqueued
          split at hqueued
          · obtain rfl := Option.some.inj hqueued
            exact hnew hpass
          · exact hold queuedAt hqueued
      | forget blobIds =>
          dsimp only at hqueued
          split at hqueued
          · cases hqueued
          · exact hold queuedAt hqueued
      | store inner =>
          cases inner with
          | write commit =>
              dsimp only at hqueued
              rw [StoreCalls.queuedAt_commit] at hqueued
              split at hqueued
              · obtain rfl := Option.some.inj hqueued
                exact hnew hpass
              · split at hqueued
                · cases hqueued
                · exact hold queuedAt hqueued
          | _ => exact hold queuedAt hqueued
      | _ => exact hold queuedAt hqueued

omit [DecidableEq ι] in
/-- What the rows of a moment name is there, and nobody is after it. -/
theorem spared_of_names (hkept : Kept state) (hnames : state.rows.Names blobId) :
    Spared state blobId where
  present := hkept.present blobId hnames
  removing other hmem := (hkept.doomed other blobId (doomed_of_removing hmem)).2 hnames
  young := by
    intro other pass _ queuedAt hqueued
    rw [hkept.unmarked blobId hnames] at hqueued
    cases hqueued

theorem Backed.move (h : Backed state) (hinv : InOrder config state)
    (hgrace : 0 < config.reclaimGraceMs.toInt) (hclock : state.shared.clock.toInt ≤ now.toInt)
    (hmove : Move config state.shared now (state.calls who) effect phase)
    (hflag : (state.calls who).Looks → state.shared.checkpointing = false →
      ∀ other, (state.calls other).taken = none) :
    Backed (state.take config who now (effect, phase)) where
  spared := by
    have hold : ∀ {other : ι} {rows : Rows} {blobId : Bytes}, (state.calls other).taken = some rows →
        rows.Names blobId → Spared (state.take config who now (effect, phase)) blobId := by
      intro other rows blobId htaken hnames
      refine (h.spared other rows htaken blobId hnames).take hinv.timed hgrace hclock hmove
        fun hlooks hdown => ?_
      rw [hflag hlooks hdown other] at htaken
      cases htaken
    refine forall_take (P := fun _ held => ∀ rows ∈ held.taken, ∀ blobId, rows.Names blobId →
      Spared (state.take config who now (effect, phase)) blobId)
      (fun rows htaken blobId hnames => ?_) fun other _ rows htaken blobId hnames =>
        hold htaken hnames
    rcases taken_of_move hmove htaken with hbefore | ⟨hphase, rfl⟩
    · exact hold hbefore hnames
    · refine (spared_of_names hinv.kept hnames).take hinv.timed hgrace hclock hmove fun hlooks => ?_
      rw [hphase] at hlooks
      exact hlooks.elim
  covers := by
    refine forall_take (P := fun _ held =>
      held.Covers (effect.apply config who now state.shared).written) ?_ fun other _ => ?_
    · refine (covers_of_move hmove (h.covers who) ?_ hinv.filed.files ?_).mono
        (hinv.filed.written_take hmove)
      · intro key pair hpair
        obtain ⟨stored, hfind, hrow⟩ := Option.bind_eq_some_iff.mp hpair
        exact (hinv.filed.rows key stored hfind).2 pair hrow
      · intro rows htaken blobId hnames
        exact (h.spared who rows htaken blobId hnames).present
    · exact (h.covers other).mono (hinv.filed.written_take hmove)

end Moves

theorem Backed.quiet (h : Backed state) (hquiet : Quiet state next) : Backed next where
  spared := by
    have htaken : ∀ who, (next.calls who).taken = (state.calls who).taken :=
      hquiet.calls Phase.taken fun request => by cases request <;> rfl
    have hremoving : ∀ who, (next.calls who).removing = (state.calls who).removing :=
      hquiet.calls Phase.removing fun request => by cases request <;> rfl
    have hlists : ∀ who, (next.calls who).lists = (state.calls who).lists :=
      hquiet.calls Phase.lists fun request => by cases request <;> rfl
    intro who rows hrows blobId hnames
    rw [htaken] at hrows
    obtain ⟨hpresent, hfree, hyoung⟩ := h.spared who rows hrows blobId hnames
    refine ⟨?_, fun other => ?_, fun other => ?_⟩
    · rw [hquiet.tree]
      exact hpresent
    · rw [hremoving]
      exact hfree other
    · rw [hlists, hquiet.queuedAt]
      exact hyoung other
  covers := by
    intro who
    have hcovers : (next.calls who).Covers state.shared.written =
        (state.calls who).Covers state.shared.written :=
      hquiet.calls (fun phase => phase.Covers state.shared.written)
        (fun request => by cases request <;> rfl) who
    rw [hquiet.written, hcovers]
    exact h.covers who

variable [DecidableEq ι]

theorem Backed.step (h : Backed state) (hinv : InOrder config state)
    (hgrace : 0 < config.reclaimGraceMs.toInt) (htimely : Timely config state label)
    (hflag : FlagHolds state label) (hstep : step config state label = some next) :
    Backed next := by
  rcases quiet_or_move (turn_of_step hstep) with hquiet | ⟨who, effect, phase, hwho, hmove, -, rfl⟩
  · exact h.quiet hquiet
  · exact h.move hinv hgrace (Int64.le_iff_toInt_le.mp htimely.1) hmove (hflag who hwho)

/-! ### Every run -/

/-- From the empty store, with any grace above zero, in every run in which the clock
does not go back, payloads are committed within the grace of their markers and no
reclaim finds the flag down while a checkpoint is at its copy: a checkpoint that has
returned has every payload its rows name, all of its bytes. -/
theorem whole_of_flagHolds (hgrace : 0 < config.reclaimGraceMs) {final : State ι}
    {labels : List (Label ι)}
    (hguard : Trace.Every (step config) (fun state label =>
      Timely config state label ∧ FlagHolds state label) emptyStart labels)
    (hrun : Trace.run (step config) emptyStart labels = some final) {who : ι} {copy : Copy}
    (hcopied : (final.calls who).copied = some copy) : copy.Whole final.shared.written := by
  have hgrace : 0 < config.reclaimGraceMs.toInt := Int64.lt_iff_toInt_lt.mp hgrace
  have hkept : ∀ {before after : State ι} {label : Label ι}, InOrder config before ∧ Backed before →
      Timely config before label ∧ FlagHolds before label → step config before label = some after →
      InOrder config after ∧ Backed after :=
    fun h hmeets hstep =>
      ⟨h.1.step hmeets.1 hstep, h.2.step h.1 hgrace hmeets.1 hmeets.2 hstep⟩
  have hstart : Backed (emptyStart : State ι) := ⟨(fun _ _ h => nomatch h), fun _ => trivial⟩
  exact whole_of_covers ((hguard.run_invariant hkept ⟨inOrder_emptyStart, hstart⟩ hrun).2.covers who)
    hcopied

/-! ### Fixed runs -/

section Fixed

/-- A checkpoint that has taken its rows when its object is overwritten. -/
def copiesAlone : List (Label (Fin 4)) :=
  stores ++ [.start 2 .checkpoint] ++ calls 2 2 1 ++ overwrites ++ calls 1 2 3 ++ calls 2 1 3 ++
    [.visit 2 (ascii "p"), .visit 2 (ascii "q")] ++ calls 2 2 3

/-- Another checkpoint, begun before it, that ends while the first has taken its rows
and copied nothing; then the object is overwritten. -/
def copiesBesideAnother : List (Label (Fin 4)) :=
  stores ++ [.start 2 .checkpoint, .start 3 .checkpoint] ++ calls 3 3 1 ++ calls 2 2 1 ++
    [.visit 3 (ascii "p")] ++ calls 3 2 1 ++ overwrites ++ reclaims ++ calls 2 1 3 ++
    [.visit 2 (ascii "q")] ++ calls 2 2 3

theorem whole_of_flagHolds_alone : ∃ copy, ((after copiesAlone).calls 2).copied = some copy ∧
    copy.Whole (after copiesAlone).shared.written := by
  have hreturned : ((after copiesAlone).calls 2).copied.isSome := by decide +kernel
  obtain ⟨copy, hcopied⟩ := Option.isSome_iff_exists.mp hreturned
  refine ⟨copy, hcopied, ?_⟩
  have hruns : (Trace.run (step sampleConfig) emptyStart copiesAlone).isSome := by decide +kernel
  obtain ⟨final, hfinal⟩ := Option.isSome_iff_exists.mp hruns
  have hafter : after copiesAlone = final := by rw [after, hfinal]; rfl
  rw [hafter] at hcopied ⊢
  exact whole_of_flagHolds (by decide) (by decide +kernel) hfinal hcopied

/-- Both checkpoints return, and the copy of the first has rows that name a payload its
tree has not. -/
theorem copy_without_its_payload :
    (Trace.run (step sampleConfig) emptyStart copiesBesideAnother).isSome ∧
    Trace.Every (step sampleConfig) (Timely sampleConfig) emptyStart copiesBesideAnother ∧
    ∃ copy, ((after copiesBesideAnother).calls 2).copied = some copy ∧
      ¬ copy.Whole (after copiesBesideAnother).shared.written := by
  have hcopied : ((after copiesBesideAnother).calls 2).copied.isSome := by decide +kernel
  obtain ⟨copy, hcopy⟩ := Option.isSome_iff_exists.mp hcopied
  have hmissing : ∀ copy ∈ ((after copiesBesideAnother).calls 2).copied,
      copy.rows.payloadAt (Keys.object (ascii "photos") (ascii "holiday")) = some (ascii "p", 4) ∧
        copy.tree.find? (ascii "p") = none := by
    decide +kernel
  refine ⟨by decide +kernel, by decide +kernel, copy, hcopy, fun hwhole => ?_⟩
  obtain ⟨body, hbody, -⟩ := hwhole _ _ (hmissing copy hcopy).1
  rw [(hmissing copy hcopy).2] at hbody
  cases hbody

end Fixed

end MonoBucket.EngineCalls

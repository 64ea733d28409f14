/-
Reads between writes

A read looks the record up and opens the file next. In between, an overwrite or a
deletion may commit and unlink that file at once, and the read finds nothing to open
although the key had an object all along.

As long as no file is unlinked between a read's look at its record and its opening
of it, every read answers with the whole of a version that was current while it ran,
or with no object where there was none.
-/

import MonoBucket.Storage.Payloads

namespace MonoBucket.EngineCalls

variable {ι : Type} {config : Config} {state next begun final : State ι} {label : Label ι}
  {before during : List (Label ι)} {who : ι} {bucket key : Bytes}

/-! ### Readers -/

/-- The record a read has looked up and not opened. -/
def Phase.opening : Phase → Option ObjectRecord
  | .getOpen record => some record
  | _ => none

/-- No file is unlinked that a read is about to open. -/
def ReadersFirst (state : State ι) : Label ι → Prop
  | .remove who true => ∀ blobId ∈ (state.calls who).unlinks,
      ∀ other, ∀ record ∈ (state.calls other).opening, record.blobId.items ≠ blobId
  | _ => True

instance [Fintype ι] (state : State ι) : ∀ label, Decidable (ReadersFirst state label)
  | .remove who true => inferInstanceAs (Decidable (∀ blobId ∈ (state.calls who).unlinks, _))
  | .remove _ false | .createBucket .. | .createUpload _ | .start .. | .call .. | .visit ..
  | .giveUp _ => isTrue trivial

/-- The key had the object, or none, at a moment of the run. -/
def Current [DecidableEq ι] (config : Config) (begun : State ι) (during : List (Label ι))
    (bucket key : Bytes) (found : Option ObjectRecord) : Prop :=
  ∃ moment, Trace.Through (step config) begun during moment ∧
    getObject moment.rows bucket key = .ok found

/-- Where a read of a key is: it is still at it, or answers with a version that was
current on the way, every byte of it, or with no object where there was none. -/
def AllOldOrNew [DecidableEq ι] (config : Config) (begun : State ι) (during : List (Label ι))
    (written : OrderedMap Bytes Bytes) (bucket key : Bytes) : Phase → Prop
  | .getRead inBucket underKey => inBucket = bucket ∧ underKey = key
  | .getOpen record => Current config begun during bucket key (some record)
  | .returned (.object record body) =>
    Current config begun during bucket key (some record) ∧
      written.find? record.blobId.items = some body ∧ record.size = body.length.toUInt64
  | .returned .absent => Current config begun during bucket key none
  | _ => False

/-- What every read has looked up is there to be opened, as long as its record says. -/
def Openable (state : State ι) : Prop :=
  ∀ who, ∀ record ∈ (state.calls who).opening,
    state.shared.tree.find? record.blobId.items ≠ none ∧
      Sized state.shared.written record.blobId.items record.size

theorem names_of_getObject {record : ObjectRecord}
    (hload : getObject state.rows bucket key = .ok (some record)) :
    state.rows.Names record.blobId.items := by
  refine ⟨Keys.object bucket key, ?_⟩
  rw [Rows.blobAt_eq_payloadAt, payloadAt_of_getObject hload]
  rfl

/-- The record looked up is of a file of the size it says. -/
theorem Filed.sized (h : Filed state) {record : ObjectRecord}
    (hload : getObject state.rows bucket key = .ok (some record)) :
    Sized state.shared.written record.blobId.items record.size := by
  have hpayload := payloadAt_of_getObject hload
  obtain ⟨stored, hfind, hrow⟩ := Option.bind_eq_some_iff.mp hpayload
  exact (h.rows _ stored hfind).2 _ hrow

/-- A read of the rows the server writes does not throw. -/
theorem Filed.getObject_returns (h : Filed state) (bucket key : Bytes) :
    (getObject state.rows bucket key).Returns := by
  refine readRow_returns fun stored hfind => ?_
  exact (h.rows _ stored hfind).1.decodeObject rfl key

/-! ### What a step keeps -/

section Moves

variable {shared : Shared ι} {now : TimestampMs} {phase after : Phase} {effect : Effect}

theorem opening_of_move (hmove : Move config shared now phase effect after) {record : ObjectRecord}
    (h : after.opening = some record) :
    ∃ bucket key, getObject shared.rows bucket key = .ok (some record) ∧ effect = .nothing := by
  cases hmove with
  | getRead hload =>
      obtain rfl := Option.some.inj h
      exact ⟨_, _, hload, rfl⟩
  | @track reservation write body hnew => cases write <;> cases h
  | @rename bucket reservation write body => cases write <;> cases h
  | _ => cases h

end Moves

variable [DecidableEq ι]

theorem Openable.step (h : Openable state) (hkept : Kept state) (hfiled : Filed state)
    (hfirst : ReadersFirst state label) (hstep : step config state label = some next) :
    Openable next := by
  have hsized : ∀ {blobId : Bytes} {size : UInt64}, Sized state.shared.written blobId size →
      Sized next.shared.written blobId size := Sized.mono (hfiled.written_step hstep)
  rcases quiet_or_move (turn_of_step hstep) with hquiet |
    ⟨mover, effect, phase, -, hmove, hremoves, rfl⟩
  · intro reader record hopening
    rw [hquiet.calls Phase.opening fun request => by cases request <;> rfl] at hopening
    rw [hquiet.tree]
    exact (h reader record hopening).imp id hsized
  · refine forall_take (P := fun _ held => ∀ record ∈ held.opening,
      (effect.apply config mover (label.now state.shared.clock) state.shared).tree.find?
          record.blobId.items ≠ none ∧
        Sized (effect.apply config mover (label.now state.shared.clock) state.shared).written
          record.blobId.items record.size) (fun record hopening => ?_)
      fun other _ record hopening => ?_
    · obtain ⟨bucket, key, hload, rfl⟩ := opening_of_move hmove hopening
      exact ⟨hkept.present _ (names_of_getObject hload), hfiled.sized hload⟩
    · refine (h other record hopening).imp (fun hthere => tree_kept hthere fun hunlink => ?_) hsized
      have hunlinks := unlinks_of_move hmove hunlink
      obtain ⟨removed, rfl, heffect⟩ := hremoves _ hunlinks
      cases removed with
      | true => exact hfirst _ hunlinks other record hopening rfl
      | false =>
          rw [heffect] at hunlink
          cases hunlink

/-! ### What a read comes to -/

theorem Current.longer {found : Option ObjectRecord}
    (h : Current config begun during bucket key found) :
    Current config begun (during ++ [label]) bucket key found := by
  obtain ⟨moment, hthrough, hload⟩ := h
  exact ⟨moment, hthrough.longer [label], hload⟩

theorem AllOldOrNew.longer {written grown : OrderedMap Bytes Bytes} {phase : Phase}
    (h : AllOldOrNew config begun during written bucket key phase)
    (hgrown : ∀ {blobId body}, written.find? blobId = some body →
      grown.find? blobId = some body) :
    AllOldOrNew config begun (during ++ [label]) grown bucket key phase := by
  cases phase with
  | getRead inBucket underKey => exact h
  | getOpen record => exact Current.longer h
  | returned answer =>
      cases answer with
      | object record body => exact ⟨h.1.longer, hgrown h.2.1, h.2.2⟩
      | absent => exact Current.longer h
      | _ => exact h.elim
  | _ => exact h.elim

/-- The reader's own step: the look at the record, or the opening of the file. -/
theorem AllOldOrNew.own (hrun : Trace.run (step config) begun during = some state)
    (hfiled : Filed state) (hopenable : Openable state) {now : TimestampMs} {effect : Effect}
    {phase : Phase} (hmove : Move config state.shared now (state.calls who) effect phase)
    (h : AllOldOrNew config begun during state.shared.written bucket key (state.calls who)) :
    AllOldOrNew config begun during state.shared.written bucket key phase := by
  have hthere := hopenable who
  generalize state.calls who = before at hmove h hthere
  cases hmove with
  | getFails hload =>
      obtain ⟨found, hfound⟩ := hfiled.getObject_returns bucket key
      obtain ⟨rfl, rfl⟩ := h
      have hload : getObject state.rows _ _ = .error _ := hload
      rw [hfound] at hload
      cases hload
  | getAbsent hload =>
      obtain ⟨rfl, rfl⟩ := h
      exact ⟨state, .last hrun, hload⟩
  | getRead hload =>
      obtain ⟨rfl, rfl⟩ := h
      exact ⟨state, .last hrun, hload⟩
  | getLost hfind => exact absurd hfind (hthere _ rfl).1
  | @getOpen record body hfind =>
      have hwritten := hfiled.files hfind
      obtain ⟨content, hcontent, hsize⟩ := (hthere record rfl).2
      rw [hwritten] at hcontent
      obtain rfl := Option.some.inj hcontent
      exact ⟨h, hwritten, hsize⟩
  | fail hphase => cases before <;> first | exact h.elim | exact hphase.elim
  | refused hphase => cases before <;> first | exact h.elim | cases hphase
  | giveUp hphase => cases before <;> first | exact h.elim | exact hphase.elim
  | _ => exact h.elim

theorem AllOldOrNew.step (hrun : Trace.run (step config) begun during = some state)
    (hfiled : Filed state) (hopenable : Openable state)
    (h : AllOldOrNew config begun during state.shared.written bucket key (state.calls who))
    (hstep : EngineCalls.step config state label = some next) :
    AllOldOrNew config begun (during ++ [label]) next.shared.written bucket key
      (next.calls who) := by
  have hgrown : ∀ {blobId body : Bytes}, state.shared.written.find? blobId = some body →
      next.shared.written.find? blobId = some body := hfiled.written_step hstep
  cases turn_of_step hstep with
  | createBucket hstore => exact h.longer hgrown
  | createUpload hnew hstore => exact h.longer hgrown
  | @start starter request hidle =>
      have hne : who ≠ starter := by
        rintro rfl
        rw [hidle] at h
        exact h
      rw [state.move_calls_of_ne _ _ hne]
      exact h.longer hgrown
  | @move label mover effect phase hwho hmove hremoves =>
      by_cases hself : who = mover
      · subst hself
        rw [State.take, state.move_calls_self]
        exact (h.own hrun hfiled hopenable hmove).longer hgrown
      · rw [State.take, state.move_calls_of_ne _ _ hself]
        exact h.longer hgrown

/-! ### Every run -/

/-- From the empty store, in every run in which the clock does not go back, payloads
are committed within the grace of their markers and no file is unlinked between a
read's look at its record and its opening of it: a read that began at some point of
it is still at it at the end, or has answered with a version that was current since
it began, every byte of it, or with no object where there was none at some moment
since. -/
theorem allOldOrNew_of_readersFirst
    (hguard : Trace.Every (step config) (fun state label =>
      Timely config state label ∧ ReadersFirst state label) emptyStart (before ++ during))
    (hbefore : Trace.run (step config) emptyStart before = some begun)
    (hbegun : begun.calls who = .getRead bucket key)
    (hduring : Trace.run (step config) begun during = some final) :
    AllOldOrNew config begun during final.shared.written bucket key (final.calls who) := by
  have hkept : ∀ {first second : State ι} {label : Label ι},
      InOrder config first ∧ Openable first → Timely config first label ∧ ReadersFirst first label →
      step config first label = some second → InOrder config second ∧ Openable second :=
    fun h hmeets hstep =>
      ⟨h.1.step hmeets.1 hstep, h.2.step h.1.kept h.1.filed hmeets.2 hstep⟩
  have hstart := hguard.front.run_invariant hkept
    ⟨inOrder_emptyStart, fun _ _ h => nomatch h⟩ hbefore
  have hlast := (hguard.rest hbefore).run_history (fun earlier state =>
    Trace.run (step config) begun earlier = some state ∧
      (InOrder config state ∧ Openable state) ∧
      AllOldOrNew config begun earlier state.shared.written bucket key (state.calls who))
    ?_ ⟨rfl, hstart, ?_⟩ hduring
  · exact hlast.2.2
  · rintro earlier state label next ⟨hrun, hinv, hread⟩ hmeets hstep
    refine ⟨?_, hkept hinv hmeets hstep, hread.step hrun hinv.1.filed hinv.2 hstep⟩
    rw [Trace.run_append, hrun, Option.bind_some, Trace.run_cons, hstep]
    rfl
  · rw [hbegun]
    exact ⟨rfl, rfl⟩

section Fixed

/-- A read of the key, begun when the first object is there. -/
def readerBegins : List (Label (Fin 4)) :=
  stores ++ [.start 2 (.getObject (ascii "photos") (ascii "holiday"))]

/-- The reader opens the file of the record it has looked up before the object is
overwritten and that file unlinked. -/
def opensFirst : List (Label (Fin 4)) := calls 2 2 1 ++ overwrites ++ reclaims

/-- The object is overwritten between the reader's look at its record and its opening
of the file, which is unlinked at once. -/
def overtaken : List (Label (Fin 4)) := calls 2 1 1 ++ overwrites ++ reclaims ++ calls 2 1 3

theorem allOldOrNew_of_readersFirst_opensFirst :
    AllOldOrNew sampleConfig (after readerBegins) opensFirst
      (after (readerBegins ++ opensFirst)).shared.written (ascii "photos") (ascii "holiday")
      ((after (readerBegins ++ opensFirst)).calls 2) := by
  have hbegins : (Trace.run (step sampleConfig) emptyStart readerBegins).isSome := by
    decide +kernel
  have hruns : (Trace.run (step sampleConfig) emptyStart (readerBegins ++ opensFirst)).isSome := by
    decide +kernel
  obtain ⟨begun, hbegun⟩ := Option.isSome_iff_exists.mp hbegins
  obtain ⟨final, hfinal⟩ := Option.isSome_iff_exists.mp hruns
  have hafter : after readerBegins = begun := by rw [after, hbegun]; rfl
  have hfollows : after (readerBegins ++ opensFirst) = final := by rw [after, hfinal]; rfl
  rw [Trace.run_append, hbegun, Option.bind_some] at hfinal
  rw [hafter, hfollows]
  have hguard : Trace.Every (step sampleConfig) (fun state label =>
      Timely sampleConfig state label ∧ ReadersFirst state label) emptyStart
      (readerBegins ++ opensFirst) := by
    decide +kernel
  refine allOldOrNew_of_readersFirst hguard hbegun ?_ hfinal
  rw [← hafter]
  rfl

/-- A read whose file is unlinked between its two steps reports a missing payload,
although the key had an object the whole time. -/
theorem payload_removed_underneath :
    (Trace.run (step sampleConfig) emptyStart (readerBegins ++ overtaken)).isSome ∧
    Trace.Every (step sampleConfig) (Timely sampleConfig) emptyStart (readerBegins ++ overtaken) ∧
    (after readerBegins).calls 2 = .getRead (ascii "photos") (ascii "holiday") ∧
    (after (readerBegins ++ overtaken)).calls 2 =
      .returned (.failed (missingPayload firstPicture.blobId.items)) ∧
    ¬ AllOldOrNew sampleConfig (after readerBegins) overtaken
      (after (readerBegins ++ overtaken)).shared.written (ascii "photos") (ascii "holiday")
      ((after (readerBegins ++ overtaken)).calls 2) := by
  have hlost : (after (readerBegins ++ overtaken)).calls 2 =
      .returned (.failed (missingPayload firstPicture.blobId.items)) := rfl
  refine ⟨by decide +kernel, by decide +kernel, rfl, hlost, ?_⟩
  rw [hlost]
  exact id

end Fixed

end MonoBucket.EngineCalls

/-
The upload limit, kept in two places

`setMaxUploadBytes` writes the limit to the settings record and then publishes it in
memory, with nothing held in between. Two calls can write in one order and publish
in the other, and the limit in force is then not the one a restart loads.

As long as no call publishes a limit that another call has replaced in the record
and already published over, the two are the same whenever no call is under way.
-/

import MonoBucket.Lib.Trace
import MonoBucket.Storage.IdentityRows
import MonoBucket.Storage.StorageEngine

namespace MonoBucket.UploadLimit

/-! ### The operation -/

/-- What `setMaxUploadBytes` refuses. -/
def checkUploadBytes (options : EngineOptions) (bytes : UInt64) : Except StoreError Unit :=
  if bytes = 0 then fail .internal (ascii "the maximum upload size must be at least 1 byte")
  else if options.maxUploadCeilingBytes < bytes then
    fail .objectTooLarge
      (ascii "the maximum upload size cannot exceed this instance's ceiling of " ++
        decimal options.maxUploadCeilingBytes.toNat ++
        ascii " bytes, which is set by MONOBUCKET_MAX_UPLOAD_CEILING_BYTES")
  else .ok ()

/-- The settings a call writes. -/
def changedSettings (options : EngineOptions) (rows : Rows) (bytes : UInt64) :
    Except StoreError InstanceSettings := do
  checkUploadBytes options bytes
  let stored ← getInstanceSettings rows
  pure { stored.getD {} with maxUploadBytes := bytes }

def setMaxUploadBytes (options : EngineOptions) (engine : StorageEngine) (bytes : UInt64) :
    StorageEngine × Except StoreError Unit :=
  match changedSettings options engine.metadata.rows bytes with
  | .error error => (engine, .error error)
  | .ok settings =>
    ({ engine with
        metadata := putInstanceSettings engine.metadata settings
        maxUploadBytes := bytes }, .ok ())

/-! ### Calls -/

/-- Where a call is. -/
inductive Call
  | idle
  | entered (bytes : UInt64)
  | loaded (bytes : UInt64) (settings : InstanceSettings)
  | written (bytes : UInt64)
  | returned (bytes : UInt64) (result : Except StoreError Unit)

section Calls

variable (options : EngineOptions)

/-- One step of a call: the settings read, the settings written, the limit published. -/
def advance (engine : StorageEngine) : Call → Option (StorageEngine × Call)
  | .idle | .returned .. => none
  | .entered bytes =>
    match changedSettings options engine.metadata.rows bytes with
    | .error error => some (engine, .returned bytes (.error error))
    | .ok settings => some (engine, .loaded bytes settings)
  | .loaded bytes settings =>
    some ({ engine with metadata := putInstanceSettings engine.metadata settings },
      .written bytes)
  | .written bytes => some ({ engine with maxUploadBytes := bytes }, .returned bytes (.ok ()))

/-- A call nobody comes between. -/
def alone (engine : StorageEngine) (call : Call) : Nat → StorageEngine × Call
  | 0 => (engine, call)
  | fuel + 1 =>
    match advance options engine call with
    | none => (engine, call)
    | some (engine, call) => alone engine call fuel

/-- The steps of a call, one after another, are the engine's operation. -/
theorem alone_eq_setMaxUploadBytes (engine : StorageEngine) (bytes : UInt64) :
    alone options engine (.entered bytes) 3 =
      ((setMaxUploadBytes options engine bytes).1,
        .returned bytes (setMaxUploadBytes options engine bytes).2) := by
  rw [setMaxUploadBytes]
  cases hchanged : changedSettings options engine.metadata.rows bytes with
  | error error => simp [alone, advance, hchanged]
  | ok settings => simp [alone, advance, hchanged]

end Calls

/-! ### Runs -/

abbrev State (ι : Type) := Pool ι StorageEngine Call

def State.rows {ι : Type} (state : State ι) : Rows := state.shared.metadata.rows

inductive Label (ι : Type)
  | call (who : ι) (bytes : UInt64)
  | step (who : ι)

section Steps

variable {ι : Type} [DecidableEq ι] (options : EngineOptions)

def step (state : State ι) : Label ι → Option (State ι)
  | .call who bytes =>
    match state.calls who with
    | .idle => some (state.move who state.shared (.entered bytes))
    | _ => none
  | .step who =>
    (advance options state.shared (state.calls who)).map fun (engine, next) =>
      state.move who engine next

/-- An engine before any call. -/
def starting (engine : StorageEngine) : State ι := ⟨engine, fun _ => .idle⟩

end Steps

/-- The limit a call has written and not yet published. -/
def Call.unpublished : Call → Option UInt64
  | .written bytes => some bytes
  | _ => none

/-- No call is under way. -/
def Call.Settled : Call → Prop
  | .idle | .returned .. => True
  | _ => False

/-- The limit the record holds. -/
def Recorded (rows : Rows) (limit : UInt64) : Prop :=
  getInstanceSettings rows = .ok (some { maxUploadBytes := limit })

instance (rows : Rows) (limit : UInt64) : Decidable (Recorded rows limit) :=
  inferInstanceAs (Decidable (_ = _))

/-- A restart with the same ceiling loads the limit in force. -/
def Persisted {ι : Type} (options : EngineOptions) (state : State ι) : Prop :=
  ∀ restarted : EngineOptions,
    restarted.maxUploadCeilingBytes = options.maxUploadCeilingBytes →
    ∃ metadata, StorageEngine.seedUploadLimit restarted state.shared.metadata =
      .ok (metadata, state.shared.maxUploadBytes)

/-- A call publishes what the record holds, unless one that is still to publish has
written over it. -/
def PublishesInTurn {ι : Type} (state : State ι) : Label ι → Prop
  | .call .. => True
  | .step who => ∀ bytes ∈ (state.calls who).unpublished,
    Recorded state.rows bytes ∨
      ∃ other, ∃ limit ∈ (state.calls other).unpublished,
        other ≠ who ∧ Recorded state.rows limit

instance {ι : Type} [Fintype ι] [DecidableEq ι] (state : State ι) :
    ∀ label, Decidable (PublishesInTurn state label)
  | .call .. => isTrue trivial
  | .step who => inferInstanceAs (Decidable (∀ bytes ∈ (state.calls who).unpublished, _ ∨
      ∃ other, ∃ limit ∈ (state.calls other).unpublished, _))

/-! ### The record -/

section Record

variable {options : EngineOptions}

theorem recorded_putInstanceSettings (store : MetadataStore) (settings : InstanceSettings) :
    Recorded (putInstanceSettings store settings).rows settings.maxUploadBytes := by
  rw [Recorded, getInstanceSettings, readRow, putInstanceSettings, find?_putRow, if_pos rfl]
  dsimp only
  rw [Codec.decodeSettings_encodeSettings]
  rfl

/-- A limit is one byte at least and the ceiling at most. -/
def Allowed (options : EngineOptions) (limit : UInt64) : Prop :=
  limit ≠ 0 ∧ limit ≤ options.maxUploadCeilingBytes

theorem allowed_of_changedSettings {rows : Rows} {bytes : UInt64} {settings : InstanceSettings}
    (h : changedSettings options rows bytes = .ok settings) :
    settings.maxUploadBytes = bytes ∧ Allowed options bytes := by
  obtain ⟨⟨⟩, hcheck, h⟩ := Except.bind_eq_ok_iff.mp h
  obtain ⟨stored, -, h⟩ := Except.bind_eq_ok_iff.mp h
  obtain rfl := Except.pure_eq_ok_iff.mp h
  rw [checkUploadBytes] at hcheck
  split_ifs at hcheck with hzero hceiling
  · cases hcheck
  · cases hcheck
  · exact ⟨rfl, hzero, UInt64.not_lt.mp hceiling⟩

/-- A start loads an allowed limit from the record as it is. -/
theorem seedUploadLimit_of_recorded {metadata : MetadataStore} {limit : UInt64}
    (hrecorded : Recorded metadata.rows limit) (hallowed : Allowed options limit) :
    StorageEngine.seedUploadLimit options metadata = .ok (metadata, limit) := by
  have hlimit : StorageEngine.uploadLimit options (some { maxUploadBytes := limit }) = limit := by
    rw [StorageEngine.uploadLimit]
    dsimp only
    rw [if_pos hallowed.1, if_neg (UInt64.not_lt.mpr hallowed.2)]
  rw [StorageEngine.seedUploadLimit, hrecorded]
  show (if some limit = some _ then _ else _) = _
  rw [hlimit, if_pos rfl]
  rfl

/-- The limit a start publishes is allowed and on record. -/
theorem recorded_of_seedUploadLimit {metadata seeded : MetadataStore} {limit : UInt64}
    (hceiling : options.maxUploadCeilingBytes ≠ 0) (hconfigured : options.maxUploadBytes ≠ 0)
    (h : StorageEngine.seedUploadLimit options metadata = .ok (seeded, limit)) :
    Recorded seeded.rows limit ∧ Allowed options limit := by
  obtain ⟨stored, hstored, h⟩ := Except.bind_eq_ok_iff.mp h
  have hallowed : Allowed options (StorageEngine.uploadLimit options stored) := by
    have hclamped : ∀ limit : UInt64, limit ≠ 0 → Allowed options
        (if options.maxUploadCeilingBytes < limit then options.maxUploadCeilingBytes else limit) := by
      intro limit hpositive
      split_ifs with hover
      · exact ⟨hceiling, UInt64.le_refl _⟩
      · exact ⟨hpositive, UInt64.not_lt.mp hover⟩
    unfold StorageEngine.uploadLimit
    cases stored with
    | none => exact hclamped _ hconfigured
    | some settings =>
        refine hclamped _ ?_
        dsimp only
        split_ifs with hstored
        · exact hstored
        · exact hconfigured
  dsimp only at h
  split_ifs at h with hsame
  · obtain ⟨rfl, rfl⟩ := Prod.mk.inj (Except.pure_eq_ok_iff.mp h)
    refine ⟨?_, hallowed⟩
    obtain ⟨settings, rfl, hsettings⟩ := Option.map_eq_some_iff.mp hsame
    rw [← hsettings]
    exact hstored
  · obtain ⟨rfl, rfl⟩ := Prod.mk.inj (Except.pure_eq_ok_iff.mp h)
    exact ⟨recorded_putInstanceSettings _ _, hallowed⟩

end Record

/-! ### What a step does -/

/-- The settings a call is about to write hold its limit. -/
def Call.Ready (options : EngineOptions) : Call → Prop
  | .loaded bytes settings => settings.maxUploadBytes = bytes ∧ Allowed options bytes
  | _ => True

/-- A step reads or refuses, or it writes, or it publishes. -/
theorem advance_cases {options : EngineOptions} {engine next : StorageEngine} {call after : Call}
    (h : advance options engine call = some (next, after)) :
    next = engine ∧ call.unpublished = none ∧ after.unpublished = none ∧ after.Ready options ∨
      (∃ bytes settings, call = .loaded bytes settings ∧ after = .written bytes ∧
        next = { engine with metadata := putInstanceSettings engine.metadata settings }) ∨
      ∃ bytes, call = .written bytes ∧ after = .returned bytes (.ok ()) ∧
        next = { engine with maxUploadBytes := bytes } := by
  cases call with
  | idle => cases h
  | returned bytes result => cases h
  | entered bytes =>
      left
      rw [advance] at h
      split at h
      · obtain ⟨rfl, rfl⟩ := Prod.mk.inj (Option.some.inj h)
        exact ⟨rfl, rfl, rfl, trivial⟩
      · rename_i settings hchanged
        obtain ⟨rfl, rfl⟩ := Prod.mk.inj (Option.some.inj h)
        exact ⟨rfl, rfl, rfl, allowed_of_changedSettings hchanged⟩
  | loaded bytes settings =>
      right; left
      obtain ⟨rfl, rfl⟩ := Prod.mk.inj (Option.some.inj h)
      exact ⟨bytes, settings, rfl, rfl, rfl⟩
  | written bytes =>
      right; right
      obtain ⟨rfl, rfl⟩ := Prod.mk.inj (Option.some.inj h)
      exact ⟨bytes, rfl, rfl, rfl⟩

/-! ### Every run -/

section Runs

variable {ι : Type} {options : EngineOptions} {state next : State ι}

/-- The record holds the limit in force, or one a call has yet to publish. -/
structure Kept (options : EngineOptions) (state : State ι) : Prop where
  ready : ∀ who, (state.calls who).Ready options
  recorded : ∃ limit, Recorded state.rows limit ∧ Allowed options limit ∧
    (limit = state.shared.maxUploadBytes ∨ ∃ who, (state.calls who).unpublished = some limit)

theorem kept_starting {engine : StorageEngine} (hrecorded : Recorded engine.metadata.rows
    engine.maxUploadBytes) (hallowed : Allowed options engine.maxUploadBytes) :
    Kept options (starting engine : State ι) :=
  ⟨fun _ => trivial, engine.maxUploadBytes, hrecorded, hallowed, Or.inl rfl⟩

variable [DecidableEq ι]

/-- A call that has something to publish still has it when another one moves. -/
theorem unpublished_move {who : ι} {engine : StorageEngine} {call : Call} {limit : UInt64}
    (hwho : (state.calls who).unpublished ≠ some limit ∨ call.unpublished = some limit)
    (h : ∃ other, (state.calls other).unpublished = some limit) :
    ∃ other, ((state.move who engine call).calls other).unpublished = some limit := by
  obtain ⟨other, hother⟩ := h
  by_cases hsame : other = who
  · subst hsame
    rcases hwho with hnot | hcall
    · exact absurd hother hnot
    · exact ⟨other, by rwa [Pool.move_calls_self]⟩
  · exact ⟨other, by rwa [state.move_calls_of_ne _ _ hsame]⟩

theorem Kept.step {label : Label ι} (h : Kept options state) (hguard : PublishesInTurn state label)
    (hstep : step options state label = some next) : Kept options next := by
  obtain ⟨limit, hrecorded, hallowed, hlimit⟩ := h.recorded
  cases label with
  | call who bytes =>
      rw [UploadLimit.step] at hstep
      split at hstep
      · rename_i hidle
        obtain rfl := Option.some.inj hstep
        refine ⟨(state.forall_move who _ _).mpr
          ⟨trivial, fun other _ => h.ready other⟩, limit, hrecorded, hallowed, ?_⟩
        refine hlimit.imp_right (unpublished_move (Or.inl ?_))
        rw [hidle]
        exact nofun
      · cases hstep
  | step who =>
      obtain ⟨⟨engine, call⟩, hadvance, rfl⟩ := Option.map_eq_some_iff.mp hstep
      have hready : call.Ready options → ∀ other,
          ((state.move who engine call).calls other).Ready options := fun hcall =>
        (state.forall_move who _ _).mpr
          ⟨hcall, fun other _ => h.ready other⟩
      rcases advance_cases hadvance with ⟨rfl, hbefore, hafter, hcall⟩ |
          ⟨bytes, settings, hbefore, rfl, rfl⟩ | ⟨bytes, hbefore, rfl, rfl⟩
      · refine ⟨hready hcall, limit, hrecorded, hallowed, ?_⟩
        refine hlimit.imp_right (unpublished_move (Or.inl ?_))
        rw [hbefore]
        exact nofun
      · -- The record is written, and its limit is to be published.
        have hwho := h.ready who
        rw [hbefore] at hwho
        obtain ⟨rfl, hbytes⟩ := hwho
        exact ⟨hready trivial, _, recorded_putInstanceSettings _ _, hbytes,
          Or.inr ⟨who, by rw [Pool.move_calls_self]; rfl⟩⟩
      · have hturn := hguard bytes (by rw [hbefore]; rfl)
        have hsame : ∀ {other}, Recorded state.rows other → other = limit := fun hother =>
          congrArg InstanceSettings.maxUploadBytes
            (Option.some.inj (Except.ok.inj (hother.symm.trans hrecorded)))
        refine ⟨hready trivial, limit, hrecorded, hallowed, ?_⟩
        rcases hturn with hown | ⟨other, written, hwritten, hne, hother⟩
        · exact Or.inl (hsame hown).symm
        · obtain rfl := hsame hother
          exact Or.inr ⟨other, by rwa [state.move_calls_of_ne _ _ hne]⟩

/-- In every run whose calls publish in turn, the limit in force when no call is
under way is the one a restart loads. -/
theorem persisted_of_publishesInTurn {metadata : MetadataStore} {engine : StorageEngine}
    {labels : List (Label ι)} {final : State ι}
    (hceiling : options.maxUploadCeilingBytes ≠ 0) (hconfigured : options.maxUploadBytes ≠ 0)
    (hstart : StorageEngine.seedUploadLimit options metadata =
      .ok (engine.metadata, engine.maxUploadBytes))
    (hturns : Trace.Every (step options) PublishesInTurn (starting engine) labels)
    (hrun : Trace.run (step options) (starting engine) labels = some final)
    (hsettled : ∀ who, (final.calls who).Settled) : Persisted options final := by
  obtain ⟨hrecorded, hallowed⟩ := recorded_of_seedUploadLimit hceiling hconfigured hstart
  have hkept := hturns.run_invariant (fun h hguard hstep => Kept.step h hguard hstep)
    (kept_starting hrecorded hallowed) hrun
  obtain ⟨limit, hrecorded, hallowed, rfl | ⟨who, hwho⟩⟩ := hkept.recorded
  · intro restarted hrestarted
    rw [Allowed, ← hrestarted] at hallowed
    exact ⟨_, seedUploadLimit_of_recorded hrecorded hallowed⟩
  · have hidle := hsettled who
    cases hcall : final.calls who with
    | written bytes =>
        rw [hcall] at hidle
        exact hidle.elim
    | _ =>
        rw [hcall] at hwho
        cases hwho

end Runs

/-! ### Fixed runs -/

section Fixed

def configured : EngineOptions where
  maxUploadBytes := 50
  maxUploadCeilingBytes := 1000

/-- An engine that has started on an empty directory. -/
def opened : StorageEngine where
  metadata := putInstanceSettings {} { maxUploadBytes := 50 }
  maxUploadBytes := 50

/-- Two calls that both read before either writes, the first of them to write named. -/
def bothCalled (who : Bool) : List (Label Bool) :=
  [.call false 100, .call true 200, .step false, .step true, .step who, .step !who]

def after (labels : List (Label Bool)) : State Bool :=
  (Trace.run (step configured) (starting opened) labels).getD (starting opened)

def inTurn : List (Label Bool) := bothCalled false ++ [.step false, .step true]

theorem persisted_of_publishesInTurn_inTurn : Persisted configured (after inTurn) := by
  have hruns : (Trace.run (step configured) (starting opened) inTurn).isSome := by
    decide +kernel
  obtain ⟨final, hfinal⟩ := Option.isSome_iff_exists.mp hruns
  have hafter : after inTurn = final := by rw [after, hfinal]; rfl
  have hsettled : ∀ who, ((after inTurn).calls who).Settled := by
    intro who
    cases who with
    | false => exact trivial
    | true => exact trivial
  rw [hafter] at hsettled ⊢
  exact persisted_of_publishesInTurn (by decide) (by decide)
    (by decide +kernel : StorageEngine.seedUploadLimit configured {} = _)
    (by decide +kernel) hfinal hsettled

/-- The second call writes last and publishes first. -/
def crossed : List (Label Bool) := bothCalled false ++ [.step true, .step false]

/-- Both calls succeed, the limit in force is the first one's, and a restart loads
the second one's. -/
theorem crossed_not_persisted :
    (∀ who, ∃ bytes, (after crossed).calls who = .returned bytes (.ok ())) ∧
      (after crossed).shared.maxUploadBytes = 100 ∧ Recorded (after crossed).rows 200 ∧
      ¬ Persisted configured (after crossed) := by
  have hrecorded : Recorded (after crossed).rows 200 := by decide +kernel
  refine ⟨fun who => ?_, by decide +kernel, hrecorded, fun h => ?_⟩
  · cases who with
    | false => exact ⟨100, rfl⟩
    | true => exact ⟨200, rfl⟩
  · obtain ⟨metadata, hloaded⟩ := h configured rfl
    have hallowed : Allowed configured 200 := ⟨by decide, by decide⟩
    rw [seedUploadLimit_of_recorded hrecorded hallowed] at hloaded
    exact absurd (Prod.mk.inj (Except.ok.inj hloaded)).2 (by decide +kernel)

end Fixed

end MonoBucket.UploadLimit

/-
The breaker in front of the shared tier

Every call that reaches the shared tier goes through the breaker twice: it asks
for admission, and it records how the shared tier answered. Anything may happen in
between, so a call may record its failure while the breaker is tripped although it
was admitted before that: it then counts as a failed probe.
-/

import MonoBucket.Lib.Trace

namespace MonoBucket.FallbackCache

/-- `FallbackCache::Options` as the breaker reads them, the cooldowns in milliseconds. -/
structure Options where
  failureThreshold : UInt32 := 3
  initialCooldown : Int := 500
  maxCooldown : Int := 30000

/-- What is read and written under the mutex; `openUntil` is a time in nanoseconds. -/
structure Breaker where
  consecutiveFailures : UInt32 := 0
  probeInFlight : Bool := false
  cooldown : Int
  openUntil : Int := 0

namespace Breaker

variable (options : Options) (now : Int) (breaker : Breaker)

def tripped : Bool := options.failureThreshold ≤ breaker.consecutiveFailures

def allowShared : Breaker × Bool :=
  if breaker.consecutiveFailures < options.failureThreshold then (breaker, true)
  else if now < breaker.openUntil then (breaker, false)
  else if breaker.probeInFlight then (breaker, false)
  else ({ breaker with probeInFlight := true }, true)

def recordSuccess : Breaker :=
  { breaker with
    consecutiveFailures := 0
    probeInFlight := false
    cooldown := options.initialCooldown }

def recordFailure : Breaker :=
  let failures := breaker.consecutiveFailures + 1
  if failures < options.failureThreshold then
    { breaker with consecutiveFailures := failures, probeInFlight := false }
  else
    let cooldown :=
      if breaker.consecutiveFailures < options.failureThreshold then options.initialCooldown
      else min (breaker.cooldown * 2) options.maxCooldown
    { consecutiveFailures := failures
      probeInFlight := false
      cooldown := cooldown
      openUntil := now + cooldown * 1000000 }

end Breaker

/-! ### Callers over one breaker -/

/-- A caller of the shared tier: the trip during which it was admitted, if the breaker
was tripped then, and how the shared tier has answered. -/
inductive Call
  | outside
  | inFlight (trip : Option Nat) (answer : Option Bool)
  deriving DecidableEq

structure Shared where
  breaker : Breaker
  /-- The steady clock. -/
  now : Int := 0
  /-- How often the breaker has tripped. -/
  trips : Nat := 0

abbrev State (ι : Type) := Pool ι Shared Call

inductive Label (ι : Type)
  | enter (caller : ι)
  | answer (caller : ι) (ok : Bool)
  | record (caller : ι)
  | tick (elapsed : Nat)

def start (ι : Type) (options : Options) : State ι where
  shared := { breaker := { cooldown := options.initialCooldown } }
  calls := fun _ => .outside

section Step

variable {ι : Type} [DecidableEq ι] (options : Options)

def step (state : State ι) : Label ι → Option (State ι)
  | .enter caller =>
    let shared := state.shared
    match state.calls caller with
    | .outside =>
      let (breaker, admitted) := shared.breaker.allowShared options shared.now
      some (state.move caller { shared with breaker := breaker }
        (if admitted then
          .inFlight (if shared.breaker.tripped options then some shared.trips else none) none
        else .outside))
    | .inFlight .. => none
  | .answer caller ok =>
    match state.calls caller with
    | .inFlight trip none => some (state.move caller state.shared (.inFlight trip (some ok)))
    | _ => none
  | .record caller =>
    let shared := state.shared
    match state.calls caller with
    | .inFlight _ (some true) =>
      some (state.move caller { shared with breaker := shared.breaker.recordSuccess options } .outside)
    | .inFlight _ (some false) =>
      let breaker := shared.breaker.recordFailure options shared.now
      some (state.move caller
        { shared with
          breaker := breaker
          trips :=
            if breaker.tripped options && !shared.breaker.tripped options then shared.trips + 1
            else shared.trips }
        .outside)
    | _ => none
  | .tick elapsed =>
    some ⟨{ state.shared with now := state.shared.now + elapsed }, state.calls⟩

/-- A call in flight that was admitted after the breaker tripped as it is tripped now. -/
def Probing (state : State ι) (caller : ι) : Prop :=
  ∃ answer, state.calls caller = .inFlight (some state.shared.trips) answer

/-- A failure that is recorded while the breaker is tripped leaves it tripped, and it is
that of a probe, or it finds the cooldown at its end and no probe in flight. -/
def Orderly (state : State ι) : Label ι → Prop
  | .record caller =>
    match state.calls caller with
    | .inFlight trip (some false) =>
      state.shared.breaker.tripped options = true →
        options.failureThreshold ≤ state.shared.breaker.consecutiveFailures + 1 ∧
          (trip = some state.shared.trips ∨
            min (state.shared.breaker.cooldown * 2) options.maxCooldown = state.shared.breaker.cooldown ∧
              ∀ other, ¬ Probing state other)
    | _ => True
  | _ => True

instance decidableProbing (state : State ι) (caller : ι) : Decidable (Probing state caller) :=
  inferInstanceAs (Decidable (∃ answer, state.calls caller = .inFlight (some state.shared.trips) answer))

instance decidableOrderly [Fintype ι] (state : State ι) :
    ∀ label : Label ι, Decidable (Orderly options state label)
  | .record caller =>
    match hcall : state.calls caller with
    | .inFlight trip (some false) =>
      decidable_of_iff
        (state.shared.breaker.tripped options = true →
          options.failureThreshold ≤ state.shared.breaker.consecutiveFailures + 1 ∧
            (trip = some state.shared.trips ∨
              min (state.shared.breaker.cooldown * 2) options.maxCooldown =
                state.shared.breaker.cooldown ∧ ∀ other, ¬ Probing state other))
        (by rw [Orderly, hcall])
    | .inFlight _ none => isTrue (by rw [Orderly, hcall]; trivial)
    | .inFlight _ (some true) => isTrue (by rw [Orderly, hcall]; trivial)
    | .outside => isTrue (by rw [Orderly, hcall]; trivial)
  | .enter _ | .answer .. | .tick _ => isTrue trivial

/-- While the breaker is tripped one probe at most is in flight, the cooldown keeps to
its maximum, and once it is over a call is let through if none is in flight. -/
structure Sound (state : State ι) : Prop where
  single : state.shared.breaker.tripped options = true → ∀ first second,
    Probing state first → Probing state second → first = second
  capped : state.shared.breaker.cooldown ≤ options.maxCooldown
  admits : (∀ caller, state.calls caller = .outside) →
    state.shared.breaker.openUntil ≤ state.shared.now →
      (state.shared.breaker.allowShared options state.shared.now).2 = true

/-- What a step may do to the breaker: the cooldown is doubled, up to its maximum, by the
failure of a probe only, and set back by a success only; and only a success closes. -/
structure SoundStep (state : State ι) (label : Label ι) (next : State ι) : Prop where
  cooldown : next.shared.breaker.cooldown = state.shared.breaker.cooldown ∨
    (∃ caller trip, label = .record caller ∧ state.calls caller = .inFlight trip (some true) ∧
      next.shared.breaker.cooldown = options.initialCooldown) ∨
    ∃ caller, label = .record caller ∧ state.shared.breaker.tripped options = true ∧
      state.calls caller = .inFlight (some state.shared.trips) (some false) ∧
      next.shared.breaker.cooldown = min (state.shared.breaker.cooldown * 2) options.maxCooldown
  closes : state.shared.breaker.tripped options = true → next.shared.breaker.tripped options = false →
    ∃ caller trip, label = .record caller ∧ state.calls caller = .inFlight trip (some true)

/-! ### What a step does -/

namespace Breaker

variable {options} {now : Int} {breaker : Breaker}

theorem tripped_iff : breaker.tripped options = true ↔
    options.failureThreshold ≤ breaker.consecutiveFailures := decide_eq_true_iff

theorem tripped_eq_false_iff : breaker.tripped options = false ↔
    breaker.consecutiveFailures < options.failureThreshold := by
  rw [tripped, decide_eq_false_iff_not, UInt32.not_le]

/-- The ways admission goes: closed, refused, or on as the probe. -/
theorem allowShared_cases (options : Options) (now : Int) (breaker : Breaker) :
    breaker.tripped options = false ∧ breaker.allowShared options now = (breaker, true) ∨
      breaker.allowShared options now = (breaker, false) ∨
      breaker.tripped options = true ∧ breaker.probeInFlight = false ∧
        breaker.allowShared options now = ({ breaker with probeInFlight := true }, true) := by
  rw [allowShared]
  split_ifs with hclosed hwaiting hprobing
  · exact .inl ⟨tripped_eq_false_iff.mpr hclosed, rfl⟩
  · exact .inr (.inl rfl)
  · exact .inr (.inl rfl)
  · exact .inr (.inr ⟨tripped_iff.mpr (UInt32.not_lt.mp hclosed), Bool.not_eq_true _ ▸ hprobing, rfl⟩)

theorem probeInFlight_recordFailure : (breaker.recordFailure options now).probeInFlight = false := by
  rw [recordFailure]
  dsimp only
  split <;> rfl

theorem consecutiveFailures_recordFailure (now : Int) :
    (breaker.recordFailure options now).consecutiveFailures = breaker.consecutiveFailures + 1 := by
  rw [recordFailure]
  dsimp only
  split <;> rfl

/-- A failure that leaves the breaker tripped has doubled the cooldown, or begun with
the initial one if it was this failure that tripped it. -/
theorem cooldown_recordFailure_of_tripped
    (htripped : (breaker.recordFailure options now).tripped options = true) :
    (breaker.recordFailure options now).cooldown =
      if breaker.tripped options then min (breaker.cooldown * 2) options.maxCooldown
      else options.initialCooldown := by
  rw [tripped_iff, consecutiveFailures_recordFailure, ← UInt32.not_lt] at htripped
  rw [recordFailure]
  dsimp only
  rw [if_neg htripped]
  cases hwas : breaker.tripped options with
  | true =>
      rw [tripped_iff, ← UInt32.not_lt] at hwas
      rw [if_neg hwas, if_pos rfl]
  | false =>
      rw [tripped_eq_false_iff] at hwas
      rw [if_pos hwas, if_neg Bool.false_ne_true]

theorem cooldown_recordFailure_of_closed
    (hclosed : (breaker.recordFailure options now).tripped options = false) :
    (breaker.recordFailure options now).cooldown = breaker.cooldown := by
  rw [tripped_eq_false_iff, consecutiveFailures_recordFailure] at hclosed
  rw [recordFailure]
  dsimp only
  rw [if_pos hclosed]

end Breaker

/-- The steps, one by one, with what each needs and what it leaves. -/
inductive Move (state : State ι) : Label ι → State ι → Prop
  | pass {caller : ι} (houtside : state.calls caller = .outside)
      (hclosed : state.shared.breaker.tripped options = false) :
      Move state (.enter caller) (state.move caller state.shared (.inFlight none none))
  | bypass {caller : ι} (houtside : state.calls caller = .outside) :
      Move state (.enter caller) (state.move caller state.shared .outside)
  | probe {caller : ι} (houtside : state.calls caller = .outside)
      (htripped : state.shared.breaker.tripped options = true)
      (hfree : state.shared.breaker.probeInFlight = false) :
      Move state (.enter caller)
        (state.move caller
          { state.shared with breaker := { state.shared.breaker with probeInFlight := true } }
          (.inFlight (some state.shared.trips) none))
  | answer {caller : ι} {ok : Bool} {trip : Option Nat}
      (hasked : state.calls caller = .inFlight trip none) :
      Move state (.answer caller ok) (state.move caller state.shared (.inFlight trip (some ok)))
  | succeed {caller : ι} {trip : Option Nat} (hok : state.calls caller = .inFlight trip (some true)) :
      Move state (.record caller)
        (state.move caller
          { state.shared with breaker := state.shared.breaker.recordSuccess options } .outside)
  | fail {caller : ι} {trip : Option Nat} (hfailed : state.calls caller = .inFlight trip (some false)) :
      Move state (.record caller)
        (state.move caller
          { state.shared with
            breaker := state.shared.breaker.recordFailure options state.shared.now
            trips :=
              if (state.shared.breaker.recordFailure options state.shared.now).tripped options &&
                !state.shared.breaker.tripped options then state.shared.trips + 1
              else state.shared.trips }
          .outside)
  | tick {elapsed : Nat} :
      Move state (.tick elapsed) ⟨{ state.shared with now := state.shared.now + elapsed }, state.calls⟩

variable {options} {state next : State ι} {label : Label ι}

theorem move_of_step (h : step options state label = some next) : Move options state label next := by
  cases label with
  | enter caller =>
      rw [step] at h
      dsimp only at h
      split at h
      · rename_i houtside
        obtain rfl := Option.some.inj h
        obtain ⟨hclosed, hadmits⟩ | hrefuses | ⟨htripped, hfree, hadmits⟩ :=
          Breaker.allowShared_cases options state.shared.now state.shared.breaker
        · rw [hadmits, hclosed]
          exact .pass houtside hclosed
        · rw [hrefuses]
          exact .bypass houtside
        · rw [hadmits, htripped]
          exact .probe houtside htripped hfree
      · cases h
  | answer caller ok =>
      rw [step] at h
      split at h
      · rename_i hasked
        obtain rfl := Option.some.inj h
        exact .answer hasked
      · cases h
  | record caller =>
      rw [step] at h
      dsimp only at h
      split at h
      · rename_i hok
        obtain rfl := Option.some.inj h
        exact .succeed hok
      · rename_i hfailed
        obtain rfl := Option.some.inj h
        exact .fail hfailed
      · cases h
  | tick elapsed =>
      obtain rfl := Option.some.inj h
      exact .tick

omit [DecidableEq ι] in
theorem Orderly.of_failed {caller : ι} {trip : Option Nat} (h : Orderly options state (.record caller))
    (hfailed : state.calls caller = .inFlight trip (some false))
    (htripped : state.shared.breaker.tripped options = true) :
    options.failureThreshold ≤ state.shared.breaker.consecutiveFailures + 1 ∧
      (trip = some state.shared.trips ∨
        min (state.shared.breaker.cooldown * 2) options.maxCooldown = state.shared.breaker.cooldown ∧
          ∀ other, ¬ Probing state other) := by
  rw [Orderly, hfailed] at h
  exact h htripped

/-! ### What carries it -/

/-- Behind every probe stands the flag, no call in flight is from a later trip, and a
breaker that is closed is back at its initial cooldown. -/
structure Kept (options : Options) (state : State ι) : Prop where
  capped : state.shared.breaker.cooldown ≤ options.maxCooldown
  rested : state.shared.breaker.tripped options = false →
    state.shared.breaker.cooldown = options.initialCooldown
  numbered : ∀ caller trip answer, state.calls caller = .inFlight (some trip) answer →
    trip ≤ state.shared.trips
  /-- A threshold of zero is a breaker that is tripped from the start. -/
  born : options.failureThreshold = 0 → ∀ caller trip answer,
    state.calls caller = .inFlight trip answer → trip = some state.shared.trips
  flagged : state.shared.breaker.tripped options = true → ∀ caller, Probing state caller →
    state.shared.breaker.probeInFlight = true
  single : state.shared.breaker.tripped options = true → ∀ first second,
    Probing state first → Probing state second → first = second
  carried : state.shared.breaker.probeInFlight = true → ∃ caller, state.calls caller ≠ .outside

theorem tripped_of_zero {breaker : Breaker} (hzero : options.failureThreshold = 0) :
    breaker.tripped options = true := by
  rw [Breaker.tripped_iff, hzero]
  exact UInt32.zero_le

omit [DecidableEq ι] in
theorem Kept.start (hoptions : options.initialCooldown ≤ options.maxCooldown) :
    Kept options (start ι options) where
  capped := hoptions
  rested _ := rfl
  numbered caller trip answer h := by cases h
  born _ caller trip answer h := by cases h
  flagged _ caller h := by
    obtain ⟨answer, h⟩ := h
    cases h
  single _ first second h := by
    obtain ⟨answer, h⟩ := h
    cases h
  carried h := by cases h

/-- A caller that has moved is where it moved to; every other is where it was. -/
theorem calls_move {caller other : ι} {shared : Shared} {call found : Call}
    (h : (state.move caller shared call).calls other = found) :
    other = caller ∧ call = found ∨ other ≠ caller ∧ state.calls other = found := by
  by_cases hsame : other = caller
  · subst hsame
    rw [Pool.move_calls_self] at h
    exact .inl ⟨rfl, h⟩
  · rw [Pool.move_calls_of_ne _ _ _ hsame] at h
    exact .inr ⟨hsame, h⟩

/-- Who probes after a caller has moved, the trips being what they were. -/
theorem probing_move {caller other : ι} {shared : Shared} {call : Call}
    (htrips : shared.trips = state.shared.trips) (h : Probing (state.move caller shared call) other) :
    other = caller ∧ (∃ answer, call = .inFlight (some state.shared.trips) answer) ∨
      other ≠ caller ∧ Probing state other := by
  obtain ⟨answer, hcalls⟩ := h
  rw [Pool.move_shared, htrips] at hcalls
  obtain ⟨hsame, hcall⟩ | ⟨hother, hcall⟩ := calls_move hcalls
  · exact .inl ⟨hsame, answer, hcall⟩
  · exact .inr ⟨hother, answer, hcall⟩

namespace Kept

/-- A caller that comes in outside of any probe, or moves on within its call, changes
nothing for the others. -/
theorem of_moved (h : Kept options state) {caller : ι} {call : Call}
    (hcall : ∀ trip answer, call = .inFlight trip answer →
      trip = none ∧ state.shared.breaker.tripped options = false ∨
        ∃ before, state.calls caller = .inFlight trip before)
    (hleaves : call = .outside → state.calls caller = .outside) :
    Kept options (state.move caller state.shared call) where
  capped := h.capped
  rested := h.rested
  numbered other trip answer hother := by
    obtain ⟨rfl, rfl⟩ | ⟨-, hold⟩ := calls_move hother
    · obtain ⟨hnone, -⟩ | ⟨before, hbefore⟩ := hcall _ _ rfl
      · cases hnone
      · exact h.numbered _ _ _ hbefore
    · exact h.numbered _ _ _ hold
  born hzero other trip answer hother := by
    obtain ⟨rfl, rfl⟩ | ⟨-, hold⟩ := calls_move hother
    · obtain ⟨-, hclosed⟩ | ⟨before, hbefore⟩ := hcall _ _ rfl
      · rw [tripped_of_zero hzero] at hclosed
        cases hclosed
      · exact h.born hzero _ _ _ hbefore
    · exact h.born hzero _ _ _ hold
  flagged htripped other hother := by
    obtain ⟨rfl, answer, rfl⟩ | ⟨-, hold⟩ := probing_move rfl hother
    · obtain ⟨hnone, -⟩ | ⟨before, hbefore⟩ := hcall _ _ rfl
      · cases hnone
      · exact h.flagged htripped _ ⟨before, hbefore⟩
    · exact h.flagged htripped _ hold
  single htripped first second hfirst hsecond := by
    have hwas : ∀ other, Probing (state.move caller state.shared call) other → Probing state other := by
      intro other hother
      obtain ⟨rfl, answer, rfl⟩ | ⟨-, hold⟩ := probing_move rfl hother
      · obtain ⟨hnone, -⟩ | ⟨before, hbefore⟩ := hcall _ _ rfl
        · cases hnone
        · exact ⟨before, hbefore⟩
      · exact hold
    exact h.single htripped _ _ (hwas first hfirst) (hwas second hsecond)
  carried hflag := by
    obtain ⟨other, hother⟩ := h.carried hflag
    refine ⟨other, fun hgone => hother ?_⟩
    obtain ⟨rfl, houtside⟩ | ⟨-, hold⟩ := calls_move hgone
    · exact hleaves houtside
    · exact hold

/-- The probe sets the flag. -/
theorem of_probe (h : Kept options state) {caller : ι}
    (htripped : state.shared.breaker.tripped options = true)
    (hfree : state.shared.breaker.probeInFlight = false) :
    Kept options
      (state.move caller
        { state.shared with breaker := { state.shared.breaker with probeInFlight := true } }
        (.inFlight (some state.shared.trips) none)) where
  capped := h.capped
  rested := h.rested
  numbered other trip answer hother := by
    obtain ⟨-, hcall⟩ | ⟨-, hold⟩ := calls_move hother
    · obtain ⟨htrip, -⟩ := Call.inFlight.inj hcall
      exact (Option.some.inj htrip).ge
    · exact h.numbered _ _ _ hold
  born hzero other trip answer hother := by
    obtain ⟨-, hcall⟩ | ⟨-, hold⟩ := calls_move hother
    · exact (Call.inFlight.inj hcall).1.symm
    · exact h.born hzero _ _ _ hold
  flagged _ _ _ := rfl
  single _ first second hfirst hsecond := by
    have hnone : ∀ other, ¬ Probing state other := by
      intro other hother
      rw [h.flagged htripped other hother] at hfree
      cases hfree
    obtain ⟨hfirst, -⟩ | ⟨-, hold⟩ := probing_move rfl hfirst
    · obtain ⟨hsecond, -⟩ | ⟨-, hold⟩ := probing_move rfl hsecond
      · exact hfirst.trans hsecond.symm
      · exact absurd hold (hnone second)
    · exact absurd hold (hnone first)
  carried _ := ⟨caller, by simp⟩

/-- A call that has been recorded leaves no probe behind. -/
theorem of_recorded (h : Kept options state) {caller : ι} {shared : Shared}
    (hcapped : shared.breaker.cooldown ≤ options.maxCooldown)
    (hrested : shared.breaker.tripped options = false →
      shared.breaker.cooldown = options.initialCooldown)
    (hflag : shared.breaker.probeInFlight = false) (htrips : state.shared.trips ≤ shared.trips)
    (hborn : options.failureThreshold = 0 → shared.trips = state.shared.trips)
    (halone : shared.breaker.tripped options = true → shared.trips = state.shared.trips →
      ∀ other, Probing state other → other = caller) :
    Kept options (state.move caller shared .outside) := by
  have hcalls : ∀ other trip answer,
      (state.move caller shared .outside).calls other = .inFlight trip answer →
        other ≠ caller ∧ state.calls other = .inFlight trip answer := by
    intro other trip answer hother
    obtain ⟨-, hcall⟩ | hold := calls_move hother
    · cases hcall
    · exact hold
  have hnone : shared.breaker.tripped options = true →
      ∀ other, ¬ Probing (state.move caller shared .outside) other := by
    rintro htripped other ⟨answer, hother⟩
    obtain ⟨hne, hold⟩ := hcalls _ _ _ hother
    have hsame : shared.trips = state.shared.trips := (h.numbered _ _ _ hold).antisymm htrips
    rw [Pool.move_shared, hsame] at hold
    exact hne (halone htripped hsame other ⟨answer, hold⟩)
  exact {
    capped := hcapped
    rested := hrested
    numbered := fun other trip answer hother =>
      (h.numbered _ _ _ (hcalls _ _ _ hother).2).trans htrips
    born := fun hzero other trip answer hother => by
      rw [Pool.move_shared, hborn hzero]
      exact h.born hzero _ _ _ (hcalls _ _ _ hother).2
    flagged := fun htripped other hother => absurd hother (hnone htripped other)
    single := fun htripped first second hfirst => absurd hfirst (hnone htripped first)
    carried := fun hset => by
      rw [Pool.move_shared, hflag] at hset
      cases hset }

theorem of_move (h : Kept options state) (hoptions : options.initialCooldown ≤ options.maxCooldown)
    (horderly : Orderly options state label) (hmove : Move options state label next) :
    Kept options next := by
  cases hmove with
  | pass houtside hclosed =>
      refine h.of_moved (fun trip answer hcall => ?_) fun hcall => by cases hcall
      exact .inl ⟨(Call.inFlight.inj hcall).1.symm, hclosed⟩
  | bypass houtside => exact h.of_moved (fun trip answer hcall => by cases hcall) fun _ => houtside
  | probe houtside htripped hfree => exact h.of_probe htripped hfree
  | answer hasked =>
      refine h.of_moved (fun trip answer hcall => ?_) fun hcall => by cases hcall
      obtain ⟨rfl, -⟩ := Call.inFlight.inj hcall
      exact .inr ⟨none, hasked⟩
  | @succeed caller trip hok =>
      refine h.of_recorded hoptions (fun _ => rfl) rfl le_rfl (fun _ => rfl) ?_
      intro htripped hsame other hother
      have hzero : options.failureThreshold = 0 :=
        UInt32.le_antisymm (Breaker.tripped_iff.mp htripped) UInt32.zero_le
      have hprobe := h.born hzero _ _ _ hok
      subst hprobe
      exact h.single (tripped_of_zero hzero) _ _ hother ⟨_, hok⟩
  | @fail caller trip hfailed =>
      have hstays := horderly.of_failed hfailed
      refine h.of_recorded ?_ ?_ Breaker.probeInFlight_recordFailure ?_ ?_ ?_
      · cases hafter : (state.shared.breaker.recordFailure options state.shared.now).tripped options with
        | false =>
            rw [Breaker.cooldown_recordFailure_of_closed hafter]
            exact h.capped
        | true =>
            rw [Breaker.cooldown_recordFailure_of_tripped hafter]
            split_ifs
            · exact min_le_right _ _
            · exact hoptions
      · intro hafter
        rw [Breaker.cooldown_recordFailure_of_closed hafter]
        refine h.rested (Bool.eq_false_iff.mpr fun htripped => ?_)
        have hstill := (hstays htripped).1
        rw [← Breaker.consecutiveFailures_recordFailure state.shared.now,
          ← Breaker.tripped_iff, hafter] at hstill
        cases hstill
      · dsimp only
        split_ifs
        · exact Nat.le_succ _
        · exact le_rfl
      · intro hzero
        dsimp only
        rw [tripped_of_zero hzero, tripped_of_zero hzero]
        rfl
      · intro hafter hsame other hother
        dsimp only at hafter hsame
        have htripped : state.shared.breaker.tripped options = true := by
          by_contra hclosed
          rw [hafter, Bool.not_eq_true] at *
          rw [hclosed] at hsame
          exact absurd hsame (Nat.succ_ne_self _)
        obtain rfl | ⟨-, hnone⟩ := (hstays htripped).2
        · exact h.single htripped _ _ hother ⟨_, hfailed⟩
        · exact absurd hother (hnone other)
  | tick =>
      exact ⟨h.capped, h.rested, h.numbered, h.born, h.flagged, h.single, h.carried⟩

omit [DecidableEq ι] in
theorem sound (h : Kept options state) : Sound options state where
  single := h.single
  capped := h.capped
  admits houtside hover := by
    have hfree : state.shared.breaker.probeInFlight = false := by
      refine Bool.eq_false_iff.mpr fun hflag => ?_
      obtain ⟨caller, hcaller⟩ := h.carried hflag
      exact hcaller (houtside caller)
    rw [Breaker.allowShared, hfree, if_neg (not_lt.mpr hover), if_neg Bool.false_ne_true]
    split_ifs <;> rfl

theorem soundStep (h : Kept options state) (horderly : Orderly options state label)
    (hmove : Move options state label next) : SoundStep options state label next where
  cooldown := by
    cases hmove with
    | succeed hok => exact .inr (.inl ⟨_, _, rfl, hok, rfl⟩)
    | @fail caller trip hfailed =>
        cases hafter : (state.shared.breaker.recordFailure options state.shared.now).tripped options with
        | false => exact .inl (Breaker.cooldown_recordFailure_of_closed hafter)
        | true =>
            have hcooldown := Breaker.cooldown_recordFailure_of_tripped hafter
            cases hwas : state.shared.breaker.tripped options with
            | false =>
                rw [hwas] at hcooldown
                exact .inl (hcooldown.trans (h.rested hwas).symm)
            | true =>
                rw [hwas] at hcooldown
                obtain rfl | ⟨hmaximal, -⟩ := (horderly.of_failed hfailed hwas).2
                · exact .inr (.inr ⟨caller, rfl, rfl, hfailed, hcooldown⟩)
                · exact .inl (hcooldown.trans hmaximal)
    | _ => exact .inl rfl
  closes htripped hclosed := by
    cases hmove with
    | succeed hok => exact ⟨_, _, rfl, hok⟩
    | fail hfailed =>
        have hstill := (horderly.of_failed hfailed htripped).1
        rw [← Breaker.consecutiveFailures_recordFailure state.shared.now,
          ← Breaker.tripped_iff] at hstill
        rw [Pool.move_shared, hstill] at hclosed
        cases hclosed
    | pass | bypass | answer | tick | probe =>
        exact absurd (htripped.symm.trans hclosed) (by decide)

end Kept

/-- The breaker admits one probe at a time, in every run in which no failure of a call
from before the trip gets in between. -/
theorem sound_of_orderly {labels : List (Label ι)} {final : State ι}
    (hoptions : options.initialCooldown ≤ options.maxCooldown)
    (horderly : Trace.Every (step options) (Orderly options) (start ι options) labels)
    (hrun : Trace.run (step options) (start ι options) labels = some final) :
    Sound options final ∧
      Trace.Every (step options)
        (fun state label => ∀ next, step options state label = some next →
          SoundStep options state label next)
        (start ι options) labels := by
  have hstep : ∀ {state : State ι} {label : Label ι} {next : State ι}, Kept options state →
      Orderly options state label → step options state label = some next → Kept options next :=
    fun hkept horderly hstep => hkept.of_move hoptions horderly (move_of_step hstep)
  refine ⟨(horderly.run_invariant hstep (Kept.start hoptions) hrun).sound, ?_⟩
  refine horderly.imp hstep (fun hkept horderly next hnext => ?_) (Kept.start hoptions)
  exact hkept.soundStep horderly (move_of_step hnext)

/-- A breaker that trips at the first failure: the probe fails, the next one succeeds. -/
def probed : List (Label (Fin 2)) :=
  [.enter 0, .enter 1, .answer 1 true, .record 1, .answer 0 false, .record 0, .tick 500000000,
    .enter 1, .enter 0, .answer 1 false, .record 1, .tick 1000000000, .enter 0, .answer 0 true,
    .record 0]

theorem sound_probed :
    ∃ final, Trace.run (step { failureThreshold := 1 }) (start (Fin 2) { failureThreshold := 1 }) probed =
      some final ∧ Sound { failureThreshold := 1 } final :=
  ⟨_, rfl, (sound_of_orderly (by decide)
    (show Trace.Every (step { failureThreshold := 1 }) (Orderly { failureThreshold := 1 })
      (start (Fin 2) { failureThreshold := 1 }) probed by decide +kernel) rfl).1⟩

/-- One caller is admitted and is slow. The other one fails three times, waits and probes.
The slow one's failure takes the flag away, and it is admitted as the second probe. -/
def overtaken : List (Label (Fin 2)) :=
  [.enter 0, .enter 1, .answer 1 false, .record 1, .enter 1, .answer 1 false, .record 1,
    .enter 1, .answer 1 false, .record 1, .tick 500000000, .enter 1, .answer 0 false, .record 0,
    .tick 1000000000, .enter 0]

theorem unsound_overtaken :
    ∃ final, Trace.run (step {}) (start (Fin 2) {}) overtaken = some final ∧ ¬ Sound {} final := by
  refine ⟨_, rfl, fun h => ?_⟩
  exact absurd (h.single (by decide) 0 1 ⟨none, by decide⟩ ⟨none, by decide⟩) (by decide)

end Step

end MonoBucket.FallbackCache

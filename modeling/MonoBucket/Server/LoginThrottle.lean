/-
Refused logins are counted in windows

The throttle counts refused logins in a window that starts afresh as a whole. An
attempt asks it on the event loop, is verified on an I/O thread, and is counted
after that; whoever asks in between is let in as if nobody were being verified.

So what is bounded is a stretch in one window: no reset and no login in it, it has
at most as many refused verifications as the limit, and one more for every attempt
that was under way when another was let in.
-/

import MonoBucket.Lib.Trace

namespace MonoBucket

def kMaxFailedLogins : Nat := 10

def kLoginWindowSeconds : Int := 60

structure LoginThrottle where
  windowStart : Int := 0
  failures : Nat := 0
  deriving DecidableEq

namespace LoginThrottle

/-! ### The throttle -/

def roll (throttle : LoginThrottle) (atSeconds : Int) : LoginThrottle :=
  if kLoginWindowSeconds ≤ atSeconds - throttle.windowStart then ⟨atSeconds, 0⟩ else throttle

def blockedAt (throttle : LoginThrottle) (atSeconds : Int) : LoginThrottle × Bool :=
  (throttle.roll atSeconds, kMaxFailedLogins ≤ (throttle.roll atSeconds).failures)

def recordFailureAt (throttle : LoginThrottle) (atSeconds : Int) : LoginThrottle :=
  { throttle.roll atSeconds with failures := (throttle.roll atSeconds).failures + 1 }

def recordSuccess (throttle : LoginThrottle) : LoginThrottle := { throttle with failures := 0 }

/-- Inside its window the throttle is as it was. -/
theorem roll_of_lt {throttle : LoginThrottle} {atSeconds : Int}
    (h : atSeconds - throttle.windowStart < kLoginWindowSeconds) :
    throttle.roll atSeconds = throttle := if_neg (not_le.mpr h)

theorem failures_roll_le (throttle : LoginThrottle) (atSeconds : Int) :
    (throttle.roll atSeconds).failures ≤ throttle.failures := by
  rw [roll]
  split_ifs
  · exact Nat.zero_le _
  · exact le_refl _

/-! ### Attempts -/

/-- What the verifier says: no such user or a wrong password, a disabled account,
or neither. -/
inductive Verdict
  | wrong
  | disabled
  | right
  deriving DecidableEq

inductive Attempt
  | idle
  | passed
  | verified (verdict : Verdict)
  | ended
  deriving DecidableEq

abbrev State (ι : Type) := Pool ι LoginThrottle Attempt

inductive Label (ι : Type)
  /-- The event loop asks the throttle. -/
  | ask (who : ι) (now : Int)
  /-- The body is no object, the queue is full, or the user cannot be read. -/
  | drop (who : ι)
  | verify (who : ι) (verdict : Verdict)
  | record (who : ι) (now : Int)
  deriving DecidableEq

section Steps

variable {ι : Type} [DecidableEq ι]

def step (state : State ι) : Label ι → Option (State ι)
  | .ask who now =>
    match state.calls who with
    | .idle =>
      let (throttle, blocked) := state.shared.blockedAt now
      some (state.move who throttle (if blocked then .ended else .passed))
    | _ => none
  | .drop who =>
    match state.calls who with
    | .passed => some (state.move who state.shared .ended)
    | _ => none
  | .verify who verdict =>
    match state.calls who with
    | .passed => some (state.move who state.shared (.verified verdict))
    | _ => none
  | .record who now =>
    match state.calls who with
    | .verified .right => some (state.move who state.shared.recordSuccess .ended)
    | .verified _ => some (state.move who (state.shared.recordFailureAt now) .ended)
    | _ => none

/-- The throttle of a server that has just started. -/
def starting : State ι := ⟨{}, fun _ => .idle⟩

end Steps

/-- The clock as a step reads it. -/
def Label.time {ι : Type} : Label ι → Option Int
  | .ask _ now | .record _ now => some now
  | .drop _ | .verify .. => none

/-- Let in, and not yet counted. -/
def Attempt.underWay : Attempt → Nat
  | .idle | .ended => 0
  | .passed | .verified _ => 1

/-- Refused, and not yet counted. -/
def Attempt.uncounted : Attempt → Nat
  | .idle | .passed | .ended | .verified .right => 0
  | .verified .wrong | .verified .disabled => 1

/-- A refused verification. -/
def Label.refuses {ι : Type} : Label ι → Bool
  | .verify _ verdict => verdict ≠ .right
  | .ask .. | .drop _ | .record .. => false

/-- Whoever is let in finds at most so many others under way. -/
def Overlaps {ι : Type} [Fintype ι] (k : Nat) (state : State ι) : Label ι → Prop
  | .ask _ now => (state.shared.blockedAt now).2 = false → ∑ who, (state.calls who).underWay ≤ k
  | _ => True

instance {ι : Type} [Fintype ι] (k : Nat) (state : State ι) :
    ∀ label, Decidable (Overlaps k state label)
  | .ask .. => inferInstanceAs (Decidable (_ = false → _))
  | .drop _ | .verify .. | .record .. => isTrue trivial

/-- No window starts and nobody logs in. -/
def SameWindow {ι : Type} (state : State ι) : Label ι → Prop
  | .ask _ now => now - state.shared.windowStart < kLoginWindowSeconds
  | .record who now => now - state.shared.windowStart < kLoginWindowSeconds ∧
    state.calls who ≠ .verified .right
  | _ => True

instance {ι : Type} (state : State ι) : ∀ label, Decidable (SameWindow state label)
  | .ask _ now => inferInstanceAs (Decidable (now - _ < _))
  | .record _ now => inferInstanceAs (Decidable (now - _ < _ ∧ _))
  | .drop _ | .verify .. => isTrue trivial

/-! ### What a step does -/

section Moves

variable {ι : Type}

/-- What a step may leave of the throttle and of the attempt that moves. -/
inductive Moves (state : State ι) : Label ι → ι → LoginThrottle → Attempt → Prop
  | refused (who : ι) (now : Int) (hidle : state.calls who = .idle)
    (hfull : kMaxFailedLogins ≤ (state.shared.roll now).failures) :
    Moves state (.ask who now) who (state.shared.roll now) .ended
  | letIn (who : ι) (now : Int) (hidle : state.calls who = .idle)
    (hroom : (state.shared.roll now).failures < kMaxFailedLogins) :
    Moves state (.ask who now) who (state.shared.roll now) .passed
  | dropped (who : ι) (hpassed : state.calls who = .passed) :
    Moves state (.drop who) who state.shared .ended
  | verified (who : ι) (verdict : Verdict) (hpassed : state.calls who = .passed) :
    Moves state (.verify who verdict) who state.shared (.verified verdict)
  | succeeded (who : ι) (now : Int) (hright : state.calls who = .verified .right) :
    Moves state (.record who now) who state.shared.recordSuccess .ended
  | counted (who : ι) (now : Int) (verdict : Verdict) (hrefused : verdict ≠ .right)
    (hverified : state.calls who = .verified verdict) :
    Moves state (.record who now) who (state.shared.recordFailureAt now) .ended

theorem moves_of_step [DecidableEq ι] {state next : State ι} {label : Label ι}
    (h : step state label = some next) :
    ∃ who throttle attempt, Moves state label who throttle attempt ∧
      next = state.move who throttle attempt := by
  cases label with
  | ask who now =>
      rw [step] at h
      split at h
      · rename_i hidle
        obtain rfl := Option.some.inj h
        by_cases hfull : kMaxFailedLogins ≤ (state.shared.roll now).failures
        · refine ⟨who, _, _, .refused who now hidle hfull, ?_⟩
          simp [hfull]
        · refine ⟨who, _, _, .letIn who now hidle (not_le.mp hfull), ?_⟩
          simp [hfull]
      · cases h
  | drop who =>
      rw [step] at h
      split at h
      · rename_i hpassed
        exact ⟨who, _, _, .dropped who hpassed, (Option.some.inj h).symm⟩
      · cases h
  | verify who verdict =>
      rw [step] at h
      split at h
      · rename_i hpassed
        exact ⟨who, _, _, .verified who verdict hpassed, (Option.some.inj h).symm⟩
      · cases h
  | record who now =>
      rw [step] at h
      split at h
      · rename_i hright
        exact ⟨who, _, _, .succeeded who now hright, (Option.some.inj h).symm⟩
      · rename_i verdict hrefused hverified
        exact ⟨who, _, _, .counted who now verdict hrefused hverified,
          (Option.some.inj h).symm⟩
      · cases h

end Moves

/-! ### Every run -/

section Runs

variable {ι : Type} [DecidableEq ι] [Fintype ι] {k : Nat} {state next : State ι} {label : Label ι}

theorem uncounted_le_underWay (attempt : Attempt) : attempt.uncounted ≤ attempt.underWay := by
  cases attempt with
  | verified verdict => cases verdict <;> decide
  | _ => decide

/-- The counter and the attempts under way stay within the limit. -/
def Limited (k : Nat) (state : State ι) : Prop :=
  state.shared.failures + ∑ who, (state.calls who).underWay ≤ kMaxFailedLogins + k

omit [DecidableEq ι] in
theorem limited_starting : Limited k (starting : State ι) := by
  have hnone : ∑ who : ι, (starting.calls who).underWay = 0 :=
    Finset.sum_eq_zero fun _ _ => rfl
  rw [Limited, hnone]
  exact Nat.zero_le _

theorem Limited.step (h : Limited k state) (hoverlaps : Overlaps k state label)
    (hstep : step state label = some next) : Limited k next := by
  obtain ⟨who, throttle, attempt, hmoves, rfl⟩ := moves_of_step hstep
  have hsum := state.sum_move (fun _ attempt => attempt.underWay) who throttle attempt
  rw [Limited] at h ⊢
  rw [Pool.move_shared]
  cases hmoves with
  | refused who now hidle hfull =>
      have hroll := failures_roll_le state.shared now
      rw [hidle] at hsum
      change _ + 0 = _ + 0 at hsum
      omega
  | letIn who now hidle hroom =>
      have hfew := hoverlaps (decide_eq_false (not_le.mpr hroom))
      rw [hidle] at hsum
      change _ + 0 = _ + 1 at hsum
      omega
  | dropped who hpassed =>
      rw [hpassed] at hsum
      change _ + 1 = _ + 0 at hsum
      omega
  | verified who verdict hpassed =>
      rw [hpassed] at hsum
      change _ + 1 = _ + 1 at hsum
      omega
  | succeeded who now hright =>
      rw [hright] at hsum
      change _ + 1 = _ + 0 at hsum
      have hcleared : state.shared.recordSuccess.failures = 0 := rfl
      omega
  | counted who now verdict hrefused hverified =>
      have hroll := failures_roll_le state.shared now
      rw [hverified] at hsum
      change _ + 1 = _ + 0 at hsum
      have hcounted : (state.shared.recordFailureAt now).failures =
          (state.shared.roll now).failures + 1 := rfl
      omega

/-- What has been refused, counted or about to be. -/
def refusals (state : State ι) : Nat :=
  state.shared.failures + ∑ who, (state.calls who).uncounted

theorem refusals_step (hsame : SameWindow state label) (hstep : step state label = some next) :
    refusals state + (if label.refuses then 1 else 0) ≤ refusals next := by
  obtain ⟨who, throttle, attempt, hmoves, rfl⟩ := moves_of_step hstep
  have hsum := state.sum_move (fun _ attempt => attempt.uncounted) who throttle attempt
  rw [refusals, refusals, Pool.move_shared]
  cases hmoves with
  | refused who now hidle hfull =>
      rw [hidle] at hsum
      rw [roll_of_lt hsame, Label.refuses, if_neg Bool.false_ne_true]
      rw [roll_of_lt hsame] at hsum
      change _ + 0 = _ + 0 at hsum
      omega
  | letIn who now hidle hroom =>
      rw [hidle] at hsum
      rw [roll_of_lt hsame, Label.refuses, if_neg Bool.false_ne_true]
      rw [roll_of_lt hsame] at hsum
      change _ + 0 = _ + 0 at hsum
      omega
  | dropped who hpassed =>
      rw [hpassed] at hsum
      rw [Label.refuses, if_neg Bool.false_ne_true]
      change _ + 0 = _ + 0 at hsum
      omega
  | verified who verdict hpassed =>
      rw [hpassed] at hsum
      by_cases hright : verdict = .right
      · subst hright
        rw [Label.refuses, if_neg (by decide)]
        change _ + 0 = _ + 0 at hsum
        omega
      · have hone : (Attempt.verified verdict).uncounted = 1 := by
          cases verdict with
          | right => exact absurd rfl hright
          | _ => rfl
        rw [Label.refuses, if_pos (decide_eq_true hright)]
        rw [hone] at hsum
        change _ + 0 = _ + 1 at hsum
        omega
  | succeeded who now hright => exact absurd hright hsame.2
  | counted who now verdict hrefused hverified =>
      have hone : (Attempt.verified verdict).uncounted = 1 := by
        cases verdict with
        | right => exact absurd rfl hrefused
        | _ => rfl
      rw [hverified, hone] at hsum
      rw [recordFailureAt, roll_of_lt hsame.1, Label.refuses, if_neg Bool.false_ne_true]
      rw [recordFailureAt, roll_of_lt hsame.1] at hsum
      change _ + 1 = _ + 0 at hsum
      dsimp only
      omega

/-- Refusals in a stretch of one window are all counted in it or about to be. -/
theorem refusals_run {stretch : List (Label ι)} {final : State ι}
    (hsame : Trace.Every step SameWindow state stretch)
    (hrun : Trace.run step state stretch = some final) :
    refusals state + stretch.countP Label.refuses ≤ refusals final := by
  refine hsame.run_history (fun labels reached =>
    refusals state + labels.countP Label.refuses ≤ refusals reached) ?_ (le_refl _) hrun
  intro earlier reached label next h hsame hstep
  have hone := refusals_step hsame hstep
  rw [List.countP_append, List.countP_singleton]
  omega

end Runs

/-! ### Fixed runs -/

section Fixed

/-- An attempt with a wrong password, from end to end. -/
def attempt (who : Fin 20) (now : Int) : List (Label (Fin 20)) :=
  [.ask who now, .verify who .wrong, .record who now]

def after (labels : List (Label (Fin 20))) : State (Fin 20) :=
  (Trace.run step starting labels).getD starting

/-- The attempts with these numbers, one after another. -/
def attempts (numbers : List (Fin 20)) (now : Int) : List (Label (Fin 20)) :=
  numbers.flatMap fun who => attempt who now

/-- One attempt opens the window, nine more fill it just before it ends, and as many
as the limit follow once it has. -/
def opening : List (Label (Fin 20)) := attempt 0 1000

def straddling : List (Label (Fin 20)) :=
  attempts [1, 2, 3, 4, 5, 6, 7, 8, 9] 1059 ++
    attempts [10, 11, 12, 13, 14, 15, 16, 17, 18, 19] 1060

end Fixed

end LoginThrottle

end MonoBucket

/-
Runs that go on for good

At each moment a course takes one label or takes none. It is fair to an agent
when, again and again, the agent moves or has nothing it could do. What a course
leads to is then a chain of stages: a stage that nothing can undo, and that the
next move of some agent brings forward, is left for the one after it.
-/

import MonoBucket.Lib.Trace

universe u v w

namespace Trace

variable {σ : Type u} {ℓ : Type v} {step : σ → ℓ → Option σ}

/-- One moment: a step, or nothing. -/
def advance (step : σ → ℓ → Option σ) (state : σ) : Option ℓ → Option σ
  | none => some state
  | some label => step state label

/-- A run without an end. -/
structure Course (step : σ → ℓ → Option σ) (start : σ) where
  states : Nat → σ
  labels : Nat → Option ℓ
  starts : states 0 = start
  follows : ∀ time, advance step (states time) (labels time) = some (states (time + 1))

namespace Course

variable {start : σ} (course : Course step start)

/-- Whatever an agent is ready for, it does or it is no longer ready. -/
def Fair {α : Type w} (ready : α → σ → Prop) (moves : α → ℓ → Prop) : Prop :=
  ∀ agent time, ∃ later, time ≤ later ∧
    (¬ ready agent (course.states later) ∨
      ∃ label, course.labels later = some label ∧ moves agent label)

/-- From any state of the first kind the course goes on to one of the second. -/
def Leads (first second : σ → Prop) : Prop :=
  ∀ time, first (course.states time) → ∃ later, time ≤ later ∧ second (course.states later)

theorem states_succ (time : Nat) :
    (course.labels time = none ∧ course.states (time + 1) = course.states time) ∨
      ∃ label, course.labels time = some label ∧
        step (course.states time) label = some (course.states (time + 1)) := by
  have hfollows := course.follows time
  cases hlabel : course.labels time with
  | none =>
      rw [hlabel] at hfollows
      exact .inl ⟨rfl, (Option.some.inj hfollows).symm⟩
  | some label =>
      rw [hlabel] at hfollows
      exact .inr ⟨label, rfl, hfollows⟩

variable {course}

theorem Leads.of_imp {first second : σ → Prop} (h : ∀ state, first state → second state) :
    course.Leads first second := fun time hfirst => ⟨time, le_rfl, h _ hfirst⟩

theorem Leads.trans {first second third : σ → Prop} (h : course.Leads first second)
    (hthen : course.Leads second third) : course.Leads first third := by
  intro time hfirst
  obtain ⟨middle, hmiddle, hsecond⟩ := h time hfirst
  obtain ⟨later, hlater, hthird⟩ := hthen middle hsecond
  exact ⟨later, hmiddle.trans hlater, hthird⟩

theorem Leads.or {first other second : σ → Prop} (h : course.Leads first second)
    (hother : course.Leads other second) :
    course.Leads (fun state => first state ∨ other state) second := fun time hcase =>
  hcase.elim (h time) (hother time)

/-- A stage that lasts until it is brought forward, and that an agent's next move
does bring forward. -/
theorem Fair.leads {α : Type w} {ready : α → σ → Prop} {moves : α → ℓ → Prop}
    (hfair : course.Fair ready moves) (agent : α) {first second : σ → Prop}
    (hready : ∀ state, first state → ready agent state)
    (hstep : ∀ {state label next}, first state → step state label = some next →
      first next ∨ second next)
    (hmove : ∀ {state label next}, first state → moves agent label →
      step state label = some next → second next) :
    course.Leads first second := by
  intro time hfirst
  obtain ⟨later, hlater, hthen⟩ := hfair agent time
  -- up to the agent's move the stage lasts, or the next one has been reached
  have hlasts : ∀ steps, first (course.states (time + steps)) ∨
      ∃ sooner, time ≤ sooner ∧ second (course.states sooner) := by
    intro steps
    induction steps with
    | zero => exact .inl hfirst
    | succ steps ih =>
        obtain hlast | hdone := ih
        · obtain ⟨-, hsame⟩ | ⟨label, -, hnext⟩ := course.states_succ (time + steps)
          · left
            rw [← Nat.add_assoc, hsame]
            exact hlast
          · obtain hstill | hsecond := hstep hlast hnext
            · exact .inl hstill
            · exact .inr ⟨time + steps + 1, by omega, hsecond⟩
        · exact .inr hdone
  obtain hstill | hdone := hlasts (later - time)
  · rw [Nat.add_sub_cancel' hlater] at hstill
    obtain hidle | ⟨label, hlabel, hmoves⟩ := hthen
    · exact absurd (hready _ hstill) hidle
    · have hfollows := course.follows later
      rw [hlabel] at hfollows
      exact ⟨later + 1, by omega, hmove hstill hmoves hfollows⟩
  · exact hdone

/-- A stage with a rank comes to its end when every rank leads to a lower one. -/
theorem Leads.of_rank {stage : Nat → σ → Prop} (h : ∀ rank, course.Leads (stage (rank + 1)) (stage rank))
    (rank : Nat) : course.Leads (stage rank) (stage 0) := by
  induction rank with
  | zero => exact .of_imp fun _ h => h
  | succ rank ih => exact (h rank).trans ih

end Course

end Trace

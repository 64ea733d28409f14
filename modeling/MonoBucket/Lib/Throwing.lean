/-
Computations that change a state and may throw

A computation that throws keeps what it has changed until then. One is untraced
if it has then changed nothing: it looks before it changes, and what comes after
its first change cannot throw.
-/

import Mathlib.Tactic

universe u

/-- A state that stays as it is when the computation throws. -/
abbrev Throwing (σ ε : Type u) (α : Type u) := ExceptT ε (StateM σ) α

namespace Throwing

variable {σ ε α β : Type u}

/-- The answer and the state it leaves. -/
def outcome (computation : Throwing σ ε α) (before : σ) : Except ε α × σ := computation.run.run before

/-- The computation on a part of a larger state, with its errors renamed. -/
def zoom {τ δ : Type u} (get : τ → σ) (set : σ → τ → τ) (rename : ε → δ)
    (computation : Throwing σ ε α) : Throwing τ δ α :=
  ExceptT.mk fun whole : τ =>
    match computation.outcome (get whole) with
    | (.ok value, part) => (.ok value, set part whole)
    | (.error error, part) => (.error (rename error), set part whole)

/-- It changes nothing. -/
def Inspects (computation : Throwing σ ε α) : Prop :=
  ∀ before, (computation.outcome before).2 = before

/-- It does not throw. -/
def Returns (computation : Throwing σ ε α) : Prop :=
  ∀ before, ∃ value after, computation.outcome before = (.ok value, after)

/-- If it throws it has changed nothing. -/
def Untraced (computation : Throwing σ ε α) : Prop :=
  ∀ before error after, computation.outcome before = (.error error, after) → after = before

variable {first : Throwing σ ε α} {next : α → Throwing σ ε β} {before after : σ}

/-- A sequence answers what its second half does, or what its first half threw. -/
theorem outcome_bind (first : Throwing σ ε α) (next : α → Throwing σ ε β) (before : σ) :
    (first >>= next).outcome before =
      match first.outcome before with
      | (.ok value, middle) => (next value).outcome middle
      | (.error error, middle) => (.error error, middle) := by
  rw [outcome, outcome, ExceptT.run_bind, StateT.run_bind]
  cases first.run.run before with
  | mk answer middle => cases answer <;> rfl

theorem outcome_zoom {τ δ : Type u} (get : τ → σ) (set : σ → τ → τ) (rename : ε → δ)
    (computation : Throwing σ ε α) (whole : τ) :
    (computation.zoom get set rename).outcome whole =
      match computation.outcome (get whole) with
      | (.ok value, part) => (.ok value, set part whole)
      | (.error error, part) => (.error (rename error), set part whole) := rfl

theorem Inspects.untraced (h : first.Inspects) : first.Untraced := by
  intro before error after hthrown
  have hsame := h before
  rwa [hthrown] at hsame

theorem Returns.untraced (h : first.Returns) : first.Untraced := by
  intro before error after hthrown
  obtain ⟨value, other, hvalue⟩ := h before
  rw [hvalue] at hthrown
  cases (Prod.mk.inj hthrown).1

/-- A sequence that throws did so in one of its halves. -/
theorem thrown_of_bind {error : ε} (h : (first >>= next).outcome before = (.error error, after)) :
    first.outcome before = (.error error, after) ∨
      ∃ value middle, first.outcome before = (.ok value, middle) ∧
        (next value).outcome middle = (.error error, after) := by
  rw [outcome_bind] at h
  split at h
  · rename_i value middle hfirst
    exact Or.inr ⟨value, middle, hfirst, h⟩
  · rename_i thrown middle hfirst
    obtain ⟨hthrown, rfl⟩ := Prod.mk.inj h
    obtain rfl := Except.error.inj hthrown
    exact Or.inl hfirst

/-- It looks before it changes anything. -/
theorem Untraced.bind_inspects (hfirst : first.Inspects) (hnext : ∀ value, (next value).Untraced) :
    (first >>= next).Untraced := by
  intro before error after hthrown
  rcases thrown_of_bind hthrown with hthrown | ⟨value, middle, hvalue, hthrown⟩
  · exact hfirst.untraced before error after hthrown
  · have hsame := hfirst before
    rw [hvalue] at hsame
    exact (hnext value middle error after hthrown).trans hsame

/-- What comes after its first change cannot throw. -/
theorem Untraced.bind_returns (hfirst : first.Untraced) (hnext : ∀ value, (next value).Returns) :
    (first >>= next).Untraced := by
  intro before error after hthrown
  rcases thrown_of_bind hthrown with hthrown | ⟨value, middle, -, hthrown⟩
  · exact hfirst before error after hthrown
  · obtain ⟨answer, other, hanswer⟩ := hnext value middle
    rw [hanswer] at hthrown
    cases (Prod.mk.inj hthrown).1

theorem Returns.bind (hfirst : first.Returns) (hnext : ∀ value, (next value).Returns) :
    (first >>= next).Returns := by
  intro before
  obtain ⟨value, middle, hvalue⟩ := hfirst before
  rw [outcome_bind, hvalue]
  exact hnext value middle

theorem Inspects.bind (hfirst : first.Inspects) (hnext : ∀ value, (next value).Inspects) :
    (first >>= next).Inspects := by
  intro before
  have hsame := hfirst before
  rw [outcome_bind]
  split
  · rename_i value middle hvalue
    rw [hvalue] at hsame
    exact (hnext value middle).trans hsame
  · rename_i error middle herror
    rwa [herror] at hsame

theorem inspects_pure (value : α) : (pure value : Throwing σ ε α).Inspects := fun _ => rfl

theorem inspects_throw (error : ε) : (throw error : Throwing σ ε α).Inspects := fun _ => rfl

theorem returns_pure (value : α) : (pure value : Throwing σ ε α).Returns := fun before => ⟨value, before, rfl⟩

end Throwing

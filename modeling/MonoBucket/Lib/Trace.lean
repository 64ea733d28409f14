/-
Runs of a labelled step function

A system is a partial step function on labels: a label that is not enabled in a
state has no successor. All nondeterminism, the choice of which caller moves
next included, is in the labels, so a run is a list of labels and evaluating
one is a fold.

Two rules carry every result about runs. An invariant that each step keeps
holds at the end of every run; and one that is kept only by the steps meeting a
guard holds at the end of every run whose steps all meet it. A prefix of a run
is a run, so "at the end of every run" is "in every state reached".
-/

import Mathlib.Tactic
import Mathlib.Algebra.BigOperators.Group.Finset.Basic
import Mathlib.Data.Fintype.Basic

universe u v

namespace Trace

-- The parties of short runs are numbered.
instance neZeroTwo : NeZero (2 : Nat) := ⟨by decide⟩

instance neZeroFour : NeZero (4 : Nat) := ⟨by decide⟩

variable {σ : Type u} {ℓ : Type v}

/-- Follow the labels from a state; nothing when one of them is not enabled. -/
def run (step : σ → ℓ → Option σ) : σ → List ℓ → Option σ
  | state, [] => some state
  | state, label :: rest => (step state label).bind fun next => run step next rest

/-- Every step the labels take from a state meets the guard. -/
def Every (step : σ → ℓ → Option σ) (guard : σ → ℓ → Prop) : σ → List ℓ → Prop
  | _, [] => True
  | state, label :: rest =>
    guard state label ∧ ∀ next, step state label = some next → Every step guard next rest

variable {step : σ → ℓ → Option σ}

/-- On a fixed run a decidable guard is checked step by step. -/
instance decidableEvery {guard : σ → ℓ → Prop} [∀ state label, Decidable (guard state label)] :
    ∀ (state : σ) (labels : List ℓ), Decidable (Every step guard state labels)
  | _, [] => isTrue trivial
  | state, label :: rest =>
    match hnext : step state label with
    | none =>
      decidable_of_iff (guard state label)
        ⟨fun h => ⟨h, fun next hsome => by rw [hnext] at hsome; cases hsome⟩, fun h => h.1⟩
    | some next =>
      have : Decidable (Every step guard next rest) := decidableEvery next rest
      decidable_of_iff (guard state label ∧ Every step guard next rest)
        ⟨fun h => ⟨h.1, fun other hsome => by rw [hnext] at hsome; cases hsome; exact h.2⟩,
          fun h => ⟨h.1, h.2 next hnext⟩⟩

@[simp]
theorem run_nil (state : σ) : run step state [] = some state := rfl

theorem run_cons (state : σ) (label : ℓ) (rest : List ℓ) :
    run step state (label :: rest) = (step state label).bind fun next => run step next rest := rfl

theorem run_cons_eq_some {state final : σ} {label : ℓ} {rest : List ℓ} :
    run step state (label :: rest) = some final ↔
      ∃ next, step state label = some next ∧ run step next rest = some final := by
  simp [run_cons, Option.bind_eq_some_iff]

theorem run_append (state : σ) (first second : List ℓ) :
    run step state (first ++ second) =
      (run step state first).bind fun next => run step next second := by
  induction first generalizing state with
  | nil => rfl
  | cons label rest ih =>
      cases h : step state label with
      | none => simp [run_cons, h]
      | some next => simp [run_cons, h, ih]

/-- A system that carries more along, what has happened so far for one, runs as
the system it watches. -/
theorem run_map {σ' : Type*} {watched : σ' → ℓ → Option σ'} {forget : σ' → σ}
    (h : ∀ state label, (watched state label).map forget = step (forget state) label)
    (state : σ') (labels : List ℓ) :
    (run watched state labels).map forget = run step (forget state) labels := by
  induction labels generalizing state with
  | nil => rfl
  | cons label rest ih =>
      rw [run_cons, run_cons, ← h state label]
      cases hnext : watched state label with
      | none => rfl
      | some next => exact ih next

/-- An invariant kept by every guarded step holds at the end of every run all of
whose steps meet the guard. -/
theorem Every.run_invariant {guard : σ → ℓ → Prop} {Inv : σ → Prop}
    (hstep : ∀ {state label next}, Inv state → guard state label →
      step state label = some next → Inv next)
    {start final : σ} {labels : List ℓ} (hevery : Every step guard start labels)
    (hstart : Inv start) (hrun : run step start labels = some final) : Inv final := by
  induction labels generalizing start with
  | nil =>
      cases hrun
      exact hstart
  | cons label rest ih =>
      obtain ⟨next, hnext, hrest⟩ := run_cons_eq_some.mp hrun
      exact ih (hevery.2 next hnext) (hstep hstart hevery.1 hnext) hrest

/-- What a guard says of a step under an invariant it keeps, it says all along. -/
theorem Every.imp {guard other : σ → ℓ → Prop} {Inv : σ → Prop}
    (hstep : ∀ {state label next}, Inv state → guard state label →
      step state label = some next → Inv next)
    (himp : ∀ {state label}, Inv state → guard state label → other state label)
    {start : σ} {labels : List ℓ} (hevery : Every step guard start labels) (hstart : Inv start) :
    Every step other start labels := by
  induction labels generalizing start with
  | nil => trivial
  | cons label rest ih =>
      refine ⟨himp hstart hevery.1, fun next hnext => ?_⟩
      exact ih (hevery.2 next hnext) (hstep hstart hevery.1 hnext)

/-- A state the labels lead through, the first and the last included. -/
def Through (step : σ → ℓ → Option σ) (start : σ) (labels : List ℓ) (state : σ) : Prop :=
  ∃ first second, labels = first ++ second ∧ run step start first = some state

theorem Through.last {start state : σ} {labels : List ℓ} (h : run step start labels = some state) :
    Through step start labels state :=
  ⟨labels, [], (List.append_nil labels).symm, h⟩

theorem Through.longer {start state : σ} {labels : List ℓ} (h : Through step start labels state)
    (more : List ℓ) : Through step start (labels ++ more) state := by
  obtain ⟨first, second, rfl, hrun⟩ := h
  exact ⟨first, second ++ more, List.append_assoc .., hrun⟩

/-- A guard met along a run is met along the rest of it. -/
theorem Every.rest {guard : σ → ℓ → Prop} {start middle : σ} {first second : List ℓ}
    (hevery : Every step guard start (first ++ second)) (hrun : run step start first = some middle) :
    Every step guard middle second := by
  induction first generalizing start with
  | nil =>
      cases hrun
      exact hevery
  | cons label rest ih =>
      obtain ⟨next, hnext, hrest⟩ := run_cons_eq_some.mp hrun
      exact ih (hevery.2 next hnext) hrest

theorem Every.front {guard : σ → ℓ → Prop} {start : σ} {first second : List ℓ}
    (hevery : Every step guard start (first ++ second)) : Every step guard start first := by
  induction first generalizing start with
  | nil => trivial
  | cons label rest ih => exact ⟨hevery.1, fun next hnext => ih (hevery.2 next hnext)⟩

/-- A guard on the labels alone is met from any state. -/
theorem every_of_forall_mem {guard : ℓ → Prop} {labels : List ℓ} (h : ∀ label ∈ labels, guard label)
    (start : σ) : Every step (fun _ label => guard label) start labels := by
  induction labels generalizing start with
  | nil => trivial
  | cons label rest ih =>
      exact ⟨h label List.mem_cons_self, fun next _ =>
        ih (fun other hother => h other (List.mem_cons_of_mem _ hother)) next⟩

theorem Every.and {guard other : σ → ℓ → Prop} {start : σ} {labels : List ℓ}
    (h : Every step guard start labels) (hother : Every step other start labels) :
    Every step (fun state label => guard state label ∧ other state label) start labels := by
  induction labels generalizing start with
  | nil => trivial
  | cons label rest ih =>
      exact ⟨⟨h.1, hother.1⟩, fun next hnext => ih (h.2 next hnext) (hother.2 next hnext)⟩

/-- An invariant of the states with the labels that led there. -/
theorem Every.run_history {guard : σ → ℓ → Prop} (Inv : List ℓ → σ → Prop)
    (hstep : ∀ {earlier state label next}, Inv earlier state → guard state label →
      step state label = some next → Inv (earlier ++ [label]) next)
    {start final : σ} {labels : List ℓ} (hevery : Every step guard start labels)
    (hstart : Inv [] start) (hrun : run step start labels = some final) : Inv labels final := by
  have hfrom : ∀ (labels earlier : List ℓ) (start : σ), Every step guard start labels →
      Inv earlier start → run step start labels = some final → Inv (earlier ++ labels) final := by
    intro labels
    induction labels with
    | nil =>
        intro earlier start _ hstart hrun
        cases hrun
        rw [List.append_nil]
        exact hstart
    | cons label rest ih =>
        intro earlier start hevery hstart hrun
        obtain ⟨next, hnext, hrest⟩ := run_cons_eq_some.mp hrun
        have hlast := ih (earlier ++ [label]) next (hevery.2 next hnext)
          (hstep hstart hevery.1 hnext) hrest
        rwa [List.append_assoc] at hlast
  exact hfrom labels [] start hevery hstart hrun

/-- An invariant kept by every step holds at the end of every run. -/
theorem run_invariant {Inv : σ → Prop}
    (hstep : ∀ {state label next}, Inv state → step state label = some next → Inv next)
    {start final : σ} {labels : List ℓ} (hstart : Inv start)
    (hrun : run step start labels = some final) : Inv final := by
  induction labels generalizing start with
  | nil =>
      cases hrun
      exact hstart
  | cons label rest ih =>
      obtain ⟨next, hnext, hrest⟩ := run_cons_eq_some.mp hrun
      exact ih (hstep hstart hnext) hrest

end Trace

/-- Concurrent callers over shared state: each caller's own control state beside
the state they all read and write. -/
structure Pool (ι : Type u) (σ : Type v) (γ : Type*) where
  /-- What every caller sees. -/
  shared : σ
  /-- Where each caller is. -/
  calls : ι → γ

namespace Pool

variable {ι : Type u} {σ : Type v} {γ : Type*} [DecidableEq ι]

/-- One caller moves, changing the shared state and its own control state. -/
def move (pool : Pool ι σ γ) (who : ι) (shared : σ) (call : γ) : Pool ι σ γ :=
  ⟨shared, Function.update pool.calls who call⟩

@[simp]
theorem move_shared (pool : Pool ι σ γ) (who : ι) (shared : σ) (call : γ) :
    (pool.move who shared call).shared = shared := rfl

@[simp]
theorem move_calls_self (pool : Pool ι σ γ) (who : ι) (shared : σ) (call : γ) :
    (pool.move who shared call).calls who = call := Function.update_self ..

theorem move_calls_of_ne (pool : Pool ι σ γ) {who other : ι} (shared : σ) (call : γ)
    (hne : other ≠ who) : (pool.move who shared call).calls other = pool.calls other :=
  Function.update_of_ne hne ..

/-- A statement about every caller after a move: the mover's new control state,
and every other caller where it was. -/
theorem forall_move {P : ι → γ → Prop} (pool : Pool ι σ γ) (who : ι) (shared : σ) (call : γ) :
    (∀ other, P other ((pool.move who shared call).calls other)) ↔
      P who call ∧ ∀ other, other ≠ who → P other (pool.calls other) := by
  constructor
  · intro h
    exact ⟨by simpa using h who, fun other hne => by
      simpa [pool.move_calls_of_ne shared call hne] using h other⟩
  · rintro ⟨hself, hothers⟩ other
    by_cases hother : other = who
    · subst hother
      simpa using hself
    · simpa [pool.move_calls_of_ne shared call hother] using hothers other hother

/-- A sum over every caller after a move changes by what the mover's control
state weighs. -/
theorem sum_move [Fintype ι] {M : Type*} [AddCommMonoid M] (weight : ι → γ → M)
    (pool : Pool ι σ γ) (who : ι) (shared : σ) (call : γ) :
    (∑ other, weight other ((pool.move who shared call).calls other)) +
        weight who (pool.calls who) =
      (∑ other, weight other (pool.calls other)) + weight who call := by
  have hrest : ∀ calls : ι → γ, ∑ other, weight other (calls other) =
      weight who (calls who) + ∑ other ∈ Finset.univ.erase who, weight other (calls other) :=
    fun calls => (Finset.add_sum_erase _ _ (Finset.mem_univ who)).symm
  have hsame : ∑ other ∈ Finset.univ.erase who, weight other ((pool.move who shared call).calls other) =
      ∑ other ∈ Finset.univ.erase who, weight other (pool.calls other) :=
    Finset.sum_congr rfl fun other hother => by
      rw [pool.move_calls_of_ne shared call (Finset.ne_of_mem_erase hother)]
  rw [hrest (pool.move who shared call).calls, hrest pool.calls, hsame, move_calls_self]
  abel

end Pool

/-
Computations whose writes land one at a time

A computation that reads a state, changes it by single writes and may fail is
the list of the writes it makes and how it ends. A process that dies between
two of its writes leaves the state after some front part of that list, which is
all an interruption is here.
-/

import Mathlib.Tactic

universe u

/-- How one write changes a state. -/
class Writes (ω : Type u) (σ : Type u) where
  apply : σ → ω → σ

/-- The writes made from a state, in order, and the outcome. -/
def Writing (σ ω ε α : Type u) := σ → List ω × Except ε α

namespace Writing

variable {σ ω ε α β : Type u} [Writes ω σ]

def applyAll (state : σ) (writes : List ω) : σ := writes.foldl Writes.apply state

@[simp]
theorem applyAll_nil (state : σ) : applyAll state ([] : List ω) = state := rfl

theorem applyAll_append (state : σ) (first second : List ω) :
    applyAll state (first ++ second) = applyAll (applyAll state first) second :=
  List.foldl_append

/-- What follows sees the writes made before it; a failure ends the computation
and takes nothing back. -/
def andThen (first : Writing σ ω ε α) (next : α → Writing σ ω ε β) : Writing σ ω ε β := fun state =>
  match first state with
  | (writes, .error error) => (writes, .error error)
  | (writes, .ok value) =>
    let rest := next value (applyAll state writes)
    (writes ++ rest.1, rest.2)

instance : Monad (Writing σ ω ε) where
  pure value := fun _ => ([], .ok value)
  bind := andThen

/-- Look at the state. -/
def read (look : σ → Except ε α) : Writing σ ω ε α := fun state => ([], look state)

/-- One write. -/
def write (change : ω) : Writing σ ω ε PUnit := fun _ => ([change], .ok ⟨⟩)

def fail (error : ε) : Writing σ ω ε α := fun _ => ([], .error error)

theorem pure_run (value : α) (state : σ) :
    (pure value : Writing σ ω ε α) state = ([], .ok value) := rfl

theorem bind_run {first : Writing σ ω ε α} {next : α → Writing σ ω ε β} {state : σ}
    {writes : List ω} {value : α} (h : first state = (writes, .ok value)) :
    (first >>= next) state =
      (writes ++ (next value (applyAll state writes)).1, (next value (applyAll state writes)).2) := by
  show andThen first next state = _
  rw [andThen, h]

/-- A look that succeeds writes nothing. -/
theorem read_bind_run {look : σ → Except ε α} {next : α → Writing σ ω ε β} {state : σ} {value : α}
    (h : look state = .ok value) : (read look >>= next) state = next value state := by
  have hread : (read look : Writing σ ω ε α) state = ([], .ok value) := by rw [read, h]
  rw [bind_run hread]
  rfl

theorem write_bind_run (change : ω) (next : PUnit → Writing σ ω ε β) (state : σ) :
    (write change >>= next) state =
      (change :: (next ⟨⟩ (Writes.apply state change)).1,
        (next ⟨⟩ (Writes.apply state change)).2) := by
  have hwrite : (write change : Writing σ ω ε PUnit) state = ([change], .ok ⟨⟩) := rfl
  rw [bind_run hwrite]
  rfl

/-- A loop whose every turn is one write makes these writes. -/
theorem forM_run {items : List α} {body : α → Writing σ ω ε PUnit} {change : α → ω}
    (h : ∀ item ∈ items, body item = write (change item)) (state : σ) :
    items.forM body state = (items.map change, .ok ⟨⟩) := by
  induction items generalizing state with
  | nil => rfl
  | cons item rest ih =>
      have hhead : body item = write (change item) := h item (List.mem_cons_self ..)
      have hrest := ih fun other hother => h other (List.mem_cons_of_mem _ hother)
      show (body item >>= fun _ => rest.forM body) state = _
      rw [hhead, write_bind_run, hrest]
      rfl

/-! ### Interruptions -/

/-- The state once every write has landed. -/
def finished (computation : Writing σ ω ε α) (state : σ) : σ :=
  applyAll state (computation state).1

/-- The state when the process dies after this many writes. -/
def interrupted (computation : Writing σ ω ε α) (state : σ) (cut : Nat) : σ :=
  applyAll state ((computation state).1.take cut)

@[simp]
theorem interrupted_zero (computation : Writing σ ω ε α) (state : σ) :
    interrupted computation state 0 = state := rfl

theorem interrupted_of_le {computation : Writing σ ω ε α} {state : σ} {cut : Nat}
    (h : (computation state).1.length ≤ cut) :
    interrupted computation state cut = finished computation state := by
  rw [interrupted, List.take_of_length_le h, finished]

/-- A computation that makes at most one write is interrupted before it or after it. -/
theorem interrupted_eq_or {computation : Writing σ ω ε α} {state : σ}
    (h : (computation state).1.length ≤ 1) (cut : Nat) :
    interrupted computation state cut = state ∨
      interrupted computation state cut = finished computation state := by
  rcases Nat.eq_zero_or_pos cut with rfl | hpos
  · exact Or.inl rfl
  · exact Or.inr (interrupted_of_le (h.trans hpos))

end Writing

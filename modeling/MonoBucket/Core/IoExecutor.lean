/-
The bounded thread pool

Callers post tasks and stop the pool, workers take tasks off the queue in turn.
What happens under the mutex is one step, and so are the wake-ups, a task coming
to its end and each join, in any order. A second `stop` finds the pool stopping
and returns at once, while the first one may still be waiting for the workers.
-/

import MonoBucket.Lib.Trace

namespace MonoBucket.IoExecutor

/-! ### The code -/

/-- Where a worker is in its loop. -/
inductive Worker
  | looping
  | asleep
  | running (task : Nat)
  | exited
  deriving DecidableEq

/-- A worker that is in no task. -/
def Worker.idle : Worker → Bool
  | .running _ => false
  | _ => true

/-- Where a caller is: nowhere, behind a post's critical section, behind a stop's,
joining, or back from a stop. -/
inductive Caller
  | outside
  | posted
  | announcing
  | joining (next : Nat)
  | stopped
  deriving DecidableEq

/-- A caller that is in no call. -/
def Caller.free : Caller → Bool
  | .outside | .stopped => true
  | _ => false

/-- The constructor starts at least one thread. -/
abbrev WorkerId (threads : Nat) := Fin (max threads 1)

/-- Tasks are numbered as they are posted. -/
structure State (ι : Type) (threads : Nat) where
  queue : List Nat := []
  stopping : Bool := false
  workers : WorkerId threads → Worker := fun _ => .looping
  callers : ι → Caller := fun _ => .outside
  posts : Nat := 0
  /-- Tasks for which `post` returned true, in order. -/
  accepted : List Nat := []
  /-- Tasks for which `post` returned false. -/
  refused : List Nat := []
  /-- Tasks as they are started. -/
  runs : List Nat := []
  /-- Tasks as they end, by returning or by throwing. -/
  finished : List Nat := []

inductive Label (ι : Type) (threads : Nat)
  | post (caller : ι)
  | notify (caller : ι) (woken : Option (WorkerId threads))
  | stop (caller : ι)
  | notifyAll (caller : ι)
  | join (caller : ι)
  | turn (worker : WorkerId threads)
  | wake (worker : WorkerId threads)
  | finish (worker : WorkerId threads) (threw : Bool)

section Step

variable {ι : Type} [DecidableEq ι] {threads : Nat}

namespace State

variable (state : State ι threads)

def setCaller (caller : ι) (phase : Caller) : State ι threads :=
  { state with callers := Function.update state.callers caller phase }

def setWorker (worker : WorkerId threads) (phase : Worker) : State ι threads :=
  { state with workers := Function.update state.workers worker phase }

/-- The critical section of `post`. -/
def post (queueLimit : Nat) (caller : ι) : State ι threads :=
  if state.stopping ∨ max queueLimit 1 ≤ state.queue.length then
    { state with posts := state.posts + 1, refused := state.refused ++ [state.posts] }.setCaller caller
      .outside
  else
    { state with
      posts := state.posts + 1
      queue := state.queue ++ [state.posts]
      accepted := state.accepted ++ [state.posts] }.setCaller caller .posted

/-- `available_.notify_one()`: it wakes one that sleeps, and nobody when nobody does. -/
def notify (caller : ι) : Option (WorkerId threads) → Option (State ι threads)
  | some worker =>
    if state.workers worker = .asleep then
      some ((state.setWorker worker .looping).setCaller caller .outside)
    else none
  | none =>
    if ∀ worker, state.workers worker ≠ .asleep then some (state.setCaller caller .outside) else none

/-- The critical section of `stop`. -/
def stop (caller : ι) : State ι threads :=
  if state.stopping then state.setCaller caller .stopped
  else { state with stopping := true }.setCaller caller .announcing

def notifyAll (caller : ι) : State ι threads :=
  { state with
    workers := fun worker : WorkerId threads =>
      if state.workers worker = Worker.asleep then Worker.looping
      else state.workers worker }.setCaller caller (.joining 0)

/-- A thread is joined once it has left its loop; behind the last one `stop` returns. -/
def join (caller : ι) (next : Nat) : Option (State ι threads) :=
  if hnext : next < max threads 1 then
    if state.workers ⟨next, hnext⟩ = .exited then some (state.setCaller caller (.joining (next + 1)))
    else none
  else some (state.setCaller caller .stopped)

/-- The critical section of the worker loop. -/
def turn (worker : WorkerId threads) : State ι threads :=
  match state.queue with
  | [] => state.setWorker worker (if state.stopping then .exited else .asleep)
  | task :: rest =>
    { state with queue := rest, runs := state.runs ++ [task] }.setWorker worker (.running task)

end State

def step (queueLimit : Nat) (state : State ι threads) : Label ι threads → Option (State ι threads)
  | .post caller =>
    if (state.callers caller).free then some (state.post queueLimit caller) else none
  | .notify caller woken =>
    if state.callers caller = .posted then state.notify caller woken else none
  | .stop caller => if (state.callers caller).free then some (state.stop caller) else none
  | .notifyAll caller =>
    if state.callers caller = .announcing then some (state.notifyAll caller) else none
  | .join caller =>
    match state.callers caller with
    | .joining next => state.join caller next
    | _ => none
  | .turn worker => if state.workers worker = .looping then some (state.turn worker) else none
  | .wake worker =>
    if state.workers worker = .asleep then some (state.setWorker worker .looping) else none
  | .finish worker _ =>
    match state.workers worker with
    | .running task =>
      some ({ state with finished := state.finished ++ [task] }.setWorker worker .looping)
    | _ => none

/-- A `stop` that finds the pool stopping finds no work left. -/
def StopsLast (state : State ι threads) : Label ι threads → Prop
  | .stop _ => state.stopping → state.queue = [] ∧ ∀ worker, (state.workers worker).idle
  | _ => True

instance decidableStopsLast (state : State ι threads) :
    ∀ label : Label ι threads, Decidable (StopsLast state label)
  | .stop _ =>
    inferInstanceAs
      (Decidable (state.stopping = true → state.queue = [] ∧ ∀ worker, (state.workers worker).idle = true))
  | .post _ | .notify .. | .notifyAll _ | .join _ | .turn _ | .wake _ | .finish .. =>
    inferInstanceAs (Decidable True)

/-! ### What a step does -/

/-- The steps, one by one, with what each needs and what it leaves. -/
inductive Move (queueLimit : Nat) (state : State ι threads) : Label ι threads → State ι threads → Prop
  | refuse {caller : ι} (hfree : (state.callers caller).free)
      (hfull : state.stopping ∨ max queueLimit 1 ≤ state.queue.length) :
      Move queueLimit state (.post caller)
        ({ state with posts := state.posts + 1, refused := state.refused ++ [state.posts] }.setCaller
          caller .outside)
  | accept {caller : ι} (hfree : (state.callers caller).free) (hopen : state.stopping = false)
      (hroom : state.queue.length < max queueLimit 1) :
      Move queueLimit state (.post caller)
        ({ state with
          posts := state.posts + 1
          queue := state.queue ++ [state.posts]
          accepted := state.accepted ++ [state.posts] }.setCaller caller .posted)
  | notifyOne {caller : ι} {worker : WorkerId threads} (hposted : state.callers caller = .posted)
      (hasleep : state.workers worker = .asleep) :
      Move queueLimit state (.notify caller (some worker))
        ((state.setWorker worker .looping).setCaller caller .outside)
  | notifyNone {caller : ι} (hposted : state.callers caller = .posted)
      (hawake : ∀ worker, state.workers worker ≠ .asleep) :
      Move queueLimit state (.notify caller none) (state.setCaller caller .outside)
  | stopAgain {caller : ι} (hfree : (state.callers caller).free) (hstopping : state.stopping = true) :
      Move queueLimit state (.stop caller) (state.setCaller caller .stopped)
  | stopFirst {caller : ι} (hfree : (state.callers caller).free) (hopen : state.stopping = false) :
      Move queueLimit state (.stop caller)
        ({ state with stopping := true }.setCaller caller .announcing)
  | notifyAll {caller : ι} (hannouncing : state.callers caller = .announcing) :
      Move queueLimit state (.notifyAll caller) (state.notifyAll caller)
  | joinNext {caller : ι} {next : Nat} (hjoining : state.callers caller = .joining next)
      (hnext : next < max threads 1) (hexited : state.workers ⟨next, hnext⟩ = .exited) :
      Move queueLimit state (.join caller) (state.setCaller caller (.joining (next + 1)))
  | joinLast {caller : ι} {next : Nat} (hjoining : state.callers caller = .joining next)
      (hlast : max threads 1 ≤ next) :
      Move queueLimit state (.join caller) (state.setCaller caller .stopped)
  | sleep {worker : WorkerId threads} (hlooping : state.workers worker = .looping)
      (hempty : state.queue = []) (hopen : state.stopping = false) :
      Move queueLimit state (.turn worker) (state.setWorker worker .asleep)
  | exit {worker : WorkerId threads} (hlooping : state.workers worker = .looping)
      (hempty : state.queue = []) (hstopping : state.stopping = true) :
      Move queueLimit state (.turn worker) (state.setWorker worker .exited)
  | take {worker : WorkerId threads} {task : Nat} {rest : List Nat}
      (hlooping : state.workers worker = .looping) (hqueue : state.queue = task :: rest) :
      Move queueLimit state (.turn worker)
        ({ state with queue := rest, runs := state.runs ++ [task] }.setWorker worker (.running task))
  | wake {worker : WorkerId threads} (hasleep : state.workers worker = .asleep) :
      Move queueLimit state (.wake worker) (state.setWorker worker .looping)
  | finish {worker : WorkerId threads} {threw : Bool} {task : Nat}
      (hrunning : state.workers worker = .running task) :
      Move queueLimit state (.finish worker threw)
        ({ state with finished := state.finished ++ [task] }.setWorker worker .looping)

theorem move_of_step {queueLimit : Nat} {state next : State ι threads} {label : Label ι threads}
    (h : step queueLimit state label = some next) : Move queueLimit state label next := by
  cases label with
  | post caller =>
      rw [step] at h
      split_ifs at h with hfree
      obtain rfl := Option.some.inj h
      rw [State.post]
      split_ifs with hfull
      · exact .refuse hfree hfull
      · obtain ⟨hopen, hroom⟩ := not_or.mp hfull
        exact .accept hfree (Bool.not_eq_true _ ▸ hopen) (not_le.mp hroom)
  | notify caller woken =>
      rw [step] at h
      split_ifs at h with hposted
      cases woken with
      | none =>
          rw [State.notify] at h
          split_ifs at h with hawake
          obtain rfl := Option.some.inj h
          exact .notifyNone hposted hawake
      | some worker =>
          rw [State.notify] at h
          split_ifs at h with hasleep
          obtain rfl := Option.some.inj h
          exact .notifyOne hposted hasleep
  | stop caller =>
      rw [step] at h
      split_ifs at h with hfree
      obtain rfl := Option.some.inj h
      rw [State.stop]
      split_ifs with hstopping
      · exact .stopAgain hfree hstopping
      · exact .stopFirst hfree (Bool.not_eq_true _ ▸ hstopping)
  | notifyAll caller =>
      rw [step] at h
      split_ifs at h with hannouncing
      obtain rfl := Option.some.inj h
      exact .notifyAll hannouncing
  | join caller =>
      rw [step] at h
      split at h
      · rename_i number hjoining
        rw [State.join] at h
        split_ifs at h with hnumber hexited
        · obtain rfl := Option.some.inj h
          exact .joinNext hjoining hnumber hexited
        · obtain rfl := Option.some.inj h
          exact .joinLast hjoining (not_lt.mp hnumber)
      · cases h
  | turn worker =>
      rw [step] at h
      split_ifs at h with hlooping
      obtain rfl := Option.some.inj h
      rw [State.turn]
      split
      · rename_i hempty
        split_ifs with hstopping
        · exact .exit hlooping hempty hstopping
        · exact .sleep hlooping hempty (Bool.not_eq_true _ ▸ hstopping)
      · rename_i task rest hqueue
        exact .take hlooping hqueue
  | wake worker =>
      rw [step] at h
      split_ifs at h with hasleep
      obtain rfl := Option.some.inj h
      exact .wake hasleep
  | finish worker threw =>
      rw [step] at h
      split at h
      · rename_i task hrunning
        obtain rfl := Option.some.inj h
        exact .finish hrunning
      · cases h

variable {queueLimit : Nat} {state next : State ι threads} {label : Label ι threads}

/-- An entry of an updated function is the new one or was there. -/
theorem update_eq {α β : Type} [DecidableEq α] {entries : α → β} {key other : α} {entry value : β}
    (h : Function.update entries key entry other = value) :
    other = key ∧ entry = value ∨ entries other = value := by
  by_cases hsame : other = key
  · subst hsame
    rw [Function.update_self] at h
    exact .inl ⟨rfl, h⟩
  · rw [Function.update_of_ne hsame] at h
    exact .inr h

theorem of_update {α β : Type} [DecidableEq α] {entries : α → β} {key other : α} {entry value : β}
    (h : Function.update entries key entry other = value) (hne : entry ≠ value) :
    entries other = value :=
  (update_eq h).resolve_left fun hnew => hne hnew.2

theorem update_of {α β : Type} [DecidableEq α] {entries : α → β} {key other : α} {entry value : β}
    (h : entries other = value) (hne : entries key ≠ value) :
    Function.update entries key entry other = value := by
  rwa [Function.update_of_ne]
  rintro rfl
  exact hne h

namespace Move

/-- A pool that is stopping stays so. -/
theorem stopping (hmove : Move queueLimit state label next) (h : state.stopping = true) :
    next.stopping = true := by
  cases hmove <;> first | exact h | rfl

/-- Nothing is accepted any more by then. -/
theorem accepted (hmove : Move queueLimit state label next) (h : state.stopping = true) :
    next.accepted = state.accepted := by
  cases hmove with
  | accept hfree hopen => rw [h] at hopen; cases hopen
  | _ => rfl

theorem queue_eq_nil (hmove : Move queueLimit state label next) (h : state.stopping = true)
    (hempty : state.queue = []) : next.queue = [] := by
  cases hmove with
  | accept hfree hopen => rw [h] at hopen; cases hopen
  | take hlooping hqueue => rw [hempty] at hqueue; cases hqueue
  | _ => exact hempty

/-- What has ended has ended. -/
theorem finished (hmove : Move queueLimit state label next) {task : Nat}
    (h : task ∈ state.finished) : task ∈ next.finished := by
  cases hmove with
  | finish hrunning => exact List.mem_append_left _ h
  | _ => exact h

/-- A thread that has left its loop is gone. -/
theorem exited (hmove : Move queueLimit state label next) {worker : WorkerId threads}
    (h : state.workers worker = .exited) : next.workers worker = .exited := by
  cases hmove with
  | notifyOne hposted hasleep => exact update_of h (by simp [hasleep])
  | notifyAll hannouncing => simp [State.notifyAll, State.setCaller, h]
  | sleep hlooping => exact update_of h (by simp [hlooping])
  | exit hlooping => exact update_of h (by simp [hlooping])
  | take hlooping => exact update_of h (by simp [hlooping])
  | wake hasleep => exact update_of h (by simp [hasleep])
  | finish hrunning => exact update_of h (by simp [hrunning])
  | _ => exact h

/-- A thread leaves its loop when the pool is stopping and nothing is queued. -/
theorem exited_or (hmove : Move queueLimit state label next) {worker : WorkerId threads}
    (h : next.workers worker = .exited) :
    state.workers worker = .exited ∨ state.stopping = true ∧ state.queue = [] := by
  cases hmove with
  | notifyOne hposted hasleep => exact .inl (of_update h (by simp))
  | notifyAll hannouncing =>
      dsimp only [State.notifyAll, State.setCaller] at h
      split_ifs at h
      exact .inl h
  | sleep hlooping => exact .inl (of_update h (by simp))
  | exit hlooping hempty hstopping => exact .inr ⟨hstopping, hempty⟩
  | take hlooping => exact .inl (of_update h (by simp))
  | wake hasleep => exact .inl (of_update h (by simp))
  | finish hrunning => exact .inl (of_update h (by simp))
  | _ => exact .inl h

theorem announcing_or (hmove : Move queueLimit state label next) {caller : ι}
    (h : next.callers caller = .announcing) :
    state.callers caller = .announcing ∨ next.stopping = true := by
  cases hmove with
  | stopFirst hfree hopen => exact .inr rfl
  | sleep | exit | take | wake | finish => exact .inl h
  | _ => exact .inl (of_update h (by simp))

/-- A caller joins the threads from the first one on, each once it has left its loop. -/
theorem joining_or (hmove : Move queueLimit state label next) {caller : ι} {count : Nat}
    (h : next.callers caller = .joining count) :
    state.callers caller = .joining count ∨ count = 0 ∧ state.callers caller = .announcing ∨
      ∃ joined, count = joined + 1 ∧ state.callers caller = .joining joined ∧
        ∀ hbound : joined < max threads 1, state.workers ⟨joined, hbound⟩ = .exited := by
  cases hmove with
  | notifyAll hannouncing =>
      obtain ⟨rfl, hcount⟩ | hold := update_eq h
      · exact .inr (.inl ⟨(Caller.joining.inj hcount).symm, hannouncing⟩)
      · exact .inl hold
  | @joinNext mover joined hjoining hbound hexited =>
      obtain ⟨rfl, hcount⟩ | hold := update_eq h
      · exact .inr (.inr ⟨joined, (Caller.joining.inj hcount).symm, hjoining, fun _ => hexited⟩)
      · exact .inl hold
  | sleep | exit | take | wake | finish => exact .inl h
  | _ => exact .inl (of_update h (by simp))

end Move

end Step

end MonoBucket.IoExecutor

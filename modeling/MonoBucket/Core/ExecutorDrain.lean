/-
What the thread pool makes of its tasks

Every task that was posted is counted once, wherever it is by now. Nothing that is
queued goes unnoticed: some worker is up, or some caller is on its way to wake one.
A `stop` that comes back from its joins has seen every worker leave, and a worker
leaves only a pool that is stopping and has nothing queued.
-/

import MonoBucket.Core.IoExecutor
import MonoBucket.Lib.Fairness

namespace MonoBucket.IoExecutor

section Step

variable {ι : Type} [DecidableEq ι] {threads : Nat}
variable {queueLimit : Nat} {state next : State ι threads} {label : Label ι threads}

/-! ### The accounts -/

namespace State

variable (state) in
/-- Some worker is running the task. -/
def Running (task : Nat) : Prop := ∃ worker, state.workers worker = .running task

variable (state) in
/-- Some worker is on its way to the queue, or will be once its task has ended. -/
def Busy : Prop := ∃ worker, state.workers worker = .looping ∨ ∃ task, state.workers worker = .running task

variable (state) in
/-- Some caller is on its way to wake a worker. -/
def Calling : Prop := ∃ caller, state.callers caller = .posted ∨ state.callers caller = .announcing

omit [DecidableEq ι] in
theorem running_setWorker {worker : WorkerId threads} {phase : Worker} {task : Nat} :
    (state.setWorker worker phase).Running task ↔
      phase = .running task ∨ ∃ other, other ≠ worker ∧ state.workers other = .running task := by
  constructor
  · rintro ⟨other, hother⟩
    by_cases hsame : other = worker
    · subst hsame
      exact .inl (by simpa [setWorker] using hother)
    · exact .inr ⟨other, hsame, by simpa [setWorker, hsame] using hother⟩
  · rintro (hphase | ⟨other, hne, hother⟩)
    · exact ⟨worker, by simpa [setWorker] using hphase⟩
    · exact ⟨other, by simpa [setWorker, hne] using hother⟩

omit [DecidableEq ι] in
/-- A worker that ran nothing so far. -/
theorem running_setWorker_of_idle {worker : WorkerId threads} {phase : Worker}
    (hidle : ∀ task, state.workers worker ≠ .running task) {task : Nat} :
    (state.setWorker worker phase).Running task ↔ phase = .running task ∨ state.Running task := by
  rw [running_setWorker]
  refine or_congr_right ⟨?_, ?_⟩
  · rintro ⟨other, -, hother⟩
    exact ⟨other, hother⟩
  · rintro ⟨other, hother⟩
    refine ⟨other, ?_, hother⟩
    rintro rfl
    exact hidle task hother

omit [DecidableEq ι] in
/-- Nor does it run anything from now on. -/
theorem running_setWorker_idle {worker : WorkerId threads} {phase : Worker}
    (hbefore : ∀ task, state.workers worker ≠ .running task) (hafter : ∀ task, phase ≠ .running task)
    {task : Nat} : (state.setWorker worker phase).Running task ↔ state.Running task := by
  rw [running_setWorker_of_idle hbefore]
  exact or_iff_right (hafter task)

omit [DecidableEq ι] in
/-- A task that ends is run no longer. -/
theorem running_iff_of_running {worker : WorkerId threads} {task other : Nat}
    (hrunning : state.workers worker = .running task) :
    state.Running other ↔ other = task ∨ (state.setWorker worker .looping).Running other := by
  rw [running_setWorker]
  constructor
  · rintro ⟨holder, hholder⟩
    by_cases hsame : holder = worker
    · rw [hsame, hrunning] at hholder
      exact .inl (Worker.running.inj hholder).symm
    · exact .inr (.inr ⟨holder, hsame, hholder⟩)
  · rintro (rfl | hphase | ⟨holder, -, hholder⟩)
    · exact ⟨worker, hrunning⟩
    · cases hphase
    · exact ⟨holder, hholder⟩

theorem running_notifyAll {caller : ι} {task : Nat} :
    (state.notifyAll caller).Running task ↔ state.Running task := by
  constructor
  · rintro ⟨worker, hworker⟩
    refine ⟨worker, ?_⟩
    rw [notifyAll, setCaller] at hworker
    dsimp only at hworker
    split_ifs at hworker
    exact hworker
  · rintro ⟨worker, hworker⟩
    refine ⟨worker, ?_⟩
    rw [notifyAll, setCaller]
    dsimp only
    rw [if_neg (by rw [hworker]; exact Worker.noConfusion)]
    exact hworker

end State

/-- Where every task that was posted has gone. -/
structure Accounted (queueLimit : Nat) (state : State ι threads) : Prop where
  order : state.accepted = state.runs ++ state.queue
  numbered : ∀ task ∈ state.accepted ++ state.refused, task < state.posts
  distinct : (state.accepted ++ state.refused).Nodup
  started : ∀ task, task ∈ state.runs ↔ task ∈ state.finished ∨ state.Running task
  bounded : state.queue.length ≤ max queueLimit 1

namespace Accounted

omit [DecidableEq ι] in
theorem start : Accounted queueLimit ({} : State ι threads) where
  order := rfl
  numbered := by simp
  distinct := by simp
  started task := by simp [State.Running]
  bounded := Nat.zero_le _

omit [DecidableEq ι] in
/-- What the accounts say does not depend on the callers, and on the workers only
by what they run. -/
theorem of_eq (h : Accounted queueLimit state) (hposts : next.posts = state.posts)
    (hqueue : next.queue = state.queue) (haccepted : next.accepted = state.accepted)
    (hrefused : next.refused = state.refused) (hruns : next.runs = state.runs)
    (hfinished : next.finished = state.finished)
    (hrunning : ∀ task, next.Running task ↔ state.Running task) : Accounted queueLimit next where
  order := by
    rw [haccepted, hruns, hqueue]
    exact h.order
  numbered := by
    rw [haccepted, hrefused, hposts]
    exact h.numbered
  distinct := by
    rw [haccepted, hrefused]
    exact h.distinct
  started task := by
    rw [hruns, hfinished, hrunning]
    exact h.started task
  bounded := by
    rw [hqueue]
    exact h.bounded

omit [DecidableEq ι] in
theorem posts_not_mem (h : Accounted queueLimit state) :
    state.posts ∉ state.accepted ++ state.refused := fun hmem => (h.numbered _ hmem).false

theorem of_move (h : Accounted queueLimit state) (hmove : Move queueLimit state label next) :
    Accounted queueLimit next := by
  cases hmove with
  | refuse hfree hfull =>
      have hperm : (state.accepted ++ (state.refused ++ [state.posts])).Perm
          (state.posts :: (state.accepted ++ state.refused)) := by
        rw [← List.append_assoc]
        exact List.perm_append_singleton ..
      refine ⟨h.order, fun task htask => ?_, ?_, h.started, h.bounded⟩
      · obtain rfl | hold := List.mem_cons.mp (hperm.mem_iff.mp htask)
        · exact Nat.lt_succ_self _
        · exact (h.numbered task hold).trans (Nat.lt_succ_self _)
      · exact hperm.nodup_iff.mpr (List.nodup_cons.mpr ⟨h.posts_not_mem, h.distinct⟩)
  | accept hfree hopen hroom =>
      have hperm : (state.accepted ++ [state.posts] ++ state.refused).Perm
          (state.posts :: (state.accepted ++ state.refused)) := by
        rw [List.append_assoc]
        exact List.perm_middle
      refine ⟨?_, fun task htask => ?_, ?_, h.started, ?_⟩
      · show state.accepted ++ [state.posts] = state.runs ++ (state.queue ++ [state.posts])
        rw [h.order, List.append_assoc]
      · obtain rfl | hold := List.mem_cons.mp (hperm.mem_iff.mp htask)
        · exact Nat.lt_succ_self _
        · exact (h.numbered task hold).trans (Nat.lt_succ_self _)
      · exact hperm.nodup_iff.mpr (List.nodup_cons.mpr ⟨h.posts_not_mem, h.distinct⟩)
      · show (state.queue ++ [state.posts]).length ≤ max queueLimit 1
        rw [List.length_append, List.length_singleton]
        exact hroom
  | notifyOne hposted hasleep =>
      refine h.of_eq rfl rfl rfl rfl rfl rfl fun task => ?_
      exact State.running_setWorker_idle (by simp [hasleep]) (by simp)
  | notifyNone hposted hawake => exact h.of_eq rfl rfl rfl rfl rfl rfl fun _ => Iff.rfl
  | stopAgain hfree hstopping => exact h.of_eq rfl rfl rfl rfl rfl rfl fun _ => Iff.rfl
  | stopFirst hfree hopen => exact h.of_eq rfl rfl rfl rfl rfl rfl fun _ => Iff.rfl
  | notifyAll hannouncing => exact h.of_eq rfl rfl rfl rfl rfl rfl fun _ => State.running_notifyAll
  | joinNext hjoining hnext hexited => exact h.of_eq rfl rfl rfl rfl rfl rfl fun _ => Iff.rfl
  | joinLast hjoining hlast => exact h.of_eq rfl rfl rfl rfl rfl rfl fun _ => Iff.rfl
  | sleep hlooping hempty hopen =>
      refine h.of_eq rfl rfl rfl rfl rfl rfl fun task => ?_
      exact State.running_setWorker_idle (by simp [hlooping]) (by simp)
  | exit hlooping hempty hstopping =>
      refine h.of_eq rfl rfl rfl rfl rfl rfl fun task => ?_
      exact State.running_setWorker_idle (by simp [hlooping]) (by simp)
  | wake hasleep =>
      refine h.of_eq rfl rfl rfl rfl rfl rfl fun task => ?_
      exact State.running_setWorker_idle (by simp [hasleep]) (by simp)
  | @take worker task rest hlooping hqueue =>
      have horder := h.order
      have hbounded := h.bounded
      rw [hqueue] at horder hbounded
      refine ⟨?_, h.numbered, h.distinct, fun other => ?_, ?_⟩
      · show state.accepted = state.runs ++ [task] ++ rest
        rw [horder, List.append_assoc]
        rfl
      · have hidle : ∀ task, state.workers worker ≠ .running task := by simp [hlooping]
        have hnow : State.Running
            ({ state with queue := rest, runs := state.runs ++ [task] }.setWorker worker (.running task))
            other ↔ Worker.running task = .running other ∨ state.Running other :=
          State.running_setWorker_of_idle hidle
        rw [hnow]
        show other ∈ state.runs ++ [task] ↔ other ∈ state.finished ∨ _
        rw [List.mem_append, h.started, List.mem_singleton, Worker.running.injEq, eq_comm, or_assoc]
        exact or_congr_right or_comm
      · exact (Nat.le_succ _).trans hbounded
  | @finish worker threw task hrunning =>
      refine ⟨h.order, h.numbered, h.distinct, fun other => ?_, h.bounded⟩
      show other ∈ state.runs ↔ other ∈ state.finished ++ [task] ∨ _
      rw [h.started, State.running_iff_of_running hrunning, List.mem_append, List.mem_singleton,
        or_assoc]
      rfl

end Accounted

namespace State

/-- A caller that was not on its way to wake anyone takes nothing away by moving. -/
theorem Calling.setCaller {caller : ι} {phase : Caller} (h : state.Calling)
    (hposted : state.callers caller ≠ .posted) (hannouncing : state.callers caller ≠ .announcing) :
    (state.setCaller caller phase).Calling := by
  obtain ⟨other, hother | hother⟩ := h
  · exact ⟨other, .inl (update_of hother hposted)⟩
  · exact ⟨other, .inr (update_of hother hannouncing)⟩

omit [DecidableEq ι] in
/-- With nobody asleep and work to do, somebody is at it. -/
theorem busy_of_awake (hawake : ∀ worker, state.workers worker ≠ .asleep)
    (hstays : ∀ worker, state.workers worker ≠ .exited) : state.Busy := by
  let first : WorkerId threads := ⟨0, lt_max_of_lt_right one_pos⟩
  refine ⟨first, ?_⟩
  cases hphase : state.workers first with
  | looping => exact .inl rfl
  | asleep => exact absurd hphase (hawake first)
  | running task => exact .inr ⟨task, rfl⟩
  | exited => exact absurd hphase (hstays first)

end State

theorem Caller.free_iff {phase : Caller} : phase.free = true ↔ phase = .outside ∨ phase = .stopped := by
  cases phase <;> simp [Caller.free]

/-- What keeps the queue from being left alone, and what a `stop` has seen when it
comes back from its joins. -/
structure Attended (state : State ι threads) : Prop where
  left : ∀ worker, state.workers worker = .exited → state.stopping = true ∧ state.queue = []
  announced : ∀ caller, state.callers caller = .announcing → state.stopping = true
  joined : ∀ caller count, state.callers caller = .joining count → state.stopping = true ∧
    ∀ worker : WorkerId threads, worker.val < count → state.workers worker = .exited
  heard : state.queue ≠ [] → state.Busy ∨ state.Calling

namespace Attended

omit [DecidableEq ι] in
theorem start : Attended ({} : State ι threads) where
  left worker h := by cases h
  announced caller h := by cases h
  joined caller count h := by cases h
  heard h := absurd rfl h

omit [DecidableEq ι] in
theorem stays (h : Attended state) (hqueue : state.queue ≠ []) (worker : WorkerId threads) :
    state.workers worker ≠ .exited := fun hexited => hqueue (h.left worker hexited).2

theorem heard_of_move (h : Attended state) (hmove : Move queueLimit state label next)
    (hqueue : next.queue ≠ []) : next.Busy ∨ next.Calling := by
  have hfree : ∀ {caller : ι}, (state.callers caller).free = true →
      state.callers caller ≠ .posted ∧ state.callers caller ≠ .announcing := by
    intro caller hfree
    obtain hphase | hphase := Caller.free_iff.mp hfree <;> simp [hphase]
  cases hmove with
  | refuse hcaller hfull =>
      exact (h.heard hqueue).imp_right fun hcalling => hcalling.setCaller (hfree hcaller).1 (hfree hcaller).2
  | accept hcaller hopen hroom => exact .inr ⟨_, .inl (Function.update_self ..)⟩
  | notifyOne hposted hasleep => exact .inl ⟨_, .inl (Function.update_self ..)⟩
  | notifyNone hposted hawake => exact .inl (State.busy_of_awake hawake (h.stays hqueue))
  | stopAgain hcaller hstopping =>
      exact (h.heard hqueue).imp_right fun hcalling => hcalling.setCaller (hfree hcaller).1 (hfree hcaller).2
  | stopFirst hcaller hopen => exact .inr ⟨_, .inr (Function.update_self ..)⟩
  | notifyAll hannouncing =>
      refine .inl (State.busy_of_awake (fun worker => ?_) fun worker => ?_)
      all_goals dsimp only [State.notifyAll, State.setCaller]; split_ifs with hasleep
      · simp
      · exact hasleep
      · simp
      · exact h.stays hqueue worker
  | joinNext hjoining hbound hexited =>
      exact (h.heard hqueue).imp_right fun hcalling => hcalling.setCaller (by simp [hjoining]) (by simp [hjoining])
  | joinLast hjoining hlast =>
      exact (h.heard hqueue).imp_right fun hcalling => hcalling.setCaller (by simp [hjoining]) (by simp [hjoining])
  | sleep hlooping hempty => exact absurd hempty hqueue
  | exit hlooping hempty => exact absurd hempty hqueue
  | take hlooping hwaiting => exact .inl ⟨_, .inr ⟨_, Function.update_self ..⟩⟩
  | wake hasleep => exact .inl ⟨_, .inl (Function.update_self ..)⟩
  | finish hrunning => exact .inl ⟨_, .inl (Function.update_self ..)⟩

theorem of_move (h : Attended state) (hmove : Move queueLimit state label next) : Attended next where
  left worker hexited := by
    have hstopped : state.stopping = true ∧ state.queue = [] :=
      (hmove.exited_or hexited).elim (h.left worker) id
    exact ⟨hmove.stopping hstopped.1, hmove.queue_eq_nil hstopped.1 hstopped.2⟩
  announced caller hannouncing :=
    (hmove.announcing_or hannouncing).elim (fun hold => hmove.stopping (h.announced caller hold)) id
  joined caller count hjoining := by
    obtain hold | ⟨rfl, hannouncing⟩ | ⟨joined, rfl, hold, hlast⟩ := hmove.joining_or hjoining
    · obtain ⟨hstopping, hexited⟩ := h.joined caller count hold
      exact ⟨hmove.stopping hstopping, fun worker hworker => hmove.exited (hexited worker hworker)⟩
    · exact ⟨hmove.stopping (h.announced caller hannouncing), fun worker hworker => absurd hworker (by omega)⟩
    · obtain ⟨hstopping, hexited⟩ := h.joined caller joined hold
      refine ⟨hmove.stopping hstopping, fun worker hworker => hmove.exited ?_⟩
      obtain hbefore | hthis := Nat.lt_succ_iff_lt_or_eq.mp hworker
      · exact hexited worker hbefore
      · subst hthis
        exact hlast worker.isLt
  heard hqueue := h.heard_of_move hmove hqueue

end Attended

/-- Behind a `stop` that has come back no work is left. -/
def Drained (state : State ι threads) : Prop :=
  ∀ caller, state.callers caller = .stopped →
    state.stopping = true ∧ ∀ task ∈ state.accepted, task ∈ state.finished

omit [DecidableEq ι] in
/-- With nothing queued and nothing running, everything has ended. -/
theorem Accounted.finished_of_idle (h : Accounted queueLimit state) (hempty : state.queue = [])
    (hidle : ∀ worker, (state.workers worker).idle) :
    ∀ task ∈ state.accepted, task ∈ state.finished := by
  intro task htask
  rw [h.order, hempty, List.append_nil, h.started] at htask
  obtain hfinished | ⟨worker, hrunning⟩ := htask
  · exact hfinished
  · have hbusy := hidle worker
    rw [hrunning] at hbusy
    cases hbusy

theorem Drained.of_move (h : Drained state) (haccounted : Accounted queueLimit state)
    (hattended : Attended state) (hlast : StopsLast state label)
    (hmove : Move queueLimit state label next) : Drained next := by
  have hkept : state.stopping = true → (∀ task ∈ state.accepted, task ∈ state.finished) →
      next.stopping = true ∧ ∀ task ∈ next.accepted, task ∈ next.finished := by
    intro hstopping hfinished
    rw [hmove.accepted hstopping]
    exact ⟨hmove.stopping hstopping, fun task htask => hmove.finished (hfinished task htask)⟩
  have hold : ∀ {caller}, state.callers caller = .stopped →
      next.stopping = true ∧ ∀ task ∈ next.accepted, task ∈ next.finished := fun hstopped =>
    hkept (h _ hstopped).1 (h _ hstopped).2
  intro caller hstopped
  cases hmove with
  | stopAgain hcaller hstopping =>
      obtain ⟨hempty, hidle⟩ := hlast hstopping
      exact hkept hstopping (haccounted.finished_of_idle hempty hidle)
  | @joinLast mover count hjoining hcount =>
      obtain ⟨hstopping, hexited⟩ := hattended.joined mover count hjoining
      have hgone : ∀ worker, state.workers worker = .exited := fun worker =>
        hexited worker (worker.isLt.trans_le hcount)
      have hempty := (hattended.left ⟨0, lt_max_of_lt_right one_pos⟩ (hgone _)).2
      exact hkept hstopping (haccounted.finished_of_idle hempty (by simp [hgone, Worker.idle]))
  | sleep | exit | take | wake | finish => exact hold hstopped
  | _ => exact hold (of_update hstopped (by simp))

/-! ### Nothing waits for good -/

/-- Who moves of its own: a worker, or a caller inside a call. -/
abbrev Agent (ι : Type) (threads : Nat) := WorkerId threads ⊕ ι

/-- What has its way to go: a worker that is up, a caller that is about to wake some. -/
def Ready : Agent ι threads → State ι threads → Prop
  | .inl worker, state =>
    state.workers worker = .looping ∨ ∃ task, state.workers worker = .running task
  | .inr caller, state =>
    state.callers caller = .posted ∨ state.callers caller = .announcing

def Moves : Agent ι threads → Label ι threads → Prop
  | .inl worker, label => label = .turn worker ∨ ∃ threw, label = .finish worker threw
  | .inr caller, label => (∃ woken, label = .notify caller woken) ∨ label = .notifyAll caller

namespace Move

theorem looping (hmove : Move queueLimit state label next) {worker : WorkerId threads}
    (h : state.workers worker = .looping) :
    next.workers worker = .looping ∨ label = .turn worker := by
  cases hmove with
  | notifyOne hposted hasleep => exact .inl (update_of h (by simp [hasleep]))
  | notifyAll hannouncing => exact .inl (by simp [State.notifyAll, State.setCaller, h])
  | wake hasleep => exact .inl (update_of h (by simp [hasleep]))
  | finish hrunning => exact .inl (update_of h (by simp [hrunning]))
  | @sleep mover | @exit mover | @take mover =>
      by_cases hsame : worker = mover
      · exact .inr (by rw [hsame])
      · exact .inl (by simpa [State.setWorker, hsame] using h)
  | _ => exact .inl h

theorem running (hmove : Move queueLimit state label next) {worker : WorkerId threads} {task : Nat}
    (h : state.workers worker = .running task) :
    next.workers worker = .running task ∨
      (∃ threw, label = .finish worker threw) ∧ next.workers worker = .looping ∧
        task ∈ next.finished := by
  cases hmove with
  | notifyOne hposted hasleep => exact .inl (update_of h (by simp [hasleep]))
  | notifyAll hannouncing => exact .inl (by simp [State.notifyAll, State.setCaller, h])
  | wake hasleep => exact .inl (update_of h (by simp [hasleep]))
  | sleep hlooping | exit hlooping | take hlooping => exact .inl (update_of h (by simp [hlooping]))
  | @finish mover threw other hrunning =>
      by_cases hsame : worker = mover
      · subst hsame
        obtain rfl := Worker.running.inj (hrunning.symm.trans h)
        exact .inr ⟨⟨threw, rfl⟩, Function.update_self .., List.mem_append_right _ (List.mem_singleton_self _)⟩
      · exact .inl (by simpa [State.setWorker, hsame] using h)
  | _ => exact .inl h

end Move

/-- The task has been started, or fewer than so many are ahead of it. -/
structure Within (queueLimit task rank : Nat) (state : State ι threads) : Prop where
  accounted : Accounted queueLimit state
  attended : Attended state
  placed : task ∈ state.runs ∨ ∃ place < rank, state.queue[place]? = some task

namespace Within

variable {task rank : Nat}

theorem of_move (h : Within queueLimit task rank state) (hmove : Move queueLimit state label next) :
    Within queueLimit task rank next := by
  refine ⟨h.accounted.of_move hmove, h.attended.of_move hmove, ?_⟩
  cases hmove with
  | accept hfree hopen hroom =>
      refine h.placed.imp_right fun ⟨place, hplace, htask⟩ => ⟨place, hplace, ?_⟩
      exact (List.getElem?_append_left (List.getElem?_eq_some_iff.mp htask).1).trans htask
  | take hlooping hqueue =>
      obtain hstarted | ⟨place, hplace, htask⟩ := h.placed
      · exact .inl (List.mem_append_left _ hstarted)
      · rw [hqueue] at htask
        cases place with
        | zero =>
            obtain rfl := Option.some.inj htask
            exact .inl (List.mem_append_right _ (List.mem_singleton_self _))
        | succ place => exact .inr ⟨place, (Nat.lt_succ_self _).trans hplace, htask⟩
  | _ => exact h.placed

/-- One worker's turn brings the task forward. -/
theorem of_turn {worker : WorkerId threads} (h : Within queueLimit task (rank + 1) state)
    (hmove : Move queueLimit state (.turn worker) next) : Within queueLimit task rank next := by
  have hkept := h.of_move hmove
  refine ⟨hkept.accounted, hkept.attended, ?_⟩
  have hempty : state.queue = [] → task ∈ state.runs := by
    intro hempty
    refine h.placed.resolve_right ?_
    rintro ⟨place, -, htask⟩
    rw [hempty] at htask
    cases htask
  cases hmove with
  | sleep hlooping hnone => exact .inl (hempty hnone)
  | exit hlooping hnone => exact .inl (hempty hnone)
  | take hlooping hqueue =>
      obtain hstarted | ⟨place, hplace, htask⟩ := h.placed
      · exact .inl (List.mem_append_left _ hstarted)
      · rw [hqueue] at htask
        cases place with
        | zero =>
            obtain rfl := Option.some.inj htask
            exact .inl (List.mem_append_right _ (List.mem_singleton_self _))
        | succ place => exact .inr ⟨place, Nat.lt_of_succ_lt_succ hplace, htask⟩

end Within

theorem Move.calling (hmove : Move queueLimit state label next) {caller : ι}
    (hready : Ready (.inr caller : Agent ι threads) state)
    (hstays : ¬ Moves (.inr caller : Agent ι threads) label) :
    Ready (.inr caller : Agent ι threads) next := by
  have hother : ∀ {mover : ι} {phase : Caller},
      ¬ (state.callers mover = .posted ∨ state.callers mover = .announcing) ∨ mover ≠ caller →
        Function.update state.callers mover phase caller = state.callers caller := by
    intro mover phase hmover
    refine Function.update_of_ne ?_ ..
    rintro rfl
    exact hmover.elim (fun hnot => hnot hready) fun hne => hne rfl
  have hsame : next.callers caller = state.callers caller := by
    cases hmove with
    | refuse hfree | accept hfree | stopAgain hfree | stopFirst hfree =>
        refine hother (.inl ?_)
        obtain hphase | hphase := Caller.free_iff.mp hfree <;> simp [hphase]
    | notifyOne | notifyNone =>
        refine hother (.inr ?_)
        rintro rfl
        exact hstays (.inl ⟨_, rfl⟩)
    | notifyAll =>
        refine hother (.inr ?_)
        rintro rfl
        exact hstays (.inr rfl)
    | joinNext hjoining | joinLast hjoining => exact hother (.inl (by simp [hjoining]))
    | _ => rfl
  rw [Ready, hsame]
  exact hready

omit [DecidableEq ι] in
/-- Either the task has been started, or there is work in the queue. -/
theorem Within.done_or {task rank : Nat} (h : Within queueLimit task (rank + 1) state) :
    Within queueLimit task rank state ∨ state.queue ≠ [] := by
  obtain hstarted | ⟨place, -, htask⟩ := h.placed
  · exact .inl ⟨h.accounted, h.attended, .inl hstarted⟩
  · right
    intro hempty
    rw [hempty] at htask
    cases htask

section Courses

variable {start : State ι threads} {course : Trace.Course (step queueLimit) start} {task rank : Nat}

theorem looping_leads (hfair : course.Fair Ready Moves) (worker : WorkerId threads) :
    course.Leads
      (fun state => Within queueLimit task (rank + 1) state ∧ state.workers worker = .looping)
      (Within queueLimit task rank) := by
  refine hfair.leads (.inl worker) (fun state h => .inl h.2) ?_ ?_
  · rintro state label next ⟨hwithin, hlooping⟩ hstep
    have hmove := move_of_step hstep
    obtain hstill | rfl := hmove.looping hlooping
    · exact .inl ⟨hwithin.of_move hmove, hstill⟩
    · exact .inr (hwithin.of_turn hmove)
  · rintro state label next ⟨hwithin, hlooping⟩ (rfl | ⟨threw, rfl⟩) hstep
    · exact hwithin.of_turn (move_of_step hstep)
    · cases move_of_step hstep with
      | finish hrunning => rw [hlooping] at hrunning; cases hrunning

/-- A task that runs comes to its end. -/
theorem running_leads (hfair : course.Fair Ready Moves) (worker : WorkerId threads) (other : Nat)
    {kept : State ι threads → Prop}
    (hkept : ∀ {state label next}, kept state → step queueLimit state label = some next → kept next) :
    course.Leads (fun state => kept state ∧ state.workers worker = .running other)
      (fun state => kept state ∧ state.workers worker = .looping ∧ other ∈ state.finished) := by
  refine hfair.leads (.inl worker) (fun state h => .inr ⟨other, h.2⟩) ?_ ?_
  · rintro state label next ⟨hstate, hrunning⟩ hstep
    obtain hstill | ⟨-, hdone⟩ := (move_of_step hstep).running hrunning
    · exact .inl ⟨hkept hstate hstep, hstill⟩
    · exact .inr ⟨hkept hstate hstep, hdone⟩
  · rintro state label next ⟨hstate, hrunning⟩ hmoves hstep
    obtain hstill | ⟨-, hdone⟩ := (move_of_step hstep).running hrunning
    · exfalso
      obtain rfl | ⟨threw, rfl⟩ := hmoves
      · rw [step, if_neg (by simp [hrunning])] at hstep
        cases hstep
      · cases move_of_step hstep with
        | finish hagain => cases (Function.update_self ..).symm.trans hstill
    · exact ⟨hkept hstate hstep, hdone⟩

theorem busy_leads (hfair : course.Fair Ready Moves) :
    course.Leads (fun state => Within queueLimit task (rank + 1) state ∧ state.Busy)
      (Within queueLimit task rank) := by
  rintro time ⟨hwithin, worker, hlooping | ⟨other, hrunning⟩⟩
  · exact looping_leads hfair worker time ⟨hwithin, hlooping⟩
  · have hends : course.Leads
        (fun state => Within queueLimit task (rank + 1) state ∧ state.workers worker = .running other)
        (fun state => Within queueLimit task (rank + 1) state ∧ state.workers worker = .looping) :=
      (running_leads hfair worker other fun h hstep => h.of_move (move_of_step hstep)).trans
        (.of_imp fun _ h => ⟨h.1, h.2.1⟩)
    exact (hends.trans (looping_leads hfair worker)) time ⟨hwithin, hrunning⟩

/-- A caller that has posted or stopped gets round to its wake-ups, and behind them
some worker is up. -/
theorem calling_leads (hfair : course.Fair Ready Moves) (caller : ι) :
    course.Leads
      (fun state => Within queueLimit task (rank + 1) state ∧ Ready (.inr caller) state)
      (fun state => Within queueLimit task (rank + 1) state ∧ (state.queue ≠ [] → state.Busy)) := by
  have hwoken : ∀ {state : State ι threads} {label : Label ι threads} {next : State ι threads},
      Within queueLimit task (rank + 1) state → Moves (.inr caller) label →
        step queueLimit state label = some next →
          Within queueLimit task (rank + 1) next ∧ (next.queue ≠ [] → next.Busy) := by
    intro state label next hwithin hmoves hstep
    have hmove := move_of_step hstep
    have hnext := hwithin.of_move hmove
    refine ⟨hnext, fun hqueue => ?_⟩
    obtain ⟨woken, rfl⟩ | rfl := hmoves
    · cases hmove with
      | notifyOne hposted hasleep => exact ⟨_, .inl (Function.update_self ..)⟩
      | notifyNone hposted hawake =>
          exact State.busy_of_awake hawake (hwithin.attended.stays hqueue)
    · cases hmove with
      | notifyAll hannouncing =>
          refine State.busy_of_awake (fun worker => ?_) (hnext.attended.stays hqueue)
          dsimp only [State.notifyAll, State.setCaller]
          split_ifs with hasleep
          · simp
          · exact hasleep
  refine hfair.leads (.inr caller) (fun state h => h.2) ?_ fun h => hwoken h.1
  rintro state label next ⟨hwithin, hready⟩ hstep
  by_cases hmoves : Moves (.inr caller) label
  · exact .inr (hwoken hwithin hmoves hstep)
  · exact .inl ⟨hwithin.of_move (move_of_step hstep), (move_of_step hstep).calling hready hmoves⟩

theorem within_leads (hfair : course.Fair Ready Moves) (rank : Nat) :
    course.Leads (Within queueLimit task (rank + 1)) (Within queueLimit task rank) := by
  have hawake : course.Leads
      (fun state => Within queueLimit task (rank + 1) state ∧ (state.queue ≠ [] → state.Busy))
      (Within queueLimit task rank) := by
    rintro time ⟨hwithin, hbusy⟩
    obtain hdone | hqueue := hwithin.done_or
    · exact ⟨time, le_rfl, hdone⟩
    · exact busy_leads hfair time ⟨hwithin, hbusy hqueue⟩
  intro time hwithin
  obtain hdone | hqueue := hwithin.done_or
  · exact ⟨time, le_rfl, hdone⟩
  · obtain hbusy | ⟨caller, hready⟩ := hwithin.attended.heard hqueue
    · exact busy_leads hfair time ⟨hwithin, hbusy⟩
    · exact ((calling_leads hfair caller).trans hawake) time ⟨hwithin, hready⟩

/-- Every task that was accepted comes to its end. -/
theorem accepted_leads (hfair : course.Fair Ready Moves) (haccounted : Accounted queueLimit start)
    (hattended : Attended start) (htask : task ∈ start.accepted) :
    ∃ time, task ∈ (course.states time).finished := by
  have hwithin : ∃ rank, Within queueLimit task rank (course.states 0) := by
    rw [course.starts]
    rw [haccounted.order] at htask
    obtain hstarted | hqueued := List.mem_append.mp htask
    · exact ⟨0, haccounted, hattended, .inl hstarted⟩
    · obtain ⟨place, hplace⟩ := List.mem_iff_getElem?.mp hqueued
      exact ⟨place + 1, haccounted, hattended, .inr ⟨place, Nat.lt_succ_self _, hplace⟩⟩
  obtain ⟨rank, hrank⟩ := hwithin
  obtain ⟨time, -, hfirst⟩ := Trace.Course.Leads.of_rank (within_leads hfair) rank 0 hrank
  have hstarted : task ∈ (course.states time).runs := by
    refine hfirst.placed.resolve_right ?_
    rintro ⟨place, hplace, -⟩
    exact absurd hplace (Nat.not_lt_zero _)
  obtain hfinished | ⟨worker, hrunning⟩ := (hfirst.accounted.started task).mp hstarted
  · exact ⟨time, hfinished⟩
  · have hends : course.Leads (fun state => True ∧ state.workers worker = .running task)
        (fun state => True ∧ state.workers worker = .looping ∧ task ∈ state.finished) :=
      running_leads hfair worker task fun _ _ => trivial
    obtain ⟨later, -, -, -, hfinished⟩ := hends time ⟨trivial, hrunning⟩
    exact ⟨later, hfinished⟩

end Courses

/-! ### What the pool keeps -/

/-- What the pool promises in a state: no task runs twice, none runs that was turned
away, the queue keeps to its limit, nothing is accepted from a `stop` on, a `stop`
that has come back leaves no accepted task behind, and whatever happens next, as
long as nobody is held up for good every accepted task comes to its end. -/
structure Sound (queueLimit : Nat) (state : State ι threads) : Prop where
  once : state.runs.Nodup
  invited : ∀ task ∈ state.runs, task ∈ state.accepted
  turnedAway : ∀ task ∈ state.refused, task ∉ state.runs
  bounded : state.queue.length ≤ max queueLimit 1
  closed : state.stopping = true → ∀ label next, step queueLimit state label = some next →
    next.accepted = state.accepted
  drained : ∀ caller, state.callers caller = .stopped → ∀ task ∈ state.accepted, task ∈ state.finished
  ends : ∀ course : Trace.Course (step queueLimit) state, course.Fair Ready Moves →
    ∀ task ∈ state.accepted, ∃ time, task ∈ (course.states time).finished

/-- What carries it from step to step. -/
structure Kept (queueLimit : Nat) (state : State ι threads) : Prop where
  accounted : Accounted queueLimit state
  attended : Attended state
  drained : Drained state

theorem Kept.of_step (h : Kept queueLimit state) (hlast : StopsLast state label)
    (hstep : step queueLimit state label = some next) : Kept queueLimit next where
  accounted := h.accounted.of_move (move_of_step hstep)
  attended := h.attended.of_move (move_of_step hstep)
  drained := h.drained.of_move h.accounted h.attended hlast (move_of_step hstep)

theorem Kept.sound (h : Kept queueLimit state) : Sound queueLimit state := by
  obtain ⟨haccepted, -, hapart⟩ := List.nodup_append'.mp h.accounted.distinct
  have horder := h.accounted.order
  have hruns : ∀ task ∈ state.runs, task ∈ state.accepted := by
    intro task htask
    rw [horder]
    exact List.mem_append_left _ htask
  exact {
    once := by
      rw [horder] at haccepted
      exact haccepted.of_append_left
    invited := hruns
    turnedAway := fun task hrefused hrun => hapart (hruns task hrun) hrefused
    bounded := h.accounted.bounded
    closed := fun hstopping label next hstep => (move_of_step hstep).accepted hstopping
    drained := fun caller hstopped => (h.drained caller hstopped).2
    ends := fun course hfair task htask => accepted_leads hfair h.accounted h.attended htask }

/-- The pool neither loses nor repeats nor abandons work, as long as nobody calls `stop`
on a stopping pool that still has work. -/
theorem sound_of_stopsLast {labels : List (Label ι threads)}
    (hrun : Trace.run (step queueLimit) {} labels = some state)
    (hlast : Trace.Every (step queueLimit) StopsLast {} labels) : Sound queueLimit state :=
  Kept.sound (hlast.run_invariant Kept.of_step ⟨.start, .start, fun caller h => by cases h⟩ hrun)

/-- The pool runs the one task, whose end is an exception, and one caller stops it. The
other one stops it once more when that is over. -/
def oneByOne : List (Label (Fin 2) 1) :=
  [.post 0, .notify 0 none, .stop 0, .turn ⟨0, by decide⟩, .finish ⟨0, by decide⟩ true, .notifyAll 0,
    .stop 1, .turn ⟨0, by decide⟩, .join 0, .join 0]

theorem sound_oneByOne :
    ∃ state, Trace.run (step 4) {} oneByOne = some state ∧ Sound 4 state :=
  ⟨_, rfl, sound_of_stopsLast rfl (show Trace.Every (step 4) StopsLast {} oneByOne by decide +kernel)⟩

/-- While one caller is still waiting for the workers, the other's `stop` is back before
the task that was accepted has begun. -/
theorem unsound_second_stop :
    ∃ state, Trace.run (step 4) ({} : State (Fin 2) 1) [.post 0, .notify 0 none, .stop 0, .stop 1] =
      some state ∧ ¬ Sound 4 state := by
  refine ⟨_, rfl, fun h => ?_⟩
  have hfinished := h.drained 1 rfl 0 (List.mem_singleton_self _)
  cases hfinished

end Step

end MonoBucket.IoExecutor

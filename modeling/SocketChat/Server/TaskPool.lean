/-
The workers, their queue and what the tasks do, together.

`Pool` lets a free worker take the head of the queue and lets it wait otherwise; how it
waits, who wakes it and how the pool is stopped is left to `TaskQueue`, which in turn takes
the call of a task as a whole.  A `TaskPool` is a `TaskQueue` whose workers run programs
over a shared state.  `refines_pool` shows that it does nothing a `Pool` cannot do, so that
what holds along every run of a `Pool` holds along every run of the workers as written.
-/
import SocketChat.Lib.Pool
import SocketChat.Server.TaskQueue

universe u v

namespace SocketChat

structure TaskPool {Call : Type u} (Reply : Call → Type v) (σ τ : Type*) (N : ℕ) where
  queue : TaskQueue τ N
  shared : σ
  /-- What is left of the program of the task a worker is in. -/
  program : Fin N → Option (Prog Reply Unit)

namespace TaskPool

variable {Call : Type u} {Reply : Call → Type v} {σ τ ε : Type*} {N : ℕ}

def init (Reply : Call → Type v) (τ : Type*) (N : ℕ) (s : σ) : TaskPool Reply σ τ N where
  queue := TaskQueue.init τ N
  shared := s
  program _ := none

inductive Event (τ ε : Type*) (N : ℕ) where
  | queue (e : TaskQueue.Event τ N)
  | env (e : ε)
  /-- The next call a task makes. -/
  | act (w : Fin N)

/-- The task received is one that can be, and a task returns when its program has. -/
def Allows (S : Pool.System Reply σ τ ε) (s : TaskPool Reply σ τ N) :
    TaskQueue.Event τ N → Bool
  | .push task _ => S.admits s.shared task
  | .ret w =>
    match s.program w with
    | some (.ret _) => true
    | _ => false
  | _ => true

/-- A worker that calls a task starts its program, and has none when the task has returned. -/
def programs (S : Pool.System Reply σ τ ε) (s : TaskPool Reply σ τ N) :
    TaskQueue.Event τ N → Fin N → Option (Prog Reply Unit)
  | .call w =>
    match s.queue.place w with
    | .holding _ task => Function.update s.program w (some (S.program task))
    | _ => s.program
  | .ret w => Function.update s.program w none
  | _ => s.program

def step (S : Pool.System Reply σ τ ε) (s : TaskPool Reply σ τ N) :
    Event τ ε N → Option (TaskPool Reply σ τ N)
  | .queue e =>
    if s.Allows S e then
      (s.queue.step e).map fun queue => { s with queue := queue, program := s.programs S e }
    else none
  | .env e => (S.env s.shared e).map fun shared => { s with shared := shared }
  | .act w =>
    match s.queue.place w, s.program w with
    | .running _ _, some (.call c k) =>
      some { s with
        shared := (S.serve c s.shared).2
        program := Function.update s.program w (some (k (S.serve c s.shared).1)) }
    | _, _ => none

/-! ### What a `Pool` sees -/

/-- What a worker in the given place runs: a task it is about to call is one it has begun. -/
def runs (S : Pool.System Reply σ τ ε) :
    Place τ → Option (Prog Reply Unit) → Option (ℕ × Prog Reply Unit)
  | .holding i task, _ => some (i, S.program task)
  | .running i _, p => p.map fun p => (i, p)
  | _, _ => none

/-- The pool `u` has received what has been popped and what waits, and its workers run what
the workers of `s` do. -/
structure Refines (S : Pool.System Reply σ τ ε) (s : TaskPool Reply σ τ N)
    (u : Pool Reply σ τ N) : Prop where
  shared : u.shared = s.shared
  received : u.received = s.queue.popped.map Prod.snd ++ s.queue.queue
  queue : u.queue = List.range' s.queue.popped.length s.queue.queue.length
  worker : ∀ w, u.worker w = runs S (s.queue.place w) (s.program w)

variable {S : Pool.System Reply σ τ ε} {s s' : TaskPool Reply σ τ N} {u : Pool Reply σ τ N}

theorem runs_of_isTesting {p : Place τ} (h : p.isTesting = true)
    (program : Option (Prog Reply Unit)) : runs S p program = none := by
  cases p with
  | holding i task => cases h
  | running i task => cases h
  | _ => rfl

theorem runs_of_isBlocked {p : Place τ} (h : p.isBlocked = true)
    (program : Option (Prog Reply Unit)) : runs S p program = none := by
  cases p with
  | holding i task => cases h
  | running i task => cases h
  | _ => rfl

theorem runs_notified (p : Place τ) (program : Option (Prog Reply Unit)) :
    runs S p.notified program = runs S p program := by
  cases p with
  | _ => rfl

/-- A step by which the workers go to other places without taking, calling or leaving a
task. -/
theorem Refines.quiet (h : Refines S s u) {place : Fin N → Place τ} {stop notified : Bool}
    (hplace : ∀ w, runs S (place w) (s.program w) = runs S (s.queue.place w) (s.program w)) :
    Refines S { s with queue :=
      { s.queue with place := place, stop := stop, notified := notified } } u where
  shared := h.shared
  received := h.received
  queue := h.queue
  worker w := (h.worker w).trans (hplace w).symm

/-- The same for one worker that goes from a place without a task to another such place. -/
theorem runs_update {place : Fin N → Place τ} {w : Fin N} {p : Place τ}
    (hfrom : ∀ program, runs S (place w) program = none)
    (hto : ∀ program, runs S p program = none) (program : Fin N → Option (Prog Reply Unit))
    (v : Fin N) :
    runs S (Function.update place w p v) (program v) = runs S (place v) (program v) := by
  by_cases hv : v = w
  · subst hv
    rw [Function.update_self, hfrom, hto]
  · rw [Function.update_of_ne hv]

/-- A worker is given another place, program and task at once. -/
theorem Refines.worker_update (h : Refines S s u) (w : Fin N) (p : Place τ)
    (program : Option (Prog Reply Unit)) {run : Option (ℕ × Prog Reply Unit)}
    (hrun : run = runs S p program) (v : Fin N) :
    Function.update u.worker w run v =
      runs S (Function.update s.queue.place w p v) (Function.update s.program w program v) := by
  by_cases hv : v = w
  · subst hv
    rw [Function.update_self, Function.update_self, Function.update_self, hrun]
  · rw [Function.update_of_ne hv, Function.update_of_ne hv, Function.update_of_ne hv]
    exact h.worker v

/-- `enqueue`. -/
theorem Refines.push (h : Refines S s u) {task : τ} {wakes : Option (Fin N)}
    (hadmits : S.admits s.shared task = true) (hwakes : s.queue.CanWake wakes) :
    ∃ u', Pool.step S u (.push task) = some u' ∧
      Refines S { s with queue := { s.queue with
        queue := s.queue.queue ++ [task]
        place := wakes.elim s.queue.place fun w =>
          Function.update s.queue.place w .woken } } u' := by
  refine ⟨_, if_pos (h.shared ▸ hadmits), h.shared, ?_, ?_, fun v => (h.worker v).trans ?_⟩
  · show u.received ++ [task] = _
    rw [h.received, List.append_assoc]
  · show u.queue ++ [u.received.length] = _
    rw [h.queue, h.received, List.length_append, List.length_map, List.length_append,
      List.length_singleton, List.range'_concat, Nat.one_mul]
  · cases wakes with
    | none => rfl
    | some w =>
      exact (runs_update (runs_of_isBlocked hwakes) (fun _ => rfl) s.program v).symm

/-- `wait_and_pop` returns the head of the queue. -/
theorem Refines.pop (h : Refines S s u) {w : Fin N} {task : τ} {queue : List τ}
    (hplace : (s.queue.place w).isTesting = true) (hqueue : s.queue.queue = task :: queue) :
    ∃ u', Pool.step S u (.pop w) = some u' ∧
      Refines S { s with queue := { s.queue.move w (.holding s.queue.popped.length task) with
        queue := queue
        popped := s.queue.popped ++ [(w, task)] } } u' := by
  have hfree : u.worker w = none := (h.worker w).trans (runs_of_isTesting hplace _)
  -- the tasks that wait are numbered on from those that were popped
  have hhead : u.queue =
      s.queue.popped.length :: List.range' (s.queue.popped.length + 1) queue.length := by
    rw [h.queue, hqueue]
    rfl
  have htask : u.received[s.queue.popped.length]? = some task := by
    rw [h.received, hqueue, List.getElem?_append_right (by simp)]
    simp
  have hstep : Pool.step S u (.pop w) = some { u with
      queue := List.range' (s.queue.popped.length + 1) queue.length
      worker := Function.update u.worker w (some (s.queue.popped.length, S.program task)) } := by
    simp only [Pool.step, hfree, hhead, htask, Option.map_some]
  refine ⟨_, hstep, h.shared, ?_, ?_, fun v => ?_⟩
  · show u.received = (s.queue.popped ++ [(w, task)]).map Prod.snd ++ queue
    rw [h.received, hqueue, List.map_append, List.append_assoc]
    rfl
  · show _ = List.range' (s.queue.popped ++ [(w, task)]).length queue.length
    rw [List.length_append]
    rfl
  · have hworker := h.worker_update w (.holding s.queue.popped.length task) (s.program w) rfl v
    rw [Function.update_eq_self] at hworker
    exact hworker

/-- A task that is called is one the pool has begun. -/
theorem Refines.call (h : Refines S s u) {w : Fin N} {i : ℕ} {task : τ}
    (hplace : s.queue.place w = .holding i task) (runs : List (Fin N × ℕ)) :
    Refines S { s with
      queue := { s.queue.move w (.running i task) with runs := runs }
      program := Function.update s.program w (some (S.program task)) } u where
  shared := h.shared
  received := h.received
  queue := h.queue
  worker v := by
    have hsame : u.worker w = TaskPool.runs S (.running i task) (some (S.program task)) := by
      rw [h.worker w, hplace]
      rfl
    have hworker := h.worker_update w _ _ hsame v
    rw [Function.update_eq_self] at hworker
    exact hworker

theorem Refines.ret (h : Refines S s u) {w : Fin N} {i : ℕ} {task : τ} {a : Unit}
    (hplace : s.queue.place w = .running i task) (hprogram : s.program w = some (.ret a)) :
    ∃ u', Pool.step S u (.finish w) = some u' ∧
      Refines S { s with
        queue := s.queue.move w .loop
        program := Function.update s.program w none } u' := by
  have hrun : u.worker w = some (i, .ret a) := by
    rw [h.worker w, hplace, hprogram]
    rfl
  have hstep : Pool.step S u (.finish w) = some { u with
      worker := Function.update u.worker w none, done := u.done ++ [i] } := by
    rw [Pool.step, hrun]
  exact ⟨_, hstep, h.shared, h.received, h.queue, h.worker_update w _ _ rfl⟩

/-- A step of the queue is none or one of the pool. -/
theorem Refines.queue_step (h : Refines S s u) {e : TaskQueue.Event τ N} {queue : TaskQueue τ N}
    (hallows : s.Allows S e = true) (hstep : s.queue.step e = some queue) :
    ∃ fs u', Transition.runFrom (Pool.step S) u fs = some u' ∧
      Refines S { s with queue := queue, program := s.programs S e } u' := by
  -- testing, waiting and waking up are no steps of the pool, nor is the call of a task
  have hstill : ∀ {w : Fin N} {p : Place τ},
      (∀ program, runs S (s.queue.place w) program = none) →
      (∀ program, runs S p program = none) →
      ∃ fs u', Transition.runFrom (Pool.step S) u fs = some u' ∧
        Refines S { s with queue := s.queue.move w p } u' :=
    fun hfrom hto => ⟨[], u, rfl, h.quiet (runs_update hfrom hto s.program)⟩
  cases TaskQueue.step_cases hstep with
  | push hstop hwakes =>
    obtain ⟨u', hu, h'⟩ := h.push hallows hwakes
    exact ⟨[_], u', Transition.runFrom_single hu, h'⟩
  | enter hplace hstop => exact hstill (fun _ => by rw [hplace]; rfl) fun _ => rfl
  | leave hplace hstop => exact hstill (fun _ => by rw [hplace]; rfl) fun _ => rfl
  | block hplace hqueue => exact hstill (runs_of_isTesting hplace) fun _ => rfl
  | pop hplace hqueue =>
    obtain ⟨u', hu, h'⟩ := h.pop hplace hqueue
    exact ⟨[_], u', Transition.runFrom_single hu, h'⟩
  | wakeUp hplace => exact hstill (runs_of_isBlocked hplace) fun _ => rfl
  | @call w i task hplace =>
    have h' := h.call hplace (s.queue.runs ++ [(w, i)])
    refine ⟨[], u, rfl, ?_⟩
    rw [programs, hplace]
    exact h'
  | @ret w i task hplace =>
    rw [Allows] at hallows
    cases hprogram : s.program w with
    | none =>
      rw [hprogram] at hallows
      cases hallows
    | some p =>
      cases p with
      | call c k =>
        rw [hprogram] at hallows
        cases hallows
      | ret a =>
        obtain ⟨u', hu, h'⟩ := h.ret hplace hprogram
        exact ⟨[_], u', Transition.runFrom_single hu, h'⟩
  | stop hstop => exact ⟨[], u, rfl, h.quiet fun _ => rfl⟩
  | notifyAll hstop hnotified => exact ⟨[], u, rfl, h.quiet fun w => runs_notified _ _⟩

/-- A call that a task makes. -/
theorem Refines.act (h : Refines S s u) {w : Fin N} {i : ℕ} {task : τ} {c : Call}
    {k : Reply c → Prog Reply Unit} (hplace : s.queue.place w = .running i task)
    (hprogram : s.program w = some (.call c k)) :
    ∃ u', Pool.step S u (.act w) = some u' ∧
      Refines S { s with
        shared := (S.serve c s.shared).2
        program := Function.update s.program w (some (k (S.serve c s.shared).1)) } u' := by
  have hrun : u.worker w = some (i, .call c k) := by
    rw [h.worker w, hplace, hprogram]
    rfl
  refine ⟨_, Pool.step_act hrun, congrArg (fun x => (S.serve c x).2) h.shared, h.received,
    h.queue, fun v => ?_⟩
  have hnext : some (i, k (S.serve c u.shared).1) =
      runs S (s.queue.place w) (some (k (S.serve c s.shared).1)) := by
    rw [hplace, h.shared]
    rfl
  have hworker := h.worker_update w _ _ hnext v
  rw [Function.update_eq_self] at hworker
  exact hworker

theorem Refines.step (h : Refines S s u) {e : Event τ ε N} (hstep : s.step S e = some s') :
    ∃ fs u', Transition.runFrom (Pool.step S) u fs = some u' ∧ Refines S s' u' := by
  cases e with
  | queue e =>
    rw [TaskPool.step] at hstep
    by_cases hallows : s.Allows S e = true
    · rw [if_pos hallows, Option.map_eq_some_iff] at hstep
      obtain ⟨queue, hqueue, rfl⟩ := hstep
      exact h.queue_step hallows hqueue
    · rw [if_neg hallows] at hstep
      cases hstep
  | env e =>
    rw [TaskPool.step, Option.map_eq_some_iff] at hstep
    obtain ⟨shared, henv, rfl⟩ := hstep
    have hu : Pool.step S u (.env e) = some { u with shared := shared } := by
      rw [Pool.step, h.shared, henv]
      rfl
    exact ⟨[.env e], _, Transition.runFrom_single hu, rfl, h.received, h.queue, h.worker⟩
  | act w =>
    rw [TaskPool.step] at hstep
    cases hplace : s.queue.place w with
    -- only a worker that has called its task makes calls of the program
    | running i task =>
      cases hprogram : s.program w with
      | none =>
        rw [hplace, hprogram] at hstep
        cases hstep
      | some p =>
        cases p with
        | ret a =>
          rw [hplace, hprogram] at hstep
          cases hstep
        | call c k =>
          rw [hplace, hprogram] at hstep
          obtain rfl := Option.some.inj hstep
          obtain ⟨u', hu, h'⟩ := h.act hplace hprogram
          exact ⟨[.act w], u', Transition.runFrom_single hu, h'⟩
    | _ =>
      rw [hplace] at hstep
      cases hstep

/-- **The workers as written refine the pool.**  Whatever state the workers, the queue, the
notifications and the destructor can lead to, a `Pool` with the same tasks and programs can
lead to. -/
theorem refines_pool {x : σ} {events : List (Event τ ε N)}
    (hrun : Transition.runFrom (step S) (init Reply τ N x) events = some s) :
    ∃ events' u, Transition.runFrom (Pool.step S) (Pool.init Reply τ N x) events' = some u ∧
      Refines S s u :=
  Transition.runFrom_simulated (fun _ _ _ _ h hstep => h.step hstep) hrun
    ⟨rfl, rfl, rfl, fun _ => rfl⟩

end TaskPool

end SocketChat

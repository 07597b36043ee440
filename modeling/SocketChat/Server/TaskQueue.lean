/-
`SafeQueue` and the workers that wait on it.

The sections of `push` and `wait_and_pop` that hold the mutex are one step each, and so is
`notify_all`; between two steps of a worker anything may happen.  `notify_one` wakes one
of the workers blocked in the condition variable, whichever the event names, and a worker
may wake up without having been notified.  A worker that wakes up tests the predicate
`!m_queue.empty()` again, and only that: `m_stop` is tested at the head of the loop in
`worker_thread`.

`queue_exact` says that no task is lost or doubled and no worker sleeps beside a task that
waits for one, and `joins_iff` for which states of the pool the destructor's `join`s
return.
-/
import SocketChat.Lib.Places
import SocketChat.Lib.Transition

namespace SocketChat

/-- Where a worker is in `worker_thread`. -/
inductive Place (T : Type*) where
  /-- At the head of the loop. -/
  | loop
  /-- Past the test of `m_stop`, about to lock the mutex in `wait_and_pop`. -/
  | entering
  /-- In `m_cond.wait`. -/
  | blocked
  /-- Woken up, about to lock the mutex again. -/
  | woken
  /-- Back from `wait_and_pop` with the task popped at position `i`. -/
  | holding (i : ℕ) (task : T)
  /-- In `task()`. -/
  | running (i : ℕ) (task : T)
  /-- Out of `worker_thread`. -/
  | left

namespace Place

variable {T : Type*}

/-- Blocked in the condition wait. -/
def isBlocked : Place T → Bool
  | blocked => true
  | _ => false

/-- About to lock the mutex and test the predicate. -/
def isTesting : Place T → Bool
  | entering => true
  | woken => true
  | _ => false

/-- In `wait_and_pop`. -/
def isWaiting (p : Place T) : Bool := p.isTesting || p.isBlocked

/-- The task a worker has popped and not yet called, with its position. -/
def held? : Place T → Option (ℕ × T)
  | holding i task => some (i, task)
  | _ => none

/-- Where `notify_all` takes a worker. -/
def notified : Place T → Place T
  | blocked => woken
  | p => p

theorem held?_of_isTesting {p : Place T} (h : p.isTesting = true) : p.held? = none := by
  cases p with
  | holding i task => cases h
  | _ => rfl

theorem held?_of_isBlocked {p : Place T} (h : p.isBlocked = true) : p.held? = none := by
  cases p with
  | holding i task => cases h
  | _ => rfl

theorem held?_notified (p : Place T) : p.notified.held? = p.held? := by
  cases p with
  | _ => rfl

theorem isBlocked_notified (p : Place T) : p.notified.isBlocked = false := by
  cases p with
  | _ => rfl

end Place

/-- The queue, the flag and the workers of a pool of `N`.  `popped` and `runs` record what
happened; a task that is popped gets its position in `popped`, and nothing else reads
them. -/
structure TaskQueue (T : Type*) (N : ℕ) where
  queue : List T
  /-- `m_stop`. -/
  stop : Bool
  /-- The destructor has called `notify_all`. -/
  notified : Bool
  place : Fin N → Place T
  /-- The tasks popped, each with the worker that popped it. -/
  popped : List (Fin N × T)
  /-- The calls of tasks, each with the worker and the position of the task in `popped`. -/
  runs : List (Fin N × ℕ)

namespace TaskQueue

variable {T : Type*} {N : ℕ}

/-- The constructor. -/
def init (T : Type*) (N : ℕ) : TaskQueue T N where
  queue := []
  stop := false
  notified := false
  place _ := .loop
  popped := []
  runs := []

inductive Event (T : Type*) (N : ℕ) where
  /-- `enqueue`; `notify_one` wakes the given worker. -/
  | push (task : T) (wakes : Option (Fin N))
  /-- `while (!m_stop)`. -/
  | testStop (w : Fin N)
  /-- A worker locks the mutex, tests the predicate, and pops a task or blocks. -/
  | testQueue (w : Fin N)
  /-- A worker wakes up without having been notified. -/
  | wakeUp (w : Fin N)
  | call (w : Fin N)
  /-- `task()` returns. -/
  | ret (w : Fin N)
  /-- `m_stop = true`. -/
  | stop
  | notifyAll

/-- `notify_one` can wake the given worker, or there is none to be woken. -/
def CanWake (s : TaskQueue T N) : Option (Fin N) → Prop
  | some w => (s.place w).isBlocked = true
  | none => ∀ w, (s.place w).isBlocked = false

instance (s : TaskQueue T N) (wakes : Option (Fin N)) : Decidable (s.CanWake wakes) := by
  cases wakes with
  | none => exact inferInstanceAs (Decidable (∀ w, _))
  | some w => exact inferInstanceAs (Decidable (_ = _))

/-- A worker goes to another place. -/
def move (s : TaskQueue T N) (w : Fin N) (p : Place T) : TaskQueue T N :=
  { s with place := Function.update s.place w p }

/-- The destructor runs when nobody enqueues any more. -/
def step (s : TaskQueue T N) : Event T N → Option (TaskQueue T N)
  | .push task wakes =>
    if s.stop = false ∧ s.CanWake wakes then
      some { s with
        queue := s.queue ++ [task]
        place := wakes.elim s.place fun w => Function.update s.place w .woken }
    else none
  | .testStop w =>
    match s.place w with
    | .loop => some (s.move w (if s.stop then .left else .entering))
    | _ => none
  | .testQueue w =>
    if (s.place w).isTesting then
      match s.queue with
      | [] => some (s.move w .blocked)
      | task :: queue =>
        some { s.move w (.holding s.popped.length task) with
          queue := queue
          popped := s.popped ++ [(w, task)] }
    else none
  | .wakeUp w => if (s.place w).isBlocked then some (s.move w .woken) else none
  | .call w =>
    match s.place w with
    | .holding i task => some { s.move w (.running i task) with runs := s.runs ++ [(w, i)] }
    | _ => none
  | .ret w =>
    match s.place w with
    | .running _ _ => some (s.move w .loop)
    | _ => none
  | .stop => if s.stop = false then some { s with stop := true } else none
  | .notifyAll =>
    if s.stop = true ∧ s.notified = false then
      some { s with notified := true, place := fun w => (s.place w).notified }
    else none

/-- What a step can do. -/
inductive Step (s : TaskQueue T N) : Event T N → TaskQueue T N → Prop
  | push {task : T} {wakes : Option (Fin N)} (hstop : s.stop = false) (hwakes : s.CanWake wakes) :
      Step s (.push task wakes) { s with
        queue := s.queue ++ [task]
        place := wakes.elim s.place fun w => Function.update s.place w .woken }
  | enter {w : Fin N} (hplace : s.place w = .loop) (hstop : s.stop = false) :
      Step s (.testStop w) (s.move w .entering)
  | leave {w : Fin N} (hplace : s.place w = .loop) (hstop : s.stop = true) :
      Step s (.testStop w) (s.move w .left)
  | block {w : Fin N} (hplace : (s.place w).isTesting = true) (hqueue : s.queue = []) :
      Step s (.testQueue w) (s.move w .blocked)
  | pop {w : Fin N} {task : T} {queue : List T} (hplace : (s.place w).isTesting = true)
      (hqueue : s.queue = task :: queue) :
      Step s (.testQueue w) { s.move w (.holding s.popped.length task) with
        queue := queue
        popped := s.popped ++ [(w, task)] }
  | wakeUp {w : Fin N} (hplace : (s.place w).isBlocked = true) :
      Step s (.wakeUp w) (s.move w .woken)
  | call {w : Fin N} {i : ℕ} {task : T} (hplace : s.place w = .holding i task) :
      Step s (.call w) { s.move w (.running i task) with runs := s.runs ++ [(w, i)] }
  | ret {w : Fin N} {i : ℕ} {task : T} (hplace : s.place w = .running i task) :
      Step s (.ret w) (s.move w .loop)
  | stop (hstop : s.stop = false) : Step s .stop { s with stop := true }
  | notifyAll (hstop : s.stop = true) (hnotified : s.notified = false) :
      Step s .notifyAll { s with notified := true, place := fun w => (s.place w).notified }

variable {s s' : TaskQueue T N} {e : Event T N} {w : Fin N}

theorem step_cases (h : s.step e = some s') : Step s e s' := by
  cases e with
  | push task wakes =>
    rw [step] at h
    by_cases hguard : s.stop = false ∧ s.CanWake wakes
    · rw [if_pos hguard] at h
      obtain rfl := Option.some.inj h
      exact Step.push hguard.1 hguard.2
    · rw [if_neg hguard] at h
      cases h
  | testStop w =>
    rw [step] at h
    -- the flag is tested at the head of the loop, and only there
    cases hplace : s.place w with
    | loop =>
      rw [hplace] at h
      obtain rfl := Option.some.inj h
      cases hstop : s.stop with
      | false => exact Step.enter hplace hstop
      | true => exact Step.leave hplace hstop
    | _ =>
      rw [hplace] at h
      cases h
  | testQueue w =>
    rw [step] at h
    by_cases hplace : (s.place w).isTesting = true
    · rw [if_pos hplace] at h
      -- the predicate decides, whatever has woken the worker up
      cases hqueue : s.queue with
      | nil =>
        rw [hqueue] at h
        obtain rfl := Option.some.inj h
        exact Step.block hplace hqueue
      | cons task queue =>
        rw [hqueue] at h
        obtain rfl := Option.some.inj h
        exact Step.pop hplace hqueue
    · rw [if_neg hplace] at h
      cases h
  | wakeUp w =>
    rw [step] at h
    by_cases hplace : (s.place w).isBlocked = true
    · rw [if_pos hplace] at h
      obtain rfl := Option.some.inj h
      exact Step.wakeUp hplace
    · rw [if_neg hplace] at h
      cases h
  | call w =>
    rw [step] at h
    cases hplace : s.place w with
    | holding i task =>
      rw [hplace] at h
      obtain rfl := Option.some.inj h
      exact Step.call hplace
    | _ =>
      rw [hplace] at h
      cases h
  | ret w =>
    rw [step] at h
    cases hplace : s.place w with
    | running i task =>
      rw [hplace] at h
      obtain rfl := Option.some.inj h
      exact Step.ret hplace
    | _ =>
      rw [hplace] at h
      cases h
  | stop =>
    rw [step] at h
    by_cases hstop : s.stop = false
    · rw [if_pos hstop] at h
      obtain rfl := Option.some.inj h
      exact Step.stop hstop
    · rw [if_neg hstop] at h
      cases h
  | notifyAll =>
    rw [step] at h
    by_cases hguard : s.stop = true ∧ s.notified = false
    · rw [if_pos hguard] at h
      obtain rfl := Option.some.inj h
      exact Step.notifyAll hguard.1 hguard.2
    · rw [if_neg hguard] at h
      cases h

/-! ### Every task once -/

/-- The tasks that are pushed. -/
def Event.task? : Event T N → Option T
  | .push task _ => some task
  | _ => none

/-- What has been popped and what waits are what was pushed, in this order. -/
theorem popped_append_queue {events : List (Event T N)}
    (hrun : Transition.runFrom step (init T N) events = some s) :
    s.popped.map Prod.snd ++ s.queue = events.filterMap Event.task? := by
  refine Transition.runFrom_induction (G := fun _ _ => True)
    (J := fun es t => t.popped.map Prod.snd ++ t.queue = es.filterMap Event.task?) rfl ?_ hrun
    (fun _ _ _ => trivial)
  intro es t e t' _ ht _ hstep
  rw [List.filterMap_append, ← ht]
  cases step_cases hstep with
  | push hstop hwakes => exact (List.append_assoc _ _ _).symm
  | pop hplace hqueue =>
    show (t.popped ++ [_]).map Prod.snd ++ _ = _ ++ []
    rw [hqueue, List.map_append, List.append_assoc, List.append_nil]
    rfl
  | _ => exact (List.append_nil _).symm

/-- Each task that has been popped is still to be called by the worker that popped it, or has
been called once, by that worker. -/
structure RunOnce (s : TaskQueue T N) : Prop where
  once : (s.runs.map Prod.snd).Nodup
  popped : ∀ w i, (w, i) ∈ s.runs → ∃ task, s.popped[i]? = some (w, task)
  held : ∀ w i task, (s.place w).held? = some (i, task) →
    s.popped[i]? = some (w, task) ∧ ∀ v, (v, i) ∉ s.runs
  all : ∀ w i task, s.popped[i]? = some (w, task) →
    (s.place w).held? = some (i, task) ∨ (w, i) ∈ s.runs

theorem runOnce_init (T : Type*) (N : ℕ) : (init T N).RunOnce where
  once := List.nodup_nil
  popped w i h := by cases h
  held w i task h := by cases h
  all w i task h := by cases h

/-- A step that neither pops nor calls a task. -/
theorem RunOnce.quiet (hs : s.RunOnce) (hpopped : s'.popped = s.popped) (hruns : s'.runs = s.runs)
    (hheld : ∀ w, (s'.place w).held? = (s.place w).held?) : s'.RunOnce where
  once := hruns ▸ hs.once
  popped w i h := by
    rw [hpopped]
    exact hs.popped w i (hruns ▸ h)
  held w i task h := by
    rw [hpopped, hruns]
    exact hs.held w i task (hheld w ▸ h)
  all w i task h := by
    rw [hheld, hruns]
    exact hs.all w i task (hpopped ▸ h)

/-- A worker that holds no task goes where it holds none. -/
theorem held?_move (h : (s.place w).held? = none) {p : Place T} (hp : p.held? = none) (v : Fin N) :
    ((s.move w p).place v).held? = (s.place v).held? := by
  show (Function.update s.place w p v).held? = _
  by_cases hv : v = w
  · rw [hv, Function.update_self, h, hp]
  · rw [Function.update_of_ne hv]

/-- A worker that pops a task holds it, at a position nobody has called. -/
theorem RunOnce.pop (hs : s.RunOnce) {task : T} (queue : List T)
    (hplace : (s.place w).isTesting = true) :
    RunOnce { s.move w (.holding s.popped.length task) with
      queue := queue
      popped := s.popped ++ [(w, task)] } := by
  have hfresh : ∀ v i, (v, i) ∈ s.runs → i < s.popped.length := by
    intro v i h
    obtain ⟨task', htask'⟩ := hs.popped v i h
    exact (List.getElem?_eq_some_iff.mp htask').1
  have hold : ∀ (i : ℕ) (x : Fin N × T), s.popped[i]? = some x →
      (s.popped ++ [(w, task)])[i]? = some x := by
    intro i x h
    rw [List.getElem?_append_left (List.getElem?_eq_some_iff.mp h).1, h]
  -- the new position is the last one, and every earlier one is as before
  refine ⟨hs.once, fun v i h => ?_, fun v i task' h => ?_, fun v i task' h => ?_⟩
  · obtain ⟨task', htask'⟩ := hs.popped v i h
    exact ⟨task', hold i _ htask'⟩
  · have h : (Function.update s.place w _ v).held? = some (i, task') := h
    by_cases hv : v = w
    · rw [hv, Function.update_self] at h
      obtain ⟨rfl, rfl⟩ := Prod.mk.inj (Option.some.inj h)
      refine ⟨?_, fun u hu => absurd (hfresh u _ hu) (Nat.lt_irrefl _)⟩
      rw [hv]
      exact List.getElem?_concat_length
    · rw [Function.update_of_ne hv] at h
      obtain ⟨hpopped, hruns⟩ := hs.held v i task' h
      exact ⟨hold i _ hpopped, hruns⟩
  · show (Function.update s.place w _ v).held? = some (i, task') ∨ (v, i) ∈ s.runs
    have h : (s.popped ++ [(w, task)])[i]? = some (v, task') := h
    by_cases hi : i < s.popped.length
    · rw [List.getElem?_append_left hi] at h
      by_cases hv : v = w
      · have hnone : (s.place v).held? = none := by
          rw [hv]
          exact Place.held?_of_isTesting hplace
        exact Or.inr ((hs.all v i task' h).resolve_left (by rw [hnone]; simp))
      · rw [Function.update_of_ne hv]
        exact hs.all v i task' h
    · rw [List.getElem?_append_right (Nat.le_of_not_lt hi), List.getElem?_singleton] at h
      by_cases hlast : i - s.popped.length = 0
      · rw [if_pos hlast] at h
        obtain ⟨rfl, rfl⟩ := Prod.mk.inj (Option.some.inj h)
        obtain rfl : i = s.popped.length := by omega
        rw [Function.update_self]
        exact Or.inl rfl
      · rw [if_neg hlast] at h
        cases h

/-- A worker that calls the task it holds has it no longer to call. -/
theorem RunOnce.call (hs : s.RunOnce) {i : ℕ} {task : T} (hplace : s.place w = .holding i task) :
    RunOnce { s.move w (.running i task) with runs := s.runs ++ [(w, i)] } := by
  obtain ⟨hpopped, hnot⟩ := hs.held w i task (by rw [hplace]; rfl)
  have hmem : ∀ v j, (v, j) ∈ s.runs ++ [(w, i)] ↔ (v, j) ∈ s.runs ∨ (v = w ∧ j = i) := by
    intro v j
    rw [List.mem_append, List.mem_singleton, Prod.mk.injEq]
  refine ⟨?_, fun v j h => ?_, fun v j task' h => ?_, fun v j task' h => ?_⟩
  · show ((s.runs ++ [(w, i)]).map Prod.snd).Nodup
    rw [List.map_append]
    refine List.nodup_append.mpr ⟨hs.once, List.nodup_singleton i, fun j hj k hk => ?_⟩
    rintro rfl
    obtain ⟨⟨v, j⟩, hrun, rfl⟩ := List.mem_map.mp hj
    obtain rfl := List.mem_singleton.mp hk
    exact hnot v hrun
  · rcases (hmem v j).mp h with h | ⟨rfl, rfl⟩
    · exact hs.popped v j h
    · exact ⟨task, hpopped⟩
  · have h : (Function.update s.place w _ v).held? = some (j, task') := h
    by_cases hv : v = w
    · rw [hv, Function.update_self] at h
      cases h
    · rw [Function.update_of_ne hv] at h
      obtain ⟨hpopped', hnot'⟩ := hs.held v j task' h
      refine ⟨hpopped', fun u hu => ?_⟩
      rcases (hmem u j).mp hu with hu | ⟨-, rfl⟩
      · exact hnot' u hu
      · -- one position, popped by two workers
        rw [hpopped, Option.some_inj, Prod.mk.injEq] at hpopped'
        exact hv hpopped'.1.symm
  · show (Function.update s.place w _ v).held? = some (j, task') ∨ (v, j) ∈ s.runs ++ [(w, i)]
    rw [hmem]
    rcases hs.all v j task' h with h | h
    · by_cases hv : v = w
      · rw [hv, hplace] at h
        obtain ⟨rfl, rfl⟩ := Prod.mk.inj (Option.some.inj h)
        exact Or.inr (Or.inr ⟨hv, rfl⟩)
      · rw [Function.update_of_ne hv]
        exact Or.inl h
    · exact Or.inr (Or.inl h)

theorem RunOnce.step (hs : s.RunOnce) (hstep : s.step e = some s') : s'.RunOnce := by
  cases step_cases hstep with
  | @push task wakes hstop hwakes =>
    refine hs.quiet rfl rfl fun v => ?_
    cases wakes with
    | none => rfl
    | some w => exact held?_move (Place.held?_of_isBlocked hwakes) rfl v
  | enter hplace => exact hs.quiet rfl rfl (held?_move (by rw [hplace]; rfl) rfl)
  | leave hplace => exact hs.quiet rfl rfl (held?_move (by rw [hplace]; rfl) rfl)
  | block hplace => exact hs.quiet rfl rfl (held?_move (Place.held?_of_isTesting hplace) rfl)
  | pop hplace => exact hs.pop _ hplace
  | wakeUp hplace => exact hs.quiet rfl rfl (held?_move (Place.held?_of_isBlocked hplace) rfl)
  | call hplace => exact hs.call hplace
  | ret hplace => exact hs.quiet rfl rfl (held?_move (by rw [hplace]; rfl) rfl)
  | stop => exact hs.quiet rfl rfl fun _ => rfl
  | notifyAll => exact hs.quiet rfl rfl fun v => Place.held?_notified _

/-! ### Nobody sleeps beside a task -/

/-- The number of workers that are not blocked in the condition wait. -/
def awake (s : TaskQueue T N) : ℕ := Places.count (fun p => !p.isBlocked) s.place

/-- As many workers are awake as there are tasks, if there are as many workers. -/
def Attentive (s : TaskQueue T N) : Prop := min N s.queue.length ≤ s.awake

theorem awake_eq_of_forall (h : ∀ w, (s.place w).isBlocked = false) : s.awake = N := by
  rw [awake, Places.count_eq_card fun w => by rw [h]; rfl, Fintype.card_fin]

/-- A worker that does not block leaves no fewer awake. -/
theorem awake_move (s : TaskQueue T N) (w : Fin N) {p : Place T} (hp : p.isBlocked = false) :
    s.awake + (s.place w).isBlocked.toNat = (s.move w p).awake := by
  have hcount := Places.count_update (fun p => !p.isBlocked) s.place w p
  simp only [hp, Bool.not_false, Bool.toNat_true] at hcount
  show Places.count _ s.place + _ = Places.count _ (Function.update s.place w p)
  cases hw : (s.place w).isBlocked with
  | false =>
    simp only [hw, Bool.not_false, Bool.toNat_true] at hcount
    rw [Bool.toNat_false]
    omega
  | true =>
    simp only [hw, Bool.not_true, Bool.toNat_false] at hcount
    rw [Bool.toNat_true]
    omega

theorem Attentive.step (hs : s.Attentive) (hstep : s.step e = some s') : s'.Attentive := by
  -- a step of a worker that does not block, with no task added
  have hmove : ∀ {w : Fin N} {p : Place T}, p.isBlocked = false →
      min N s.queue.length ≤ (s.move w p).awake := fun hp => by
    rw [← awake_move s _ hp]
    exact Nat.le_add_right_of_le hs
  cases step_cases hstep with
  | @push task wakes hstop hwakes =>
    show min N (s.queue ++ [task]).length ≤ _
    rw [List.length_append, List.length_singleton]
    cases wakes with
    -- nobody is blocked, so there is nobody to be woken
    | none =>
      have hall : s.awake = N := awake_eq_of_forall hwakes
      show _ ≤ s.awake
      omega
    -- one task more, and one worker more that is awake
    | some w =>
      have hone := awake_move s w (p := .woken) rfl
      have hs : min N s.queue.length ≤ s.awake := hs
      rw [show (s.place w).isBlocked = true from hwakes, Bool.toNat_true] at hone
      show _ ≤ (s.move w .woken).awake
      omega
  | enter => exact hmove rfl
  | leave => exact hmove rfl
  | block hplace hqueue =>
    show min N s.queue.length ≤ _
    -- a worker blocks beside an empty queue only
    rw [hqueue, List.length_nil, Nat.min_zero]
    exact Nat.zero_le _
  | @pop w task queue hplace hqueue =>
    have hless : min N queue.length ≤ min N s.queue.length := by
      rw [hqueue, List.length_cons]
      omega
    exact hless.trans (hmove rfl)
  | wakeUp => exact hmove rfl
  | call => exact hmove rfl
  | ret => exact hmove rfl
  | stop => exact hs
  | notifyAll =>
    have hall : awake { s with notified := true, place := fun w => (s.place w).notified } = N :=
      awake_eq_of_forall fun w => Place.isBlocked_notified _
    show min N s.queue.length ≤ _
    rw [hall]
    exact Nat.min_le_left _ _

theorem attentive_init (T : Type*) (N : ℕ) : (init T N).Attentive := by
  show min N 0 ≤ _
  rw [Nat.min_zero]
  exact Nat.zero_le _

/-- **The task queue is exact.**  In every state of every run the tasks that were popped,
followed by those that wait, are the tasks that were pushed, in this order; each that was
popped is called by the worker that popped it, once; and as many workers are not blocked in
the condition wait as there are tasks that wait, if there are as many workers. -/
theorem queue_exact {T : Type*} {N : ℕ} (events : List (Event T N)) (s : TaskQueue T N)
    (hrun : Transition.runFrom step (init T N) events = some s) :
    s.popped.map Prod.snd ++ s.queue = events.filterMap Event.task? ∧ s.RunOnce ∧
      min N s.queue.length ≤ (Finset.univ.filter fun w => (s.place w).isBlocked = false).card := by
  have hattentive : s.Attentive :=
    Transition.runFrom_always (fun _ _ _ ht hstep => ht.step hstep) hrun (attentive_init T N)
  refine ⟨popped_append_queue hrun, ?_, ?_⟩
  · exact Transition.runFrom_always (fun _ _ _ ht hstep => ht.step hstep) hrun (runOnce_init T N)
  · simpa [Attentive, awake, Places.count] using hattentive

/-- Two tasks for two workers: both wait when the first task comes, the other one wakes up as
well, and takes the second. -/
def twoTasks (v w : Fin N) : List (Event Bool N) :=
  [.testStop v, .testQueue v, .testStop w, .testQueue w, .push true (some v), .testQueue v,
    .call v, .wakeUp w, .push false none, .testQueue w, .call w, .ret v, .testStop v, .testQueue v]

theorem queue_exact_twoTasks : ∃ s : TaskQueue Bool 2,
    Transition.runFrom step (init Bool 2) (twoTasks 0 1) = some s ∧
      s.popped.map Prod.snd ++ s.queue = [true, false] ∧ s.RunOnce ∧
      min 2 s.queue.length ≤ (Finset.univ.filter fun w => (s.place w).isBlocked = false).card := by
  have hpossible : (Transition.runFrom step (init Bool 2) (twoTasks 0 1)).isSome = true := by
    decide +kernel
  obtain ⟨s, hrun⟩ := Option.isSome_iff_exists.mp hpossible
  exact ⟨s, hrun, queue_exact (twoTasks 0 1) s hrun⟩

/-! ### The destructor -/

/-- The number of workers past the test of `m_stop` that have popped no task yet. -/
def waiting (s : TaskQueue T N) : ℕ := Places.count Place.isWaiting s.place

/-- What a worker does of itself. -/
def Event.ofWorker (w : Fin N) : List (Event T N) := [.testStop w, .testQueue w, .call w, .ret w]

/-- No worker can take a step, unless one wakes up without having been notified. -/
def Quiescent (s : TaskQueue T N) : Prop := ∀ w, ∀ e ∈ Event.ofWorker w, s.step e = none

theorem Quiescent.place (hs : s.Quiescent) (w : Fin N) :
    s.place w = .blocked ∨ s.place w = .left := by
  have hstop := hs w (.testStop w) (by simp [Event.ofWorker])
  have hqueue := hs w (.testQueue w) (by simp [Event.ofWorker])
  have hcall := hs w (.call w) (by simp [Event.ofWorker])
  have hret := hs w (.ret w) (by simp [Event.ofWorker])
  cases hplace : s.place w with
  | loop => simp [step, hplace] at hstop
  | entering =>
    simp only [step, hplace, Place.isTesting, if_true] at hqueue
    cases hempty : s.queue with
    | nil => simp [hempty] at hqueue
    | cons task queue => simp [hempty] at hqueue
  | blocked => exact Or.inl rfl
  | woken =>
    simp only [step, hplace, Place.isTesting, if_true] at hqueue
    cases hempty : s.queue with
    | nil => simp [hempty] at hqueue
    | cons task queue => simp [hempty] at hqueue
  | holding i task => simp [step, hplace] at hcall
  | running i task => simp [step, hplace] at hret
  | left => exact Or.inr rfl

theorem waiting_move (s : TaskQueue T N) (w : Fin N) (p : Place T) :
    (s.move w p).waiting + (s.place w).isWaiting.toNat = s.waiting + p.isWaiting.toNat :=
  Places.count_update Place.isWaiting s.place w p

/-- Once the flag is set, the workers that wait and the tasks that wait are fewer by the same
number. -/
def Balanced (u s : TaskQueue T N) : Prop :=
  s.stop = true ∧ s.waiting + u.queue.length = u.waiting + s.queue.length

theorem Balanced.step {u : TaskQueue T N} (hs : Balanced u s) (hstep : s.step e = some s') :
    Balanced u s' := by
  obtain ⟨hstop, hbalance⟩ := hs
  -- a worker that is waiting before and after, or neither
  have hmove : ∀ {w : Fin N} {p : Place T}, (s.place w).isWaiting = p.isWaiting →
      (s.move w p).waiting + u.queue.length = u.waiting + s.queue.length := by
    intro w p hw
    have hcount := waiting_move s w p
    rw [hw] at hcount
    omega
  cases step_cases hstep with
  | push hrunning => exact absurd (hrunning.symm.trans hstop) (by simp)
  | enter hplace hrunning => exact absurd (hrunning.symm.trans hstop) (by simp)
  | leave hplace => exact ⟨hstop, hmove (by rw [hplace]; rfl)⟩
  | block hplace => exact ⟨hstop, hmove (by rw [Place.isWaiting, hplace]; rfl)⟩
  | @pop w task queue hplace hqueue =>
    have hcount := waiting_move s w (.holding s.popped.length task)
    rw [Place.isWaiting, hplace, Bool.true_or, Bool.toNat_true] at hcount
    have hnot : (Place.holding s.popped.length task).isWaiting = false := rfl
    rw [hnot, Bool.toNat_false] at hcount
    rw [hqueue, List.length_cons] at hbalance
    refine ⟨hstop, ?_⟩
    show (s.move w _).waiting + _ = _ + queue.length
    omega
  | wakeUp hplace => exact ⟨hstop, hmove (by rw [Place.isWaiting, hplace, Bool.or_true]; rfl)⟩
  | call hplace => exact ⟨hstop, hmove (by rw [hplace]; rfl)⟩
  | ret hplace => exact ⟨hstop, hmove (by rw [hplace]; rfl)⟩
  | stop hrunning => exact absurd (hrunning.symm.trans hstop) (by simp)
  | notifyAll =>
    refine ⟨hstop, ?_⟩
    have hsame : Places.count Place.isWaiting (fun w => (s.place w).notified) =
        Places.count Place.isWaiting s.place := by
      refine Places.count_congr fun w => ?_
      cases s.place w with
      | _ => rfl
    show Places.count Place.isWaiting (fun w => (s.place w).notified) + _ = _
    rw [hsame]
    exact hbalance

/-- The flag is set, and a worker is blocked only when no task is left. -/
def Drained (s : TaskQueue T N) : Prop :=
  s.stop = true ∧ ∀ w, (s.place w).isBlocked = true → s.queue = []

theorem isBlocked_of_move {p : Place T} (hp : p.isBlocked = false) {v : Fin N}
    (h : ((s.move w p).place v).isBlocked = true) : (s.place v).isBlocked = true := by
  have h : (Function.update s.place w p v).isBlocked = true := h
  by_cases hv : v = w
  · rw [hv, Function.update_self, hp] at h
    cases h
  · rwa [Function.update_of_ne hv] at h

theorem drained_notifyAll (hstop : s.stop = true) :
    Drained { s with notified := true, place := fun w => (s.place w).notified } := by
  refine ⟨hstop, fun w hw => ?_⟩
  have hw : (s.place w).notified.isBlocked = true := hw
  rw [Place.isBlocked_notified] at hw
  cases hw

theorem Drained.step (hs : s.Drained) (hstep : s.step e = some s') : s'.Drained := by
  have hmove : ∀ {w : Fin N} {p : Place T}, p.isBlocked = false → (s.move w p).Drained :=
    fun hp => ⟨hs.1, fun v hv => hs.2 v (isBlocked_of_move hp hv)⟩
  cases step_cases hstep with
  -- nothing is pushed once the flag is set
  | push hrunning => exact absurd (hrunning.symm.trans hs.1) (by simp)
  | enter => exact hmove rfl
  | leave => exact hmove rfl
  | block hplace hqueue => exact ⟨hs.1, fun _ _ => hqueue⟩
  | pop hplace hqueue =>
    refine ⟨hs.1, fun v hv => ?_⟩
    have hnone : s.queue = [] := hs.2 v (isBlocked_of_move rfl hv)
    rw [hqueue] at hnone
    cases hnone
  | wakeUp => exact hmove rfl
  | call => exact hmove rfl
  | ret => exact hmove rfl
  | stop hrunning => exact absurd (hrunning.symm.trans hs.1) (by simp)
  | notifyAll hstop => exact drained_notifyAll hstop

/-- So it is from `notify_all` on. -/
theorem drained_of_run {events : List (Event T N)}
    (hrun : Transition.runFrom step (init T N) events = some s) (hnotified : s.notified = true) :
    s.Drained := by
  refine Transition.runFrom_always (J := fun t => t.notified = true → t.Drained) ?_ hrun
    (fun h => by cases h) hnotified
  intro t e t' ht hstep hnotified'
  by_cases hbefore : t.notified = true
  · exact (ht hbefore).step hstep
  · cases step_cases hstep with
    | notifyAll hstop => exact drained_notifyAll hstop
    | _ => exact absurd hnotified' hbefore

/-- How many steps a worker can take at most, once the flag is set. -/
def rank : Place T → ℕ
  | .loop => 1
  | .entering => 4
  | .blocked => 0
  | .woken => 4
  | .holding _ _ => 3
  | .running _ _ => 2
  | .left => 0

theorem rank_lt (hstop : s.stop = true) (he : e ∈ Event.ofWorker w) (hstep : s.step e = some s') :
    s'.stop = true ∧ Places.total rank s'.place < Places.total rank s.place := by
  have hmove : ∀ {w : Fin N} {p : Place T}, rank p < rank (s.place w) →
      Places.total rank (Function.update s.place w p) < Places.total rank s.place := by
    intro w p hlt
    have htotal := Places.total_update rank s.place w p
    omega
  have htesting : ∀ {p : Place T}, p.isTesting = true → rank p = 4 := by
    intro p hp
    cases p with
    | entering => rfl
    | woken => rfl
    | _ => cases hp
  cases step_cases hstep with
  | enter hplace hrunning => exact absurd (hrunning.symm.trans hstop) (by simp)
  | leave hplace => exact ⟨hstop, hmove (by rw [hplace]; simp [rank])⟩
  | block hplace => exact ⟨hstop, hmove (by rw [htesting hplace]; simp [rank])⟩
  | pop hplace => exact ⟨hstop, hmove (by rw [htesting hplace]; simp [rank])⟩
  | call hplace => exact ⟨hstop, hmove (by rw [hplace]; simp [rank])⟩
  | ret hplace => exact ⟨hstop, hmove (by rw [hplace]; simp [rank])⟩
  | push => simp [Event.ofWorker] at he
  | wakeUp => simp [Event.ofWorker] at he
  | stop => simp [Event.ofWorker] at he
  | notifyAll => simp [Event.ofWorker] at he

/-- Left to themselves, the workers come to rest once the flag is set. -/
theorem exists_quiescent (hstop : s.stop = true) :
    ∃ more t, Transition.runFrom step s more = some t ∧ t.Quiescent := by
  induction hn : Places.total rank s.place using Nat.strong_induction_on generalizing s with
  | _ n ih =>
    by_cases hquiescent : s.Quiescent
    · exact ⟨[], s, rfl, hquiescent⟩
    · simp only [Quiescent, not_forall] at hquiescent
      obtain ⟨w, e, he, hstep⟩ := hquiescent
      obtain ⟨s', hstep⟩ := Option.ne_none_iff_exists'.mp hstep
      obtain ⟨hstop', hlt⟩ := rank_lt hstop he hstep
      obtain ⟨more, t, hrun, ht⟩ := ih _ (hn ▸ hlt) hstop' rfl
      refine ⟨e :: more, t, ?_, ht⟩
      rw [Transition.runFrom_cons, hstep, Option.bind_some, hrun]

/-- The flag has been set by a step of the run. -/
theorem takes_stop {events : List (Event T N)}
    (hrun : Transition.runFrom step (init T N) events = some s) :
    s.stop = true → ∃ u, Transition.Takes step (init T N) events u .stop := by
  refine Transition.runFrom_induction (G := fun _ _ => True)
    (J := fun es t => t.stop = true → ∃ u, Transition.Takes step (init T N) es u .stop)
    (fun h => by cases h) ?_ hrun (fun _ _ _ => trivial)
  intro es t e t' hes ht _ hstep hstop
  have hearlier : t.stop = true → ∃ u, Transition.Takes step (init T N) (es ++ [e]) u .stop := by
    intro h
    obtain ⟨u, pre, hpre, hu⟩ := ht h
    exact ⟨u, pre, hpre.trans (List.prefix_append es [e]), hu⟩
  cases step_cases hstep with
  | stop => exact ⟨t, es, List.prefix_refl _, hes⟩
  | _ => exact hearlier hstop

/-- From the step that sets the flag on, the balance is kept. -/
theorem balanced_of_takes {events : List (Event T N)} {u : TaskQueue T N}
    (hrun : Transition.runFrom step (init T N) events = some s)
    (h : Transition.Takes step (init T N) events u .stop) : Balanced u s := by
  obtain ⟨pre, ⟨rest, rfl⟩, hu⟩ := h
  rw [List.append_assoc, Transition.runFrom_append, hu, Option.bind_some, List.singleton_append,
    Transition.runFrom_cons, Option.bind_eq_some_iff] at hrun
  obtain ⟨u', hu', hrun⟩ := hrun
  have hstart : Balanced u u' := by
    cases step_cases hu' with
    | stop => exact ⟨rfl, rfl⟩
  exact Transition.runFrom_always (fun _ _ _ ht hstep => ht.step hstep) hrun hstart

/-- **The destructor's joins return exactly when, as `m_stop` is set, no more workers are past
the test of it without a task than there are tasks in the queue.**  Otherwise some of them find
the queue empty, and block where nothing wakes them. -/
theorem joins_iff {T : Type*} {N : ℕ} (events : List (Event T N)) (s : TaskQueue T N)
    (hrun : Transition.runFrom step (init T N) events = some s) (hnotified : s.notified = true) :
    (∀ more t, Transition.runFrom step s more = some t → t.Quiescent → ∀ w, t.place w = .left) ↔
      ∀ u, Transition.Takes step (init T N) events u .stop → u.waiting ≤ u.queue.length := by
  have hdrained : s.Drained := drained_of_run hrun hnotified
  have hstop : s.stop = true := hdrained.1
  have hkept : ∀ more t, Transition.runFrom step s more = some t → ∀ u,
      Transition.Takes step (init T N) events u .stop → Balanced u t := fun more t hmore u hu =>
    Transition.runFrom_always (fun _ _ _ ht hstep => ht.step hstep) hmore
      (balanced_of_takes hrun hu)
  constructor
  · intro hall u hu
    obtain ⟨more, t, hmore, hquiescent⟩ := exists_quiescent hstop
    have hnone : t.waiting = 0 := Places.count_eq_zero.mpr fun w => by
      rw [hall more t hmore hquiescent w]
      rfl
    have hbalance := (hkept more t hmore u hu).2
    omega
  · intro hfew more t hmore hquiescent w
    obtain ⟨u, hu⟩ := takes_stop hrun hstop
    have hbalance := (hkept more t hmore u hu).2
    have hle := hfew u hu
    -- a worker at rest is blocked or has left; if it is blocked, the queue is empty and the
    -- balance leaves nobody waiting
    have hblocked : t.place w = .blocked → t.queue = [] := fun h =>
      (Transition.runFrom_always (fun _ _ _ ht hstep => Drained.step ht hstep) hmore hdrained).2 w
        (by rw [h]; rfl)
    refine (hquiescent.place w).resolve_left fun h => ?_
    rw [hblocked h, List.length_nil] at hbalance
    have hnone : t.waiting = 0 := by omega
    have hnot := Places.count_eq_zero.mp hnone w
    rw [h] at hnot
    cases hnot

/-- A worker that waits for its first task, and the destructor. -/
def stopIdle (v : Fin N) : List (Event Bool N) := [.testStop v, .testQueue v, .stop, .notifyAll]

/-- The same with a task in the queue. -/
def stopBusy (v : Fin N) : List (Event Bool N) :=
  [.testStop v, .push true none, .stop, .notifyAll]

theorem joins_iff_stopBusy : ∃ s : TaskQueue Bool 1,
    Transition.runFrom step (init Bool 1) (stopBusy 0) = some s ∧
      ((∀ more t, Transition.runFrom step s more = some t → t.Quiescent → ∀ w, t.place w = .left) ↔
        ∀ u, Transition.Takes step (init Bool 1) (stopBusy 0) u .stop →
          u.waiting ≤ u.queue.length) := by
  have hnotified : (Transition.runFrom step (init Bool 1) (stopBusy 0)).any
      (fun s => s.notified) = true := by
    decide +kernel
  obtain ⟨s, hrun, hs⟩ := (Option.any_eq_true _ _).mp hnotified
  exact ⟨s, hrun, joins_iff (stopBusy 0) s hrun hs⟩

/-- The worker tests the predicate, blocks again, and is never joined. -/
theorem not_joins : ∃ s t : TaskQueue Bool 1,
    Transition.runFrom step (init Bool 1) (stopIdle 0) = some s ∧ s.notified = true ∧
      Transition.runFrom step s [.testQueue 0] = some t ∧ t.Quiescent ∧ t.place 0 ≠ .left := by
  have hrun : (Transition.runFrom step (init Bool 1) (stopIdle 0)).any (fun s =>
      s.notified && (Transition.runFrom step s [.testQueue 0]).any fun t =>
        (t.place 0).isBlocked && t.queue.isEmpty) = true := by
    decide +kernel
  obtain ⟨s, hs, hrun⟩ := (Option.any_eq_true _ _).mp hrun
  rw [Bool.and_eq_true] at hrun
  obtain ⟨t, ht, hblocked⟩ := (Option.any_eq_true _ _).mp hrun.2
  rw [Bool.and_eq_true] at hblocked
  have hplace : t.place 0 = .blocked := by
    cases hplace : t.place 0 with
    | blocked => rfl
    | _ =>
      rw [hplace] at hblocked
      cases hblocked.1
  refine ⟨s, t, hs, hrun.1, ht, fun w e he => ?_, by rw [hplace]; simp⟩
  obtain rfl : w = 0 := Subsingleton.elim w 0
  simp only [Event.ofWorker, List.mem_cons, List.not_mem_nil, or_false] at he
  rcases he with rfl | rfl | rfl | rfl
  · rw [step, hplace]
  · rw [step, hplace]
    rfl
  · rw [step, hplace]
  · rw [step, hplace]

end TaskQueue

end SocketChat

/-
The workers as written come to rest.

`answers_inevitable` is about a `Pool`, whose free workers take the head of the queue.  Here
the workers wait in the condition variable of `SafeQueue`, so that a notification that is lost
could leave a task in the queue with all of them asleep.  From every state the workers can
reach before the pool is stopped, when nothing more is enqueued and nobody wakes up without
having been notified: whichever worker goes on at each moment, after finitely many steps all
of them are blocked beside an empty queue, and each task has been called and has returned
(`inevitable_rest`).  For the server each request has then been answered, provided that each
`PacketSender::send` returns (`requests_answered`).
-/
import SocketChat.Server.AnswersDue
import SocketChat.Server.TaskPool

universe u v

namespace SocketChat

namespace TaskPool

variable {Call : Type u} {Reply : Call → Type v} {σ τ ε : Type*} {N : ℕ}
  {S : Pool.System Reply σ τ ε} {s s' : TaskPool Reply σ τ N} {w : Fin N}

/-- What the workers do of themselves. -/
def Event.OfWorker : Event τ ε N → Prop
  | .queue e => ∃ w, e ∈ TaskQueue.Event.ofWorker w
  | .act _ => True
  | .env _ => False

/-- What has been enqueued. -/
def tasks (s : TaskPool Reply σ τ N) : List τ := s.queue.popped.map Prod.snd ++ s.queue.queue

/-! ### The order -/

/-- Where a worker can go next, unless it pops a task, and what is left of its program. -/
inductive Next : Place τ × Option (Prog Reply Unit) → Place τ × Option (Prog Reply Unit) → Prop
  | enter (p : Option (Prog Reply Unit)) : Next (.entering, p) (.loop, p)
  | leave (p : Option (Prog Reply Unit)) : Next (.left, p) (.loop, p)
  | block {place : Place τ} (hplace : place.isTesting = true) (p : Option (Prog Reply Unit)) :
      Next (.blocked, p) (place, p)
  | call (i : ℕ) (task : τ) (p : Option (Prog Reply Unit)) (p' : Prog Reply Unit) :
      Next (.running i task, some p') (.holding i task, p)
  | act (i : ℕ) (task : τ) {c : Call} (k : Reply c → Prog Reply Unit) (r : Reply c) :
      Next (.running i task, some (k r)) (.running i task, some (.call c k))
  | ret (i : ℕ) (task : τ) (a : Unit) : Next (.loop, none) (.running i task, some (.ret a))

theorem acc_blocked (p : Option (Prog Reply Unit)) :
    Acc (@Next Call Reply τ) (.blocked, p) := by
  refine Acc.intro _ fun x h => ?_
  cases h with
  | block hplace => cases hplace

theorem acc_testing {place : Place τ} (hplace : place.isTesting = true)
    (p : Option (Prog Reply Unit)) : Acc (@Next Call Reply τ) (place, p) := by
  refine Acc.intro _ fun x h => ?_
  cases h with
  | block => exact acc_blocked p
  | enter => cases hplace
  | leave => cases hplace
  | call => cases hplace
  | act => cases hplace
  | ret => cases hplace

theorem acc_left (p : Option (Prog Reply Unit)) : Acc (@Next Call Reply τ) (.left, p) := by
  refine Acc.intro _ fun x h => ?_
  cases h with
  | block hplace => cases hplace

theorem acc_loop (p : Option (Prog Reply Unit)) : Acc (@Next Call Reply τ) (.loop, p) := by
  refine Acc.intro _ fun x h => ?_
  cases h with
  | enter => exact acc_testing rfl p
  | leave => exact acc_left p
  | block hplace => cases hplace

theorem acc_running (i : ℕ) (task : τ) (p : Option (Prog Reply Unit)) :
    Acc (@Next Call Reply τ) (.running i task, p) := by
  cases p with
  | none =>
    refine Acc.intro _ fun x h => ?_
    cases h with
    | block hplace => cases hplace
  | some p =>
    -- a program ends, whatever its calls return
    induction p with
    | ret a =>
      refine Acc.intro _ fun x h => ?_
      cases h with
      | ret => exact acc_loop none
      | block hplace => cases hplace
    | call c k ih =>
      refine Acc.intro _ fun x h => ?_
      cases h with
      | act i task k r => exact ih r
      | block hplace => cases hplace

theorem wellFounded_next : WellFounded (@Next Call Reply τ) := by
  refine ⟨fun ⟨place, p⟩ => ?_⟩
  cases place with
  | loop => exact acc_loop p
  | entering => exact acc_testing rfl p
  | blocked => exact acc_blocked p
  | woken => exact acc_testing rfl p
  | holding i task =>
    refine Acc.intro _ fun x h => ?_
    cases h with
    | call => exact acc_running i task _
    | block hplace => cases hplace
  | running i task => exact acc_running i task p
  | left => exact acc_left p

/-- How many tasks wait, and where the workers are. -/
def load (s : TaskPool Reply σ τ N) : ℕ × Multiset (Place τ × Option (Prog Reply Unit)) :=
  (s.queue.queue.length, ∑ w, {(s.queue.place w, s.program w)})

/-- A worker goes on. -/
theorem load_update {place : Place τ} {program : Option (Prog Reply Unit)}
    (h : Next (place, program) (s.queue.place w, s.program w)) :
    Relation.CutExpand Next
      (∑ v, {(Function.update s.queue.place w place v, Function.update s.program w program v)})
      (∑ v, {(s.queue.place v, s.program v)}) := by
  have hpair : (fun v => (Function.update s.queue.place w place v,
      Function.update s.program w program v)) =
      Function.update (fun v => (s.queue.place v, s.program v)) w (place, program) := by
    funext v
    by_cases hv : v = w
    · rw [hv, Function.update_self, Function.update_self, Function.update_self]
    · rw [Function.update_of_ne hv, Function.update_of_ne hv, Function.update_of_ne hv]
  have hcut := Pool.cutExpand_update (f := fun v => (s.queue.place v, s.program v)) h
  rw [← hpair] at hcut
  exact hcut

/-- A worker that does not come to another program. -/
theorem load_move {place : Place τ} (h : Next (place, s.program w) (s.queue.place w, s.program w)) :
    Relation.CutExpand Next
      (∑ v, {(Function.update s.queue.place w place v, s.program v)})
      (∑ v, {(s.queue.place v, s.program v)}) := by
  have hcut := load_update h
  rwa [Function.update_eq_self] at hcut

/-- A worker whose program goes on where it is. -/
theorem load_program {program : Option (Prog Reply Unit)}
    (h : Next (s.queue.place w, program) (s.queue.place w, s.program w)) :
    Relation.CutExpand Next
      (∑ v, {(s.queue.place v, Function.update s.program w program v)})
      (∑ v, {(s.queue.place v, s.program v)}) := by
  have hcut := load_update h
  rwa [Function.update_eq_self] at hcut

/-! ### The steps of the workers -/

/-- A step of the queue. -/
theorem step_queue {e : TaskQueue.Event τ N} {queue : TaskQueue τ N}
    (hallows : s.Allows S e = true) (hstep : s.queue.step e = some queue) :
    s.step S (.queue e) = some { s with queue := queue, program := s.programs S e } := by
  rw [step, if_pos hallows, hstep]
  rfl

/-- What a step can do. -/
inductive Step (S : Pool.System Reply σ τ ε) (s : TaskPool Reply σ τ N) :
    Event τ ε N → TaskPool Reply σ τ N → Prop
  | queue {e : TaskQueue.Event τ N} {queue : TaskQueue τ N} (hallows : s.Allows S e = true)
      (hqueue : s.queue.step e = some queue) :
      Step S s (.queue e) { s with queue := queue, program := s.programs S e }
  | env {e : ε} {shared : σ} (henv : S.env s.shared e = some shared) :
      Step S s (.env e) { s with shared := shared }
  | act {w : Fin N} {i : ℕ} {task : τ} {c : Call} {k : Reply c → Prog Reply Unit}
      (hplace : s.queue.place w = .running i task) (hprogram : s.program w = some (.call c k)) :
      Step S s (.act w) { s with
        shared := (S.serve c s.shared).2
        program := Function.update s.program w (some (k (S.serve c s.shared).1)) }

theorem step_cases {e : Event τ ε N} (hstep : s.step S e = some s') : Step S s e s' := by
  cases e with
  | queue e =>
    rw [step] at hstep
    by_cases hallows : s.Allows S e = true
    · rw [if_pos hallows, Option.map_eq_some_iff] at hstep
      obtain ⟨queue, hqueue, rfl⟩ := hstep
      exact Step.queue hallows hqueue
    · rw [if_neg hallows] at hstep
      cases hstep
  | env e =>
    obtain ⟨shared, henv, rfl⟩ := Option.map_eq_some_iff.mp hstep
    exact Step.env henv
  | act w =>
    rw [step] at hstep
    cases hplace : s.queue.place w with
    | running i task =>
      cases hprogram : s.program w with
      | none =>
        rw [hplace, hprogram] at hstep
        cases hstep
      | some p =>
        cases p with
        | ret a =>
          rw [hplace, hprogram] at hstep
          cases hstep
        | call c k =>
          rw [hplace, hprogram] at hstep
          obtain rfl := Option.some.inj hstep
          exact Step.act hplace hprogram
    | _ =>
      rw [hplace] at hstep
      cases hstep

/-- A task that returns has come to the end of its program. -/
theorem program_of_allows_ret (h : s.Allows S (.ret w) = true) :
    ∃ a, s.program w = some (.ret a) := by
  rw [Allows] at h
  cases hprogram : s.program w with
  | none =>
    rw [hprogram] at h
    cases h
  | some p =>
    cases p with
    | ret a => exact ⟨a, rfl⟩
    | call c k =>
      rw [hprogram] at h
      cases h

/-- A step of the queue that a worker takes lightens the load. -/
theorem load_queue {e : TaskQueue.Event τ N} {queue : TaskQueue τ N}
    (he : e ∈ TaskQueue.Event.ofWorker w) (hallows : s.Allows S e = true)
    (hqueue : s.queue.step e = some queue) :
    Prod.Lex (· < ·) (Relation.CutExpand Next)
      (load { s with queue := queue, program := s.programs S e }) s.load := by
  cases TaskQueue.step_cases hqueue with
  | @enter v hplace hstop =>
    have hnext : Next (.entering, s.program v) (s.queue.place v, s.program v) := by
      rw [hplace]
      exact Next.enter _
    exact Prod.Lex.right _ (load_move hnext)
  | @leave v hplace hstop =>
    have hnext : Next (.left, s.program v) (s.queue.place v, s.program v) := by
      rw [hplace]
      exact Next.leave _
    exact Prod.Lex.right _ (load_move hnext)
  | @block v hplace hempty => exact Prod.Lex.right _ (load_move (Next.block hplace (s.program v)))
  | @pop v task queue hplace hwaits =>
    refine Prod.Lex.left _ _ ?_
    show queue.length < s.queue.queue.length
    rw [hwaits, List.length_cons]
    exact Nat.lt_succ_self _
  | @call v i task hplace =>
    have hprograms : s.programs S (.call v) =
        Function.update s.program v (some (S.program task)) := by
      rw [programs, hplace]
    have hnext : Next (.running i task, some (S.program task))
        (s.queue.place v, s.program v) := by
      rw [hplace]
      exact Next.call i task _ _
    rw [hprograms]
    exact Prod.Lex.right _ (load_update hnext)
  | @ret v i task hplace =>
    obtain ⟨a, hprogram⟩ := program_of_allows_ret hallows
    have hnext : Next (.loop, none) (s.queue.place v, s.program v) := by
      rw [hplace, hprogram]
      exact Next.ret i task a
    exact Prod.Lex.right _ (load_update hnext)
  | push => simp [TaskQueue.Event.ofWorker] at he
  | wakeUp => simp [TaskQueue.Event.ofWorker] at he
  | stop => simp [TaskQueue.Event.ofWorker] at he
  | notifyAll => simp [TaskQueue.Event.ofWorker] at he

/-- A step of the workers lightens the load. -/
theorem load_step {e : Event τ ε N} (he : e.OfWorker) (hstep : s.step S e = some s') :
    Prod.Lex (· < ·) (Relation.CutExpand Next) s'.load s.load := by
  cases step_cases hstep with
  | queue hallows hqueue =>
    obtain ⟨w, he⟩ := he
    exact load_queue he hallows hqueue
  | env => exact he.elim
  | @act w i task c k hplace hprogram =>
    have hnext : Next (s.queue.place w, some (k (S.serve c s.shared).1))
        (s.queue.place w, s.program w) := by
      rw [hplace, hprogram]
      exact Next.act i task k _
    exact Prod.Lex.right _ (load_program hnext)

/-- **The workers alone come to an end.** -/
theorem wellFounded_worker (S : Pool.System Reply σ τ ε) :
    WellFounded fun s' s : TaskPool Reply σ τ N =>
      ∃ e, Event.OfWorker e ∧ step S s e = some s' := by
  refine Subrelation.wf (r := InvImage (Prod.Lex (· < ·) (Relation.CutExpand Next)) load) ?_
    (InvImage.wf load (WellFounded.prod_lex Nat.lt_wfRel.wf wellFounded_next.cutExpand))
  rintro s' s ⟨e, he, hstep⟩
  exact load_step he hstep

/-! ### What the workers keep -/

/-- What every step of the queue keeps. -/
theorem keeps_queue {J : TaskQueue τ N → Prop}
    (hJ : ∀ q e q', J q → q.step e = some q' → J q') {e : Event τ ε N} (hs : J s.queue)
    (hstep : s.step S e = some s') : J s'.queue := by
  cases step_cases hstep with
  | queue hallows hqueue => exact hJ _ _ _ hs hqueue
  | env => exact hs
  | act => exact hs

/-- Every worker in a task has a program. -/
def HaveProgram (place : Fin N → Place τ) (program : Fin N → Option (Prog Reply Unit)) : Prop :=
  ∀ w i task, place w = .running i task → (program w).isSome = true

theorem HaveProgram.update {place : Fin N → Place τ} {program : Fin N → Option (Prog Reply Unit)}
    (h : HaveProgram place program) (w : Fin N) {p : Place τ} (prog : Option (Prog Reply Unit))
    (hp : ∀ i task, p = .running i task → prog.isSome = true) :
    HaveProgram (Function.update place w p) (Function.update program w prog) := by
  intro v i task hv
  by_cases hvw : v = w
  · subst hvw
    rw [Function.update_self] at hv ⊢
    exact hp i task hv
  · rw [Function.update_of_ne hvw] at hv ⊢
    exact h v i task hv

theorem HaveProgram.move {place : Fin N → Place τ} {program : Fin N → Option (Prog Reply Unit)}
    (h : HaveProgram place program) (w : Fin N) {p : Place τ}
    (hp : ∀ i task, p ≠ .running i task) :
    HaveProgram (Function.update place w p) program := by
  have hupdate := h.update w (program w) fun i task heq => absurd heq (hp i task)
  rwa [Function.update_eq_self] at hupdate

theorem HaveProgram.queue (h : HaveProgram s.queue.place s.program) {e : TaskQueue.Event τ N}
    {queue : TaskQueue τ N} (hqueue : s.queue.step e = some queue) :
    HaveProgram queue.place (s.programs S e) := by
  cases TaskQueue.step_cases hqueue with
  | @push task wakes hstop hwakes =>
    cases wakes with
    | none => exact h
    | some w => exact h.move w (by simp)
  | @enter w hplace hstop => exact h.move w (by simp)
  | @leave w hplace hstop => exact h.move w (by simp)
  | @block w hplace hempty => exact h.move w (by simp)
  | @pop w task queue hplace hwaits => exact h.move w (by simp)
  | @wakeUp w hplace => exact h.move w (by simp)
  | @call w i task hplace =>
    have hprograms : s.programs S (.call w) =
        Function.update s.program w (some (S.program task)) := by
      rw [programs, hplace]
    rw [hprograms]
    exact h.update w _ fun _ _ _ => rfl
  | @ret w i task hplace => exact h.update w none (by simp)
  | stop => exact h
  | notifyAll =>
    intro w i task hw
    have hw : (s.queue.place w).notified = .running i task := hw
    cases hplace : s.queue.place w with
    | running j task' => exact h w j task' hplace
    | _ =>
      rw [hplace] at hw
      cases hw

/-- A worker only leaves the loop once the flag is set. -/
def LeftStopped (q : TaskQueue τ N) : Prop := ∀ w, q.place w = .left → q.stop = true

theorem LeftStopped.step {q q' : TaskQueue τ N} {e : TaskQueue.Event τ N} (h : LeftStopped q)
    (hstep : q.step e = some q') : LeftStopped q' := by
  have hmove : ∀ (w : Fin N) {p : Place τ}, p ≠ .left → LeftStopped (q.move w p) := by
    intro w p hp v hv
    have hv : Function.update q.place w p v = .left := hv
    by_cases hvw : v = w
    · rw [hvw, Function.update_self] at hv
      exact absurd hv hp
    · rw [Function.update_of_ne hvw] at hv
      exact h v hv
  cases TaskQueue.step_cases hstep with
  | @push task wakes hstop hwakes =>
    cases wakes with
    | none => exact h
    | some w => exact hmove w (by simp)
  | @enter w hplace hstop => exact hmove w (by simp)
  | leave hplace hstop => exact fun _ _ => hstop
  | @block w hplace hempty => exact hmove w (by simp)
  | @pop w task queue hplace hwaits => exact hmove w (by simp)
  | @wakeUp w hplace => exact hmove w (by simp)
  | @call w i task hplace => exact hmove w (by simp)
  | @ret w i task hplace => exact hmove w (by simp)
  | stop => exact fun _ _ => rfl
  | notifyAll hstop hnotified => exact fun _ _ => hstop

/-- What holds of the workers in every state. -/
structure Sound (s : TaskPool Reply σ τ N) : Prop where
  attentive : s.queue.Attentive
  once : s.queue.RunOnce
  left : LeftStopped s.queue
  program : HaveProgram s.queue.place s.program

theorem sound_init (x : σ) : (init Reply τ N x).Sound where
  attentive := TaskQueue.attentive_init τ N
  once := TaskQueue.runOnce_init τ N
  left _ h := by cases h
  program _ _ _ h := by cases h

theorem Sound.step (h : s.Sound) {e : Event τ ε N} (hstep : s.step S e = some s') : s'.Sound where
  attentive := keeps_queue (fun _ _ _ hq hstep => hq.step hstep) h.attentive hstep
  once := keeps_queue (fun _ _ _ hq hstep => hq.step hstep) h.once hstep
  left := keeps_queue (fun _ _ _ hq hstep => hq.step hstep) h.left hstep
  program := by
    cases step_cases hstep with
    | queue hallows hqueue => exact h.program.queue hqueue
    | env => exact h.program
    | @act w i task c k hplace hprogram =>
      have hupdate := h.program.update w (p := s.queue.place w)
        (some (k (S.serve c s.shared).1)) fun _ _ _ => rfl
      rwa [Function.update_eq_self] at hupdate

/-! ### At rest -/

/-- All workers are blocked beside an empty queue. -/
def Rest (s : TaskPool Reply σ τ N) : Prop :=
  s.queue.queue = [] ∧ ∀ w, s.queue.place w = .blocked

/-- Where all workers are blocked no task waits: no notification has been lost. -/
theorem rest_of_blocked (h : s.Sound) (w : Fin N) (hall : ∀ w, s.queue.place w = .blocked) :
    s.Rest := by
  have hawake : s.queue.awake = 0 := Places.count_eq_zero.mpr fun v => by
    rw [hall v]
    rfl
  have hattentive : min N s.queue.queue.length ≤ s.queue.awake := h.attentive
  have hN : 0 < N := w.pos
  exact ⟨List.length_eq_zero_iff.mp (by omega), hall⟩

/-- Unless all is at rest, a worker can go on. -/
theorem rest_or_moves (h : s.Sound) (hstop : s.queue.stop = false) (w : Fin N) :
    s.Rest ∨ ∃ e s', Event.OfWorker e ∧ s.step S e = some s' := by
  by_cases hquiescent : s.queue.Quiescent
  · refine Or.inl (rest_of_blocked h w fun v => (hquiescent.place v).resolve_right fun hleft => ?_)
    have hstop' := h.left v hleft
    rw [hstop] at hstop'
    cases hstop'
  · simp only [TaskQueue.Quiescent, not_forall] at hquiescent
    obtain ⟨v, e, he, hqueue⟩ := hquiescent
    obtain ⟨queue, hqueue⟩ := Option.ne_none_iff_exists'.mp hqueue
    refine Or.inr ?_
    by_cases hallows : s.Allows S e = true
    · exact ⟨.queue e, _, ⟨v, he⟩, step_queue hallows hqueue⟩
    · -- the task has calls to make before it returns
      cases TaskQueue.step_cases hqueue with
      | @ret w i task hplace =>
        obtain ⟨p, hp⟩ := Option.isSome_iff_exists.mp (h.program w i task hplace)
        rw [Allows, hp] at hallows
        cases p with
        | ret a => exact absurd rfl hallows
        | call c k => exact ⟨.act w, _, trivial, by rw [TaskPool.step, hplace, hp]⟩
      | push => simp [TaskQueue.Event.ofWorker] at he
      | _ => exact absurd rfl hallows

theorem stop_worker {e : Event τ ε N} (he : e.OfWorker) (hstep : s.step S e = some s') :
    s'.queue.stop = s.queue.stop ∧ s'.tasks = s.tasks := by
  cases step_cases hstep with
  | env => exact he.elim
  | act => exact ⟨rfl, rfl⟩
  | queue hallows hqueue =>
    obtain ⟨w, he⟩ := he
    cases TaskQueue.step_cases hqueue with
    | @pop v task queue hplace hwaits =>
      refine ⟨rfl, ?_⟩
      show (s.queue.popped ++ [(v, task)]).map Prod.snd ++ queue = s.tasks
      rw [tasks, hwaits, List.map_append, List.append_assoc]
      rfl
    | enter => exact ⟨rfl, rfl⟩
    | leave => exact ⟨rfl, rfl⟩
    | block => exact ⟨rfl, rfl⟩
    | call => exact ⟨rfl, rfl⟩
    | ret => exact ⟨rfl, rfl⟩
    | push => simp [TaskQueue.Event.ofWorker] at he
    | wakeUp => simp [TaskQueue.Event.ofWorker] at he
    | stop => simp [TaskQueue.Event.ofWorker] at he
    | notifyAll => simp [TaskQueue.Event.ofWorker] at he

/-- A pool is quiet when the workers that refine it are at rest. -/
theorem Refines.quiet_of_rest {u : Pool Reply σ τ N} (h : Refines S s u) (hrest : s.Rest) :
    u.Quiet := by
  refine ⟨?_, fun w => ?_⟩
  · rw [h.queue, hrest.1]
    rfl
  · rw [h.worker w, hrest.2 w]
    rfl

/-- At rest each task that has been enqueued has been called, and once. -/
theorem Rest.runs_perm (hrest : s.Rest) (h : s.Sound) :
    (s.queue.runs.map Prod.snd).Perm (List.range s.tasks.length) := by
  have hlength : s.tasks.length = s.queue.popped.length := by
    rw [tasks, hrest.1, List.append_nil, List.length_map]
  refine (List.perm_ext_iff_of_nodup h.once.once List.nodup_range).mpr fun i => ?_
  rw [List.mem_range, hlength]
  constructor
  · intro hi
    obtain ⟨⟨w, i⟩, hrun, rfl⟩ := List.mem_map.mp hi
    obtain ⟨task, htask⟩ := h.once.popped w i hrun
    exact (List.getElem?_eq_some_iff.mp htask).1
  · intro hi
    -- nobody at rest holds a task
    have hcalled := (h.once.all _ i s.queue.popped[i].2 (List.getElem?_eq_getElem hi)).resolve_left
      (by rw [hrest.2]; exact fun hheld => by cases hheld)
    exact List.mem_map_of_mem hcalled

/-- **The workers come to rest.**  What they keep of the pool that they refine holds then. -/
theorem inevitable_rest (h : s.Sound) (hstop : s.queue.stop = false) (w : Fin N)
    {J : Pool Reply σ τ N → Prop}
    (hkeep : ∀ u e u', J u → Pool.step S u e = some u' → J u')
    (hrefines : ∃ u, Refines S s u ∧ J u) :
    Transition.Inevitable (step S) Event.OfWorker (fun s' => s'.Rest ∧ s'.Sound ∧
      s'.tasks = s.tasks ∧ ∃ u, Refines S s' u ∧ J u) s := by
  refine Transition.Inevitable.of_wellFounded
    (J := fun s' => s'.queue.stop = false ∧ s'.Sound ∧ s'.tasks = s.tasks ∧
      ∃ u, Refines S s' u ∧ J u)
    (wellFounded_worker S) ?_ ?_ ⟨hstop, h, rfl, hrefines⟩
  · rintro s' e s'' ⟨hstop', hsound, htasks, u, hu, hJ⟩ he hstep
    obtain ⟨hstop'', htasks'⟩ := stop_worker he hstep
    obtain ⟨fs, u', hrun, hu'⟩ := hu.step hstep
    exact ⟨hstop''.trans hstop', hsound.step hstep, htasks'.trans htasks, u', hu',
      Transition.runFrom_always hkeep hrun hJ⟩
  · rintro s' ⟨hstop', hsound, hrest⟩
    exact (rest_or_moves hsound hstop' w).imp_left fun h => ⟨h, hsound, hrest⟩

end TaskPool

/-! ### The server -/

/-- The server with `N` workers as written. -/
abbrev WorkerThreads (N : ℕ) := TaskPool Reply Server Task N

namespace WorkerThreads

abbrev Event (N : ℕ) := TaskPool.Event Task IoEvent N

def init (N : ℕ) (codes : CodeStream) : WorkerThreads N :=
  TaskPool.init Reply Task N (Server.init codes)

def step {N : ℕ} (json : Nlohmann) (t : WorkerThreads N) (e : Event N) :
    Option (WorkerThreads N) :=
  TaskPool.step (Server.system json) t e

variable {json : Nlohmann} {N : ℕ} {t t' : WorkerThreads N} {codes : CodeStream}
  {events : List (Event N)} {fd : Fd} {type : PacketType}

/-- The answers to requests of a type that have been sent to a descriptor. -/
def answersSent (t : WorkerThreads N) (fd : Fd) (type : PacketType) : ℕ :=
  t.shared.sent.countP fun x => decide (x.1 = fd ∧ requestType x.2.type = some type)

/-- The requests of a type that have been received on a descriptor. -/
def requestsReceived (t : WorkerThreads N) (fd : Fd) (type : PacketType) : ℕ :=
  t.tasks.countP fun task => decide (task.conn.fd = fd ∧ task.packet.type = type)

theorem sound_of_run (hrun : Transition.runFrom (step json) (init N codes) events = some t) :
    t.Sound := by
  refine Transition.runFrom_always (J := TaskPool.Sound) (fun t e t' h hstep => ?_) hrun
    (TaskPool.sound_init _)
  exact h.step (S := Server.system json) hstep

/-- In a quiet pool whose books balance, and in the workers that refine it. -/
theorem sent_of_refines {u : ThreadPool N} (hu : TaskPool.Refines (Server.system json) t u)
    (hquiet : u.Quiet) (hbalanced : u.Balanced (answersPaid fd type) (ThreadPool.owed fd type)
      (ThreadPool.account fd type) 0) :
    t.answersSent fd type = t.requestsReceived fd type := by
  have hsent := ThreadPool.sent_of_quiet hquiet hbalanced
  rwa [ThreadPool.answersSent, ThreadPool.requestsReceived, hu.shared, hu.received] at hsent

/-- The workers come to rest and every request is answered, where a `send` is one step. -/
theorem inevitable_answered (hN : 0 < N)
    (hrun : Transition.runFrom (step json) (init N codes) events = some t)
    (hstop : t.queue.stop = false) :
    Transition.Inevitable (step json) TaskPool.Event.OfWorker (fun t' =>
      t'.Rest ∧ t'.tasks = t.tasks ∧
      (t'.queue.runs.map Prod.snd).Perm (List.range t.tasks.length) ∧
      ∀ fd type, IsRequest type → t'.answersSent fd type = t.requestsReceived fd type) t := by
  obtain ⟨events', u, hu, hrefines⟩ := TaskPool.refines_pool hrun
  have hend := TaskPool.inevitable_rest (S := Server.system json) (sound_of_run hrun) hstop ⟨0, hN⟩
    (J := fun u => ∀ fd type, IsRequest type → u.Balanced (answersPaid fd type)
      (ThreadPool.owed fd type) (ThreadPool.account fd type) 0)
    (fun u e u' h hstep fd type htype =>
      (h fd type htype).step (ThreadPool.dues json fd htype) hstep)
    ⟨u, hrefines, fun fd type htype => (ThreadPool.dues json fd htype).balanced hu⟩
  refine hend.mono ?_
  rintro t' ⟨hrest, hsound, htasks, u', hrefines', hbalanced⟩
  refine ⟨hrest, htasks, htasks ▸ hrest.runs_perm hsound, fun fd type htype => ?_⟩
  rw [sent_of_refines hrefines' (hrefines'.quiet_of_rest hrest) (hbalanced fd type htype),
    requestsReceived, htasks, ← requestsReceived]

/-- The worker that is in `PacketSender::send`, where an event is the end of that. -/
def sends (t : WorkerThreads N) : Event N → Option (Fin N)
  | .act w =>
    match t.program w with
    | some (.call (.send _ _) _) => some w
    | _ => none
  | _ => none

/-- The workers where `::send` says `EAGAIN` to one any finite number of times before a
`PacketSender::send` returns. -/
def stepRetrying (json : Nlohmann) :
    Transition.Retrying (WorkerThreads N) (Fin N) → Transition.Retrying.Event (Event N) →
      Option (Transition.Retrying (WorkerThreads N) (Fin N)) :=
  Transition.Retrying.step (step json) sends

/-- **No request is left beside workers that sleep, if every send returns.**  From every state
that the workers and the I/O thread can reach before the pool is stopped, whatever notifications
and spurious wakeups led to it: once nothing more happens but steps of the workers, however
often each of their `send`s is tried again before it returns, all of them come to be blocked
beside an empty queue, each task that was enqueued has been called once, and as many answers
have been sent for requests of each type to each descriptor as requests of that type were
received on it. -/
theorem requests_answered (hN : 0 < N) {again : Fin N → ℕ}
    {events : List (Transition.Retrying.Event (Event N))}
    {r : Transition.Retrying (WorkerThreads N) (Fin N)}
    (hrun : Transition.runFrom (stepRetrying json) ⟨init N codes, again⟩ events = some r)
    (hstop : r.state.queue.stop = false) :
    Transition.Inevitable (stepRetrying json) (fun e => TaskPool.Event.OfWorker e.tried)
      (fun r' => r'.state.Rest ∧ r'.state.tasks = r.state.tasks ∧
        (r'.state.queue.runs.map Prod.snd).Perm (List.range r.state.tasks.length) ∧
        ∀ fd type, IsRequest type →
          r'.state.answersSent fd type = r.state.requestsReceived fd type) r := by
  obtain ⟨events', hrun'⟩ := Transition.Retrying.exists_runFrom hrun
  exact (inevitable_answered hN hrun' hstop).retrying r.again

/-- Two workers wait when client 5 sends EXIT_ROOM twice; the second is the first to wake up. -/
def bothWait (v w : Fin N) : List (Event N) :=
  [.env (.accept 5 (str "10.0.0.1") true), .queue (.testStop v), .queue (.testQueue v),
    .queue (.testStop w), .queue (.testQueue w), .queue (.push ThreadPool.exitTask (some v)),
    .queue (.push ThreadPool.exitTask (some w)), .queue (.testQueue w), .queue (.call w)]

theorem requests_answered_bothWait : ∃ r,
    Transition.runFrom (stepRetrying Nlohmann.integral) ⟨init 2 CodeStream.inOrder, fun _ => 3⟩
      ((bothWait 0 1).map (.done · 0) ++ [.done (.act 1) 0, .retry (.act 1)]) = some r ∧
    Transition.Inevitable (stepRetrying Nlohmann.integral)
      (fun e => TaskPool.Event.OfWorker e.tried) (fun r' =>
        r'.state.Rest ∧ r'.state.answersSent 5 PacketType.exitRoom = 2) r := by
  have hrun : (Transition.runFrom (stepRetrying Nlohmann.integral)
      ⟨init 2 CodeStream.inOrder, fun _ => 3⟩
      ((bothWait 0 1).map (.done · 0) ++ [.done (.act 1) 0, .retry (.act 1)])).any (fun r =>
        decide (r.again 1 = 2 ∧ r.state.queue.stop = false ∧
          r.state.requestsReceived 5 PacketType.exitRoom = 2)) = true := by
    decide +kernel
  obtain ⟨r, hrun, hr⟩ := (Option.any_eq_true _ _).mp hrun
  obtain ⟨-, hstop, hreceived⟩ := of_decide_eq_true hr
  refine ⟨r, hrun, (requests_answered (by decide) hrun hstop).mono ?_⟩
  rintro r' ⟨hrest, -, -, hsent⟩
  exact ⟨hrest, (hsent 5 _ ThreadPool.isRequest_exitRoom).trans hreceived⟩

end WorkerThreads

end SocketChat

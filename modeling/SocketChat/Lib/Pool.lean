/-
A pool of workers that run programs over a shared state.

Tasks are received one at a time and queued; each of `N` workers takes the task at the
head of the queue, runs its program one call at a time and then takes the next one.
Between two calls of a worker anything may happen: calls of other workers, further
tasks, and steps of an environment that acts on the shared state too.

A `Pool` is a state of such a system and `step` its guarded step function, so every
interleaving is a run of `step`.  `received` and `done` record what happened and are
read by no step: the tasks in the order in which they were received, and the positions
there of the tasks that were run to their end.
-/
import SocketChat.Lib.Prog
import SocketChat.Lib.Transition
import Mathlib.Logic.Function.Basic

universe u v

/-- What the workers of a pool, and its environment, do. -/
structure Pool.System {Call : Type u} (Reply : Call → Type v) (σ τ ε : Type*) where
  /-- How the shared state answers a call. -/
  serve : (c : Call) → σ → Reply c × σ
  /-- The program run for a task. -/
  program : τ → Prog Reply Unit
  /-- Whether a task can be received. -/
  admits : σ → τ → Bool
  /-- A step of the environment, where it is possible. -/
  env : σ → ε → Option σ

structure Pool {Call : Type u} (Reply : Call → Type v) (σ τ : Type*) (N : ℕ) where
  shared : σ
  received : List τ
  /-- The positions in `received` of the tasks that wait. -/
  queue : List ℕ
  /-- The task each worker runs, with what is left of its program. -/
  worker : Fin N → Option (ℕ × Prog Reply Unit)
  done : List ℕ

namespace Pool

variable {Call : Type u} {Reply : Call → Type v} {σ τ ε : Type*} {N : ℕ}

/-- No task has been received. -/
def init (Reply : Call → Type v) (τ : Type*) (N : ℕ) (s : σ) : Pool Reply σ τ N where
  shared := s
  received := []
  queue := []
  worker _ := none
  done := []

inductive Event (τ ε : Type*) (N : ℕ) where
  /-- A step of the environment. -/
  | env (e : ε)
  | push (t : τ)
  | pop (w : Fin N)
  /-- The next call of a worker's program. -/
  | act (w : Fin N)
  /-- A worker's program has returned. -/
  | finish (w : Fin N)

def step (S : System Reply σ τ ε) (s : Pool Reply σ τ N) :
    Event τ ε N → Option (Pool Reply σ τ N)
  | .env e => (S.env s.shared e).map fun shared => { s with shared := shared }
  | .push t =>
    if S.admits s.shared t then
      some { s with
        received := s.received ++ [t]
        queue := s.queue ++ [s.received.length] }
    else none
  | .pop w =>
    match s.worker w, s.queue with
    | none, i :: queue =>
      (s.received[i]?).map fun t =>
        { s with queue := queue, worker := Function.update s.worker w (some (i, S.program t)) }
    | _, _ => none
  | .act w =>
    match s.worker w with
    | some (i, .call c k) =>
      some { s with
        shared := (S.serve c s.shared).2
        worker := Function.update s.worker w (some (i, k (S.serve c s.shared).1)) }
    | _ => none
  | .finish w =>
    match s.worker w with
    | some (i, .ret _) =>
      some { s with worker := Function.update s.worker w none, done := s.done ++ [i] }
    | _ => none

/-- What a step can do. -/
inductive Step (S : System Reply σ τ ε) (s : Pool Reply σ τ N) :
    Event τ ε N → Pool Reply σ τ N → Prop
  | env {e : ε} {shared : σ} (h : S.env s.shared e = some shared) :
      Step S s (.env e) { s with shared := shared }
  | push {t : τ} (h : S.admits s.shared t = true) :
      Step S s (.push t)
        { s with received := s.received ++ [t], queue := s.queue ++ [s.received.length] }
  | pop {w : Fin N} {i : ℕ} {queue : List ℕ} {t : τ} (hfree : s.worker w = none)
      (hqueue : s.queue = i :: queue) (ht : s.received[i]? = some t) :
      Step S s (.pop w)
        { s with queue := queue, worker := Function.update s.worker w (some (i, S.program t)) }
  | act {w : Fin N} {i : ℕ} {c : Call} {k : Reply c → Prog Reply Unit}
      (hrun : s.worker w = some (i, .call c k)) :
      Step S s (.act w)
        { s with
          shared := (S.serve c s.shared).2
          worker := Function.update s.worker w (some (i, k (S.serve c s.shared).1)) }
  | finish {w : Fin N} {i : ℕ} {a : Unit} (hrun : s.worker w = some (i, .ret a)) :
      Step S s (.finish w)
        { s with worker := Function.update s.worker w none, done := s.done ++ [i] }

/-- The task of a program that has returned. -/
def returned : Option (ℕ × Prog Reply Unit) → Option ℕ
  | some (i, .ret _) => some i
  | _ => none

/-- The task a worker runs and the call it makes next. -/
def pending (s : Pool Reply σ τ N) (w : Fin N) : Option (ℕ × Call) :=
  match s.worker w with
  | some (i, .call c _) => some (i, c)
  | _ => none

variable {S : System Reply σ τ ε} {s s' : Pool Reply σ τ N}

theorem pending_eq_some {w : Fin N} {i : ℕ} {c : Call} :
    s.pending w = some (i, c) ↔ ∃ k, s.worker w = some (i, .call c k) := by
  rw [pending]
  cases s.worker w with
  | none => simp
  | some run =>
    obtain ⟨j, p⟩ := run
    cases p with
    | ret a => simp
    | call d k =>
      constructor
      · intro h
        obtain ⟨rfl, rfl⟩ := Prod.mk.inj (Option.some.inj h)
        exact ⟨k, rfl⟩
      · rintro ⟨k', h⟩
        obtain ⟨rfl, hp⟩ := Prod.mk.inj (Option.some.inj h)
        cases hp
        rfl

theorem step_act {w : Fin N} {i : ℕ} {c : Call} {k : Reply c → Prog Reply Unit}
    (hrun : s.worker w = some (i, .call c k)) :
    step S s (.act w) = some { s with
      shared := (S.serve c s.shared).2
      worker := Function.update s.worker w (some (i, k (S.serve c s.shared).1)) } := by
  rw [step, hrun]

/-- **What a step can do.** -/
theorem step_cases {e : Event τ ε N} (h : step S s e = some s') : Step S s e s' := by
  cases e with
  | env e =>
    obtain ⟨shared, hshared, rfl⟩ := Option.map_eq_some_iff.mp h
    exact Step.env hshared
  | push t =>
    rw [step] at h
    by_cases hadmits : S.admits s.shared t = true
    · rw [if_pos hadmits, Option.some_inj] at h
      exact h ▸ Step.push hadmits
    · rw [if_neg hadmits] at h
      cases h
  | pop w =>
    rw [step] at h
    cases hfree : s.worker w with
    | some run =>
      rw [hfree] at h
      cases h
    | none =>
      cases hqueue : s.queue with
      | nil =>
        rw [hfree, hqueue] at h
        cases h
      | cons i queue =>
        rw [hfree, hqueue] at h
        obtain ⟨t, ht, rfl⟩ := Option.map_eq_some_iff.mp h
        exact Step.pop hfree hqueue ht
  | act w =>
    rw [step] at h
    cases hrun : s.worker w with
    | none =>
      rw [hrun] at h
      cases h
    | some run =>
      obtain ⟨i, p⟩ := run
      rw [hrun] at h
      cases p with
      | ret a => cases h
      | call c k =>
        obtain rfl := Option.some.inj h
        exact Step.act hrun
  | finish w =>
    rw [step] at h
    cases hrun : s.worker w with
    | none =>
      rw [hrun] at h
      cases h
    | some run =>
      obtain ⟨i, p⟩ := run
      rw [hrun] at h
      cases p with
      | call c k => cases h
      | ret a =>
        obtain rfl := Option.some.inj h
        exact Step.finish hrun

/-! ### Order -/

/-- The program of the task at position `i` has come to its end. -/
def Completed (s : Pool Reply σ τ N) (i : ℕ) : Prop :=
  i ∈ s.done ∨ ∃ w, returned (s.worker w) = some i

instance (s : Pool Reply σ τ N) (i : ℕ) : Decidable (s.Completed i) :=
  inferInstanceAs (Decidable (_ ∨ _))

/-- The task at position `i` waits, or its program has calls to make. -/
def Unfinished (s : Pool Reply σ τ N) (i : ℕ) : Prop :=
  i ∈ s.queue ∨ ∃ w c, s.pending w = some (i, c)

/-- Worker `w` runs the task at position `i`. -/
def Runs (s : Pool Reply σ τ N) (w : Fin N) (i : ℕ) : Prop := ∃ p, s.worker w = some (i, p)

/-- The queue holds the tasks from position `k` on, in the order in which they were
received; those before are run or done, and no other. -/
structure InOrder (s : Pool Reply σ τ N) (k : ℕ) : Prop where
  bound : k ≤ s.received.length
  queue : s.queue = List.range' k (s.received.length - k)
  popped : ∀ i, i < k ↔ i ∈ s.done ∨ ∃ w, s.Runs w i

theorem runs_update {worker : Fin N → Option (ℕ × Prog Reply Unit)} {w v : Fin N}
    {run : Option (ℕ × Prog Reply Unit)} {i : ℕ} :
    (∃ p, Function.update worker w run v = some (i, p)) ↔
      (v = w ∧ ∃ p, run = some (i, p)) ∨ (v ≠ w ∧ ∃ p, worker v = some (i, p)) := by
  by_cases h : v = w
  · rw [h, Function.update_self]
    simp
  · rw [Function.update_of_ne h]
    simp [h]

theorem InOrder.step {e : Event τ ε N} {k : ℕ} (h : s.InOrder k) (hstep : step S s e = some s') :
    ∃ k', s'.InOrder k' := by
  cases step_cases hstep with
  | env => exact ⟨k, h.bound, h.queue, h.popped⟩
  | @push t hadmits =>
    have hbound := h.bound
    have hlength : (s.received ++ [t]).length = s.received.length + 1 := by simp
    refine ⟨k, ?_, ?_, h.popped⟩
    · show k ≤ (s.received ++ [t]).length
      omega
    · have hmore : s.received.length + 1 - k = s.received.length - k + 1 := by omega
      have hlast : k + (s.received.length - k) = s.received.length := by omega
      show s.queue ++ [s.received.length] = List.range' k ((s.received ++ [t]).length - k)
      rw [hlength, hmore, List.range'_1_concat, hlast, h.queue]
  | @pop w i queue t hfree hqueue ht =>
    have hlt : i < s.received.length := (List.getElem?_eq_some_iff.mp ht).1
    have hrange : List.range' k (s.received.length - k) = i :: queue := h.queue ▸ hqueue
    obtain ⟨n, hn⟩ : ∃ n, s.received.length - k = n + 1 := by
      refine Nat.exists_eq_succ_of_ne_zero fun hzero => ?_
      rw [hzero] at hrange
      cases hrange
    rw [hn, List.range'_succ, List.cons.injEq] at hrange
    obtain ⟨rfl, hqueue'⟩ := hrange
    refine ⟨k + 1, hlt, ?_, fun i => ?_⟩
    · have hrest : s.received.length - (k + 1) = n := by omega
      show queue = List.range' (k + 1) (s.received.length - (k + 1))
      rw [hrest, hqueue']
    · -- position `k` is now run, by a worker that was free
      show i < k + 1 ↔ i ∈ s.done ∨ ∃ v, ∃ p,
        Function.update s.worker w (some (k, S.program t)) v = some (i, p)
      have hpopped := h.popped i
      constructor
      · intro hi
        by_cases hik : i = k
        · exact Or.inr ⟨w, S.program t, by rw [Function.update_self, hik]⟩
        · rcases hpopped.mp (by omega) with hdone | ⟨v, p, hv⟩
          · exact Or.inl hdone
          · have hne : v ≠ w := fun heq => by
              rw [heq, hfree] at hv
              cases hv
            exact Or.inr ⟨v, runs_update.mpr (Or.inr ⟨hne, p, hv⟩)⟩
      · rintro (hdone | ⟨v, hv⟩)
        · have hi := hpopped.mpr (Or.inl hdone)
          omega
        · rcases runs_update.mp hv with ⟨-, p, hp⟩ | ⟨-, p, hp⟩
          · obtain ⟨rfl, -⟩ := Prod.mk.inj (Option.some.inj hp)
            omega
          · have hi := hpopped.mpr (Or.inr ⟨v, p, hp⟩)
            omega
  | @act w i c p hrun =>
    refine ⟨k, h.bound, h.queue, fun j => (h.popped j).trans (or_congr_right ?_)⟩
    refine exists_congr fun v => Iff.trans ?_ runs_update.symm
    by_cases hv : v = w
    · subst hv
      simp [Runs, hrun]
    · simp [Runs, hv]
  | @finish w i a hrun =>
    refine ⟨k, h.bound, h.queue, fun j => (h.popped j).trans ?_⟩
    show _ ↔ j ∈ s.done ++ [i] ∨ ∃ v, ∃ p, Function.update s.worker w none v = some (j, p)
    rw [List.mem_append, List.mem_singleton]
    constructor
    · rintro (hdone | ⟨v, p, hv⟩)
      · exact Or.inl (Or.inl hdone)
      · by_cases hvw : v = w
        · rw [hvw, hrun] at hv
          obtain ⟨rfl, -⟩ := Prod.mk.inj (Option.some.inj hv)
          exact Or.inl (Or.inr rfl)
        · exact Or.inr ⟨v, runs_update.mpr (Or.inr ⟨hvw, p, hv⟩)⟩
    · rintro ((hdone | rfl) | ⟨v, hv⟩)
      · exact Or.inl hdone
      · exact Or.inr ⟨w, _, hrun⟩
      · rcases runs_update.mp hv with ⟨-, p, hp⟩ | ⟨-, p, hp⟩
        · cases hp
        · exact Or.inr ⟨v, p, hp⟩

theorem inOrder_init (x : σ) : (init Reply τ N x).InOrder 0 := by
  refine ⟨Nat.le_refl 0, rfl, fun i => ?_⟩
  constructor
  · intro hi
    omega
  · rintro (hdone | ⟨w, p, hw⟩)
    · cases hdone
    · cases hw

/-- Tasks are started in the order in which they were received: while one is run, every
earlier one is completed or run by another worker. -/
theorem InOrder.earlier {k i j : ℕ} {w : Fin N} (h : s.InOrder k) (hw : s.Runs w j)
    (hij : i < j) : i ∈ s.done ∨ ∃ v, v ≠ w ∧ s.Runs v i := by
  have hj : j < k := (h.popped j).mpr (Or.inr ⟨w, hw⟩)
  rcases (h.popped i).mp (by omega) with hdone | ⟨v, hv⟩
  · exact Or.inl hdone
  · refine Or.inr ⟨v, fun heq => ?_, hv⟩
    obtain ⟨p, hp⟩ := hw
    obtain ⟨p', hp'⟩ := hv
    rw [heq, hp, Option.some_inj] at hp'
    have hji : j = i := congrArg Prod.fst hp'
    omega

/-- A task that a worker runs does not wait. -/
theorem InOrder.not_queued {k i : ℕ} {w : Fin N} (h : s.InOrder k) (hw : s.Runs w i) :
    i ∉ s.queue := by
  intro hi
  have hlt : i < k := (h.popped i).mpr (Or.inr ⟨w, hw⟩)
  rw [h.queue, List.mem_range'_1] at hi
  omega

/-- No task is run by two workers. -/
def Single (s : Pool Reply σ τ N) : Prop := ∀ v w i, s.Runs v i → s.Runs w i → v = w

theorem Single.step {e : Event τ ε N} {k : ℕ} (h : s.Single) (hk : s.InOrder k)
    (hstep : step S s e = some s') : s'.Single := by
  -- a worker that goes on with its task, or is left with none, runs nothing new
  have hsame : ∀ (w : Fin N) (run : Option (ℕ × Prog Reply Unit)),
      (∀ i, (∃ p, run = some (i, p)) → s.Runs w i) → ∀ v i,
      (∃ p, Function.update s.worker w run v = some (i, p)) → s.Runs v i := by
    intro w run hrun v i hv
    rcases runs_update.mp hv with ⟨rfl, hp⟩ | ⟨-, hp⟩
    · exact hrun i hp
    · exact hp
  cases step_cases hstep with
  | env => exact h
  | push => exact h
  | @pop w j queue t hfree hqueue ht =>
    have hwaits : ∀ v, ¬ s.Runs v j := by
      intro v hv
      exact hk.not_queued hv (hqueue ▸ List.mem_cons_self)
    intro v v' i hv hv'
    rcases runs_update.mp hv with ⟨rfl, p, hp⟩ | ⟨hne, hold⟩
    · obtain ⟨rfl, -⟩ := Prod.mk.inj (Option.some.inj hp)
      rcases runs_update.mp hv' with ⟨rfl, -⟩ | ⟨-, hold'⟩
      · rfl
      · exact absurd hold' (hwaits v')
    · rcases runs_update.mp hv' with ⟨rfl, p, hp⟩ | ⟨-, hold'⟩
      · obtain ⟨rfl, -⟩ := Prod.mk.inj (Option.some.inj hp)
        exact absurd hold (hwaits v)
      · exact h v v' i hold hold'
  | @act w j c p hrun =>
    have hruns := hsame w (some (j, p (S.serve c s.shared).1)) (by
      rintro i ⟨q, hq⟩
      obtain ⟨rfl, -⟩ := Prod.mk.inj (Option.some.inj hq)
      exact ⟨_, hrun⟩)
    exact fun v v' i hv hv' => h v v' i (hruns v i hv) (hruns v' i hv')
  | @finish w j a hrun =>
    have hruns := hsame w none (by
      rintro i ⟨q, hq⟩
      cases hq)
    exact fun v v' i hv hv' => h v v' i (hruns v i hv) (hruns v' i hv')

/-- A task that is unfinished was so before, unless it has just been received. -/
theorem unfinished_step {e : Event τ ε N} {i : ℕ} (hstep : step S s e = some s')
    (hi : s'.Unfinished i) : s.Unfinished i ∨ (∃ t, e = .push t) ∧ i = s.received.length := by
  -- what the other workers are at does not change
  have hother : ∀ {w v : Fin N} {run : Option (ℕ × Prog Reply Unit)} {c : Call}
      {k : Reply c → Prog Reply Unit}, v ≠ w →
      Function.update s.worker w run v = some (i, .call c k) → s.Unfinished i := by
    intro w v run c k hne hv
    rw [Function.update_of_ne hne] at hv
    exact Or.inr ⟨v, c, pending_eq_some.mpr ⟨k, hv⟩⟩
  cases step_cases hstep with
  | env => exact Or.inl hi
  | @push t =>
    rcases hi with hi | hi
    · rcases List.mem_append.mp hi with hold | hnew
      · exact Or.inl (Or.inl hold)
      · exact Or.inr ⟨⟨t, rfl⟩, List.mem_singleton.mp hnew⟩
    · exact Or.inl (Or.inr hi)
  | @pop w j queue t hfree hqueue ht =>
    refine Or.inl ?_
    rcases hi with hi | ⟨v, c, hv⟩
    · exact Or.inl (hqueue ▸ List.mem_cons_of_mem j hi)
    · obtain ⟨k, hv⟩ := pending_eq_some.mp hv
      by_cases hvw : v = w
      · subst hvw
        have hv : Function.update s.worker v (some (j, S.program t)) v = _ := hv
        rw [Function.update_self] at hv
        obtain ⟨rfl, -⟩ := Prod.mk.inj (Option.some.inj hv)
        -- the task just taken was waiting
        exact Or.inl (hqueue ▸ List.mem_cons_self)
      · exact hother hvw hv
  | @act w j c p hrun =>
    refine Or.inl ?_
    rcases hi with hi | ⟨v, c', hv⟩
    · exact Or.inl hi
    · obtain ⟨k, hv⟩ := pending_eq_some.mp hv
      by_cases hvw : v = w
      · subst hvw
        have hv : Function.update s.worker v (some (j, p (S.serve c s.shared).1)) v = _ := hv
        rw [Function.update_self] at hv
        obtain ⟨rfl, -⟩ := Prod.mk.inj (Option.some.inj hv)
        -- a program that has another call to make had this one to make
        exact Or.inr ⟨v, c, pending_eq_some.mpr ⟨p, hrun⟩⟩
      · exact hother hvw hv
  | @finish w j a hrun =>
    refine Or.inl ?_
    rcases hi with hi | ⟨v, c, hv⟩
    · exact Or.inl hi
    · obtain ⟨k, hv⟩ := pending_eq_some.mp hv
      by_cases hvw : v = w
      · subst hvw
        have hv : Function.update s.worker v none v = _ := hv
        rw [Function.update_self] at hv
        cases hv
      · exact hother hvw hv

/-! ### What holds of the programs that are run -/

/-- Every program that is run is related by `R` to the shared state and its task. -/
def Each (R : σ → τ → Prog Reply Unit → Prop) (s : Pool Reply σ τ N) : Prop :=
  ∀ w i p, s.worker w = some (i, p) → ∃ t, s.received[i]? = some t ∧ R s.shared t p

/-- **Invariant rule for programs.**  `R` is established where a task is started, kept
where its program makes a call, and kept where anything else happens. -/
theorem Each.step {R : σ → τ → Prog Reply Unit → Prop} {e : Event τ ε N} (h : s.Each R)
    (hstep : step S s e = some s')
    (hstart : ∀ i t, i ∈ s.queue → s.received[i]? = some t → R s.shared t (S.program t))
    (hact : ∀ w i t c k, e = .act w → s.worker w = some (i, .call c k) →
      s.received[i]? = some t → R s.shared t (.call c k) →
      R s'.shared t (k (S.serve c s.shared).1))
    (hkeep : ∀ v i t p, e ≠ .act v → s.worker v = some (i, p) → s.received[i]? = some t →
      R s.shared t p → R s'.shared t p) : s'.Each R := by
  -- a worker other than the one that moves runs what it ran before
  have hother : ∀ {w v : Fin N} {run : Option (ℕ × Prog Reply Unit)} {i : ℕ}
      {p : Prog Reply Unit}, v ≠ w → Function.update s.worker w run v = some (i, p) →
      s.worker v = some (i, p) := by
    intro w v run i p hne hv
    rwa [Function.update_of_ne hne] at hv
  have hthis : ∀ {w : Fin N} {run : ℕ × Prog Reply Unit} {i : ℕ} {p : Prog Reply Unit},
      Function.update s.worker w (some run) w = some (i, p) → run = (i, p) := by
    intro w run i p hv
    rwa [Function.update_self, Option.some_inj] at hv
  intro v i p hv
  cases step_cases hstep with
  | env =>
    obtain ⟨t, ht, hR⟩ := h v i p hv
    exact ⟨t, ht, hkeep v i t p (by simp) hv ht hR⟩
  | @push t' =>
    obtain ⟨t, ht, hR⟩ := h v i p hv
    have hlt : i < s.received.length := (List.getElem?_eq_some_iff.mp ht).1
    have ht' : (s.received ++ [t'])[i]? = some t := by rw [List.getElem?_append_left hlt, ht]
    exact ⟨t, ht', hkeep v i t p (by simp) hv ht hR⟩
  | @pop w i' queue t' hfree hqueue ht' =>
    by_cases hvw : v = w
    · subst hvw
      obtain ⟨rfl, rfl⟩ := Prod.mk.inj (hthis hv)
      have hmem : i' ∈ s.queue := hqueue ▸ List.mem_cons_self
      exact ⟨t', ht', hstart i' t' hmem ht'⟩
    · have hold := hother hvw hv
      obtain ⟨t, ht, hR⟩ := h v i p hold
      exact ⟨t, ht, hkeep v i t p (by simp) hold ht hR⟩
  | @act w i' c k hrun =>
    by_cases hvw : v = w
    · subst hvw
      obtain ⟨rfl, rfl⟩ := Prod.mk.inj (hthis hv)
      obtain ⟨t, ht, hR⟩ := h v i' _ hrun
      exact ⟨t, ht, hact v i' t c k rfl hrun ht hR⟩
    · have hold := hother hvw hv
      obtain ⟨t, ht, hR⟩ := h v i p hold
      refine ⟨t, ht, hkeep v i t p (fun heq => ?_) hold ht hR⟩
      cases heq
      exact hvw rfl
  | @finish w i' a hrun =>
    by_cases hvw : v = w
    · subst hvw
      -- the worker has nothing to run any more
      obtain ⟨p', hp'⟩ := ((runs_update.mp ⟨p, hv⟩).resolve_right fun h => h.1 rfl).2
      cases hp'
    · have hold := hother hvw hv
      obtain ⟨t, ht, hR⟩ := h v i p hold
      exact ⟨t, ht, hkeep v i t p (by simp) hold ht hR⟩

theorem each_init (R : σ → τ → Prog Reply Unit → Prop) (x : σ) : (init Reply τ N x).Each R := by
  intro w i p hw
  cases hw

/-! ### One task after the other -/

/-- Worker `w` runs its program to the end, nothing else happening. -/
theorem runFrom_act {w : Fin N} {i : ℕ} (p : Prog Reply Unit) (s : Pool Reply σ τ N)
    (hrun : s.worker w = some (i, p)) :
    ∃ n a, Transition.runFrom (step S) s (List.replicate n (.act w)) =
      some { s with
        shared := (p.exec S.serve s.shared).2
        worker := Function.update s.worker w (some (i, .ret a)) } := by
  induction p generalizing s with
  | ret a =>
    refine ⟨0, a, ?_⟩
    show some s = some { s with worker := Function.update s.worker w (some (i, .ret a)) }
    rw [← hrun, Function.update_eq_self]
  | call c k ih =>
    have hact : step S s (.act w) = some { s with
        shared := (S.serve c s.shared).2
        worker := Function.update s.worker w (some (i, k (S.serve c s.shared).1)) } :=
      step_act hrun
    obtain ⟨n, a, hrest⟩ := ih (S.serve c s.shared).1 { s with
        shared := (S.serve c s.shared).2
        worker := Function.update s.worker w (some (i, k (S.serve c s.shared).1)) }
      (Function.update_self _ _ _)
    refine ⟨n + 1, a, ?_⟩
    rw [List.replicate_succ, Transition.runFrom_cons, hact, Option.bind_some, hrest]
    simp only [Function.update_idem, Prog.exec_call]

/-- A step of a worker. -/
def Event.OfWorker : Event τ ε N → Prop
  | .env _ => False
  | .push _ => False
  | _ => True

/-- What every call keeps, the workers keep; and they receive nothing. -/
theorem runFrom_workers {P : σ → Prop} (hP : ∀ c x, P x → P (S.serve c x).2)
    {events : List (Event τ ε N)} (hworkers : ∀ e ∈ events, e.OfWorker)
    (hrun : Transition.runFrom (step S) s events = some s') (hs : P s.shared) :
    P s'.shared ∧ s'.received = s.received := by
  induction events generalizing s with
  | nil =>
    obtain rfl := Option.some.inj hrun
    exact ⟨hs, rfl⟩
  | cons e events ih =>
    rw [Transition.runFrom_cons, Option.bind_eq_some_iff] at hrun
    obtain ⟨s₁, hstep, hrun⟩ := hrun
    have he := hworkers e List.mem_cons_self
    have hone : P s₁.shared ∧ s₁.received = s.received := by
      cases step_cases hstep with
      | env => exact he.elim
      | push => exact he.elim
      | pop => exact ⟨hs, rfl⟩
      | act => exact ⟨hP _ _ hs, rfl⟩
      | finish => exact ⟨hs, rfl⟩
    obtain ⟨hP', hreceived⟩ := ih (fun f hf => hworkers f (List.mem_cons_of_mem e hf)) hrun hone.1
    exact ⟨hP', hreceived.trans hone.2⟩

/-- A worker can come to the end of the program it runs, if it runs one. -/
theorem exists_free (w : Fin N) (s : Pool Reply σ τ N) :
    ∃ events s', (∀ e ∈ events, e.OfWorker) ∧ Transition.runFrom (step S) s events = some s' ∧
      s'.worker w = none ∧ s'.queue = s.queue ∧ s'.received = s.received := by
  cases hrun : s.worker w with
  | none => exact ⟨[], s, by simp, rfl, hrun, rfl, rfl⟩
  | some run =>
    obtain ⟨i, p⟩ := run
    obtain ⟨n, a, hact⟩ := runFrom_act (S := S) p s hrun
    have hfinish : step S { s with
        shared := (p.exec S.serve s.shared).2
        worker := Function.update s.worker w (some (i, .ret a)) } (.finish w) = some { s with
          shared := (p.exec S.serve s.shared).2
          worker := Function.update s.worker w none
          done := s.done ++ [i] } := by
      simp [step]
    have hrun' := Transition.runFrom_snoc.mpr ⟨_, hact, hfinish⟩
    refine ⟨List.replicate n (.act w) ++ [.finish w], { s with
      shared := (p.exec S.serve s.shared).2
      worker := Function.update s.worker w none
      done := s.done ++ [i] }, fun e he => ?_, hrun', ?_, rfl, rfl⟩
    · rcases List.mem_append.mp he with he | he
      · rw [List.eq_of_mem_replicate he]
        trivial
      · rw [List.mem_singleton.mp he]
        trivial
    · show Function.update s.worker w none w = none
      rw [Function.update_self]

/-- A task that waits can be started, by any worker, without the environment doing
anything. -/
theorem exists_started (w : Fin N) {i : ℕ} (hbound : ∀ j ∈ s.queue, j < s.received.length)
    (hi : i ∈ s.queue) :
    ∃ events s' t, (∀ e ∈ events, e.OfWorker) ∧
      Transition.runFrom (step S) s events = some s' ∧ s.received[i]? = some t ∧
      s'.worker w = some (i, S.program t) := by
  -- by induction on the tasks that wait before it
  induction hqueue : s.queue generalizing s with
  | nil =>
    rw [hqueue] at hi
    cases hi
  | cons j queue ih =>
    obtain ⟨events, s₁, hworkers, hrun, hfree, hsame, hreceived⟩ := exists_free (S := S) w s
    have hj : j < s.received.length := hbound j (hqueue ▸ List.mem_cons_self)
    have ht : s₁.received[j]? = some s.received[j] := by
      rw [hreceived, List.getElem?_eq_getElem hj]
    have hpop : step S s₁ (.pop w) = some { s₁ with
        queue := queue
        worker := Function.update s₁.worker w (some (j, S.program s.received[j])) } := by
      simp [step, hfree, hsame, hqueue, ht]
    have hrun' := Transition.runFrom_snoc.mpr ⟨s₁, hrun, hpop⟩
    have hworkers' : ∀ e ∈ events ++ [.pop w], Event.OfWorker e := by
      intro e he
      rcases List.mem_append.mp he with he | he
      · exact hworkers e he
      · rw [List.mem_singleton.mp he]
        trivial
    by_cases hij : i = j
    · subst hij
      exact ⟨events ++ [.pop w], _, s.received[i], hworkers', hrun', hreceived ▸ ht,
        Function.update_self _ _ _⟩
    · have hi' : i ∈ queue := by
        rw [hqueue] at hi
        exact (List.mem_cons.mp hi).resolve_left hij
      obtain ⟨events', s₂, t, hworkers₂, hrun₂, ht₂, hstarted⟩ := ih
        (s := { s₁ with
          queue := queue
          worker := Function.update s₁.worker w (some (j, S.program s.received[j])) })
        (fun l hl => by
          rw [hreceived]
          exact hbound l (hqueue ▸ List.mem_cons_of_mem j hl)) hi' rfl
      refine ⟨events ++ [.pop w] ++ events', s₂, t, fun e he => ?_, ?_, hreceived ▸ ht₂, hstarted⟩
      · rcases List.mem_append.mp he with he | he
        · exact hworkers' e he
        · exact hworkers₂ e he
      · rw [Transition.runFrom_append, hrun', Option.bind_some, hrun₂]

/-- **Running a program alone is an interleaving.**  A task that is received while all
workers are free and nothing waits can be run to its end by any worker, nothing else
happening: the shared state is then as after `exec`. -/
theorem runFrom_alone {t : τ} (w : Fin N) (hadmits : S.admits s.shared t = true)
    (hqueue : s.queue = []) (hfree : ∀ v, s.worker v = none) :
    ∃ events, Transition.runFrom (step S) s events =
      some { s with
        shared := ((S.program t).exec S.serve s.shared).2
        received := s.received ++ [t]
        done := s.done ++ [s.received.length] } := by
  have hpush : step S s (.push t) = some { s with
      received := s.received ++ [t]
      queue := [s.received.length] } := by
    rw [step, if_pos hadmits, hqueue]
    rfl
  have hpop : step S { s with received := s.received ++ [t], queue := [s.received.length] }
      (.pop w) = some { s with
        received := s.received ++ [t]
        worker := Function.update s.worker w (some (s.received.length, S.program t)) } := by
    simp [step, hfree w, hqueue]
  obtain ⟨n, a, hact⟩ := runFrom_act (S := S) (S.program t) { s with
      received := s.received ++ [t]
      worker := Function.update s.worker w (some (s.received.length, S.program t)) }
    (Function.update_self _ _ _)
  refine ⟨.push t :: .pop w :: (List.replicate n (.act w) ++ [.finish w]), ?_⟩
  have hnone : Function.update s.worker w none = s.worker := by
    rw [← hfree w, Function.update_eq_self]
  rw [Transition.runFrom_cons, hpush, Option.bind_some, Transition.runFrom_cons, hpop,
    Option.bind_some, Transition.runFrom_append, hact, Option.bind_some]
  simp [step, hnone]

end Pool

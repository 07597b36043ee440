/-
What the programs of a pool owe and what they pay.

Every task owes an amount, and a call pays one.  A program `PaysLast m` if whatever the replies
it pays `m` with its last call and nothing before.  When the program of each task so pays what
the task owes, and an account of the shared state takes in what is paid and nothing else, the
books of the pool balance in every state of every run (`Dues.balanced`): what has been paid,
and what is still owed by the tasks that wait and by those that are being run, add up to what
all tasks received so far owe.
-/
import SocketChat.Lib.Pool
import Mathlib.Algebra.BigOperators.Group.Finset.Piecewise
import Mathlib.Data.Fintype.Basic

universe u v w

namespace Prog

variable {Call : Type u} {Reply : Call → Type v} {α β : Type w} {A : Type*} [AddCommMonoid A]
  {paid : Call → A} {m : A}

/-- Whatever the replies, the program pays `m` with its last call and nothing before. -/
def PaysLast (paid : Call → A) (m : A) : Prog Reply α → Prop
  | ret _ => m = 0
  | call c k => (paid c = 0 ∧ ∀ r, (k r).PaysLast paid m) ∨ (paid c = m ∧ ∀ r, ∃ a, k r = ret a)

/-- A call that pays nothing. -/
theorem PaysLast.call {c : Call} {k : Reply c → Prog Reply α} (hc : paid c = 0)
    (hk : ∀ r, (k r).PaysLast paid m) : (Prog.call c k).PaysLast paid m :=
  Or.inl ⟨hc, hk⟩

/-- The last call. -/
theorem PaysLast.last {c : Call} {f : Reply c → α} (hc : paid c = m) :
    (Prog.call c fun r => ret (f r) : Prog Reply α).PaysLast paid m :=
  Or.inr ⟨hc, fun r => ⟨f r, rfl⟩⟩

/-- What follows calls that pay nothing. -/
theorem PaysLast.bind {p : Prog Reply α} {f : α → Prog Reply β}
    (hp : p.Only fun c => paid c = 0) (hf : ∀ a, (f a).PaysLast paid m) :
    (p >>= f).PaysLast paid m := by
  induction p with
  | ret a => exact hf a
  | call c k ih => exact PaysLast.call hp.1 fun r => ih r (hp.2 r)

end Prog

namespace Pool

/-! ### Sums over the workers -/

theorem sum_update {A : Type*} [AddCommMonoid A] {N : ℕ} (f : Fin N → A) (w : Fin N) (m : A) :
    ∑ v, Function.update f w m v + f w = ∑ v, f v + m := by
  rw [Finset.sum_update_of_mem (Finset.mem_univ w), Finset.sum_eq_add_sum_sdiff_singleton_of_mem
    (Finset.mem_univ w) f]
  ac_rfl

variable {Call : Type u} {Reply : Call → Type v} {σ τ ε A : Type*} [AddCancelCommMonoid A] {N : ℕ}

/-! ### The books -/

/-- The programs of the tasks pay what these owe, and the account takes in what is paid. -/
structure Dues (S : System Reply σ τ ε) (paid : Call → A) (owed : τ → A) (account : σ → A) :
    Prop where
  serve : ∀ c x, account (S.serve c x).2 = account x + paid c
  env : ∀ e x x', S.env x e = some x' → account x' = account x
  program : ∀ t, (S.program t).PaysLast paid (owed t)

/-- What the task at a position owes. -/
def owedAt (owed : τ → A) (received : List τ) (i : ℕ) : A := (received[i]?).elim 0 owed

/-- What is still to be paid for the task that is run: all it owes, until the last call. -/
def due (owed : τ → A) (received : List τ) : Option (ℕ × Prog Reply Unit) → A
  | some (i, .call _ _) => owedAt owed received i
  | _ => 0

/-- What the tasks that wait owe. -/
def waiting (owed : τ → A) (s : Pool Reply σ τ N) : A :=
  (s.queue.map (owedAt owed s.received)).sum

/-- What the tasks that are run still owe. -/
def running (owed : τ → A) (s : Pool Reply σ τ N) : A := ∑ w, due owed s.received (s.worker w)

/-- The program has made its last call, or has all to pay yet. -/
def Owing (paid : Call → A) (m : A) (p : Prog Reply Unit) : Prop :=
  (∃ a, p = .ret a) ∨ p.PaysLast paid m

structure Balanced (paid : Call → A) (owed : τ → A) (account : σ → A) (start : A)
    (s : Pool Reply σ τ N) : Prop where
  queued : ∀ i ∈ s.queue, i < s.received.length
  each : s.Each fun _ t p => Owing paid (owed t) p
  total : account s.shared + s.running owed + s.waiting owed =
    start + (s.received.map owed).sum

variable {S : System Reply σ τ ε} {paid : Call → A} {owed : τ → A} {account : σ → A} {start : A}
  {s s' : Pool Reply σ τ N}

theorem owedAt_of_getElem? {received : List τ} {i : ℕ} {t : τ} (h : received[i]? = some t) :
    owedAt owed received i = owed t := by
  rw [owedAt, h]
  rfl

/-- The positions there were mean the same tasks when another is received. -/
theorem owedAt_append {received : List τ} {i : ℕ} (h : i < received.length) (t : τ) :
    owedAt owed (received ++ [t]) i = owedAt owed received i := by
  rw [owedAt, List.getElem?_append_left h, owedAt]

/-- A program that has all to pay yet: if it makes no call it owes nothing. -/
theorem due_of_paysLast {received : List τ} {i : ℕ} {t : τ} {p : Prog Reply Unit}
    (ht : received[i]? = some t) (hp : p.PaysLast paid (owed t)) :
    due owed received (some (i, p)) = owed t := by
  cases p with
  | ret a => exact hp.symm
  | call c k => exact owedAt_of_getElem? ht

/-- One worker moves. -/
theorem sum_due_update (received : List τ) (worker : Fin N → Option (ℕ × Prog Reply Unit))
    (w : Fin N) (run : Option (ℕ × Prog Reply Unit)) :
    ∑ v, due owed received (Function.update worker w run v) + due owed received (worker w) =
      ∑ v, due owed received (worker v) + due owed received run := by
  have hcomp : (fun v => due owed received (Function.update worker w run v)) =
      Function.update (fun v => due owed received (worker v)) w (due owed received run) := by
    funext v
    by_cases hv : v = w
    · rw [hv, Function.update_self, Function.update_self]
    · rw [Function.update_of_ne hv, Function.update_of_ne hv]
  rw [hcomp]
  exact sum_update (fun v => due owed received (worker v)) w (due owed received run)

/-- The books where a worker moves, having owed `before` and owing `after`. -/
theorem running_update {w : Fin N} {run : Option (ℕ × Prog Reply Unit)} {before after : A}
    (hbefore : due owed s.received (s.worker w) = before)
    (hafter : due owed s.received run = after) :
    ∑ v, due owed s.received (Function.update s.worker w run v) + before =
      s.running owed + after := by
  rw [← hbefore, ← hafter]
  exact sum_due_update s.received s.worker w run

theorem Balanced.push (h : Balanced paid owed account start s) (t : τ) :
    Balanced paid owed account start { s with
      received := s.received ++ [t], queue := s.queue ++ [s.received.length] } := by
  refine ⟨?_, ?_, ?_⟩
  · intro i hi
    show i < (s.received ++ [t]).length
    rw [List.length_append, List.length_singleton]
    rcases List.mem_append.mp hi with hi | hi
    · exact Nat.lt_succ_of_lt (h.queued i hi)
    · rw [List.mem_singleton.mp hi]
      exact Nat.lt_succ_self _
  · intro w i p hw
    obtain ⟨t', ht', howing⟩ := h.each w i p hw
    refine ⟨t', ?_, howing⟩
    show (s.received ++ [t])[i]? = some t'
    rw [List.getElem?_append_left (List.getElem?_eq_some_iff.mp ht').1, ht']
  · have hrunning : ∑ w, due owed (s.received ++ [t]) (s.worker w) = s.running owed := by
      refine Finset.sum_congr rfl fun w _ => ?_
      cases hw : s.worker w with
      | none => rfl
      | some run =>
        obtain ⟨i, p⟩ := run
        obtain ⟨t', ht', -⟩ := h.each w i p hw
        cases p with
        | ret a => rfl
        | call c k => exact owedAt_append (List.getElem?_eq_some_iff.mp ht').1 t
    have hwaiting : (s.queue.map (owedAt owed (s.received ++ [t]))).sum = s.waiting owed := by
      rw [waiting, List.map_congr_left fun i hi => owedAt_append (h.queued i hi) t]
    have hlast : owedAt owed (s.received ++ [t]) s.received.length = owed t :=
      owedAt_of_getElem? (by simp)
    show account s.shared + ∑ w, due owed (s.received ++ [t]) (s.worker w) +
      ((s.queue ++ [s.received.length]).map (owedAt owed (s.received ++ [t]))).sum =
      start + ((s.received ++ [t]).map owed).sum
    rw [hrunning, List.map_append, List.sum_append, hwaiting, List.map_singleton,
      List.sum_singleton, hlast, List.map_append, List.sum_append, List.map_singleton,
      List.sum_singleton, ← add_assoc, ← add_assoc, h.total]

/-- The task that is taken has waited, and is now run. -/
theorem Balanced.pop (h : Balanced paid owed account start s) (hdues : Dues S paid owed account)
    {w : Fin N} {i : ℕ} {queue : List ℕ} {t : τ} (hfree : s.worker w = none)
    (hqueue : s.queue = i :: queue) (ht : s.received[i]? = some t)
    (heach : Each (fun _ t p => Owing paid (owed t) p) { s with
      queue := queue, worker := Function.update s.worker w (some (i, S.program t)) }) :
    Balanced paid owed account start { s with
      queue := queue, worker := Function.update s.worker w (some (i, S.program t)) } := by
  refine ⟨fun j hj => h.queued j (hqueue ▸ List.mem_cons_of_mem i hj), heach, ?_⟩
  have hbefore : due owed s.received (s.worker w) = 0 := by
    rw [hfree]
    rfl
  have hrunning := running_update hbefore (due_of_paysLast ht (hdues.program t))
  have hwaiting : s.waiting owed = owed t + (queue.map (owedAt owed s.received)).sum := by
    rw [waiting, hqueue, List.map_cons, List.sum_cons, owedAt_of_getElem? ht]
  rw [add_zero] at hrunning
  show account s.shared + ∑ v, due owed s.received _ + (queue.map (owedAt owed s.received)).sum = _
  rw [hrunning, ← h.total, hwaiting]
  ac_rfl

/-- What a call pays is owed no more. -/
theorem Balanced.act (h : Balanced paid owed account start s) (hdues : Dues S paid owed account)
    {w : Fin N} {i : ℕ} {c : Call} {k : Reply c → Prog Reply Unit}
    (hrun : s.worker w = some (i, .call c k))
    (heach : Each (fun _ t p => Owing paid (owed t) p) { s with
      shared := (S.serve c s.shared).2
      worker := Function.update s.worker w (some (i, k (S.serve c s.shared).1)) }) :
    Balanced paid owed account start { s with
      shared := (S.serve c s.shared).2
      worker := Function.update s.worker w (some (i, k (S.serve c s.shared).1)) } := by
  refine ⟨h.queued, heach, ?_⟩
  obtain ⟨t, ht, howing⟩ := h.each w i _ hrun
  have hpays : Prog.PaysLast paid (owed t) (.call c k) := by
    rcases howing with ⟨a, ha⟩ | hpays
    · cases ha
    · exact hpays
  have hbefore : due owed s.received (s.worker w) = owed t := by
    rw [hrun]
    exact due_of_paysLast ht hpays
  -- what is paid and what is left make up what was owed
  have hpaid : paid c + due owed s.received (some (i, k (S.serve c s.shared).1)) = owed t := by
    rcases hpays with ⟨hzero, hk⟩ | ⟨hall, hk⟩
    · rw [hzero, zero_add]
      exact due_of_paysLast ht (hk _)
    · obtain ⟨a, ha⟩ := hk (S.serve c s.shared).1
      rw [ha, hall]
      exact add_zero (owed t)
  have hrunning := running_update hbefore (Eq.refl (due owed s.received
    (some (i, k (S.serve c s.shared).1))))
  have hrest : paid c + ∑ v, due owed s.received (Function.update s.worker w
      (some (i, k (S.serve c s.shared).1)) v) = s.running owed := by
    refine add_right_cancel (b := due owed s.received (some (i, k (S.serve c s.shared).1))) ?_
    rw [← hrunning, ← hpaid]
    ac_rfl
  show account (S.serve c s.shared).2 + ∑ v, due owed s.received (Function.update s.worker w
    (some (i, k (S.serve c s.shared).1)) v) + s.waiting owed = _
  rw [hdues.serve, add_assoc (account s.shared), hrest]
  exact h.total

/-- A program that has returned owes nothing. -/
theorem Balanced.finish (h : Balanced paid owed account start s) {w : Fin N} {i : ℕ} {a : Unit}
    (hrun : s.worker w = some (i, .ret a))
    (heach : Each (fun _ t p => Owing paid (owed t) p) { s with
      worker := Function.update s.worker w none, done := s.done ++ [i] }) :
    Balanced paid owed account start { s with
      worker := Function.update s.worker w none, done := s.done ++ [i] } := by
  refine ⟨h.queued, heach, ?_⟩
  have hbefore : due owed s.received (s.worker w) = 0 := by
    rw [hrun]
    rfl
  have hrunning := running_update hbefore (Eq.refl (due owed s.received none))
  rw [add_zero, show due owed s.received none = 0 from rfl, add_zero] at hrunning
  show account s.shared + ∑ v, due owed s.received _ + s.waiting owed = _
  rw [hrunning]
  exact h.total

/-- Whatever happens, a program that is run has made its last call or has all to pay yet. -/
theorem each_owing_step (h : s.Each fun _ t p => Owing paid (owed t) p)
    (hdues : Dues S paid owed account) {e : Event τ ε N} (hstep : step S s e = some s') :
    s'.Each fun _ t p => Owing paid (owed t) p := by
  refine h.step hstep (fun i t _ _ => Or.inr (hdues.program t)) ?_ fun v i t p _ _ _ hp => hp
  intro w i t c k _ _ _ howing
  rcases howing with ⟨a, ha⟩ | ⟨-, hk⟩ | ⟨-, hk⟩
  · cases ha
  · exact Or.inr (hk _)
  · exact Or.inl (hk _)

/-- **The step lemma.** -/
theorem Balanced.step (h : Balanced paid owed account start s)
    (hdues : Dues S paid owed account) {e : Event τ ε N} (hstep : step S s e = some s') :
    Balanced paid owed account start s' := by
  have heach := each_owing_step h.each hdues hstep
  cases step_cases hstep with
  | @env e shared henv =>
    refine ⟨h.queued, heach, ?_⟩
    show account shared + s.running owed + s.waiting owed = _
    rw [hdues.env e s.shared shared henv]
    exact h.total
  | @push t => exact h.push t
  | pop hfree hqueue ht => exact h.pop hdues hfree hqueue ht heach
  | act hrun => exact h.act hdues hrun heach
  | finish hrun => exact h.finish hrun heach

/-- **The books balance** in every state of every run. -/
theorem Dues.balanced (hdues : Dues S paid owed account) {x : σ} {es : List (Event τ ε N)}
    (hrun : Transition.runFrom (Pool.step S) (init Reply τ N x) es = some s) :
    s.Balanced paid owed account (account x) := by
  have hstart : Balanced paid owed account (account x) (init Reply τ N x) := by
    refine ⟨fun i hi => absurd hi List.not_mem_nil, each_init _ x, ?_⟩
    have hrunning : (init Reply τ N x).running owed = 0 := Finset.sum_const_zero
    rw [hrunning, add_zero]
    rfl
  exact Transition.runFrom_always (fun _ _ _ h hstep => h.step hdues hstep) hrun hstart

end Pool

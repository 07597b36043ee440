/-
What a pool comes to when nothing more arrives.

`Inevitable step A P s`: from `s` on, whichever events that satisfy `A` happen, only finitely
many can before `P` holds, and until then one is possible.  It follows from an order in which
these events lead down, which holds of no infinite descent (`Inevitable.of_wellFounded`).

The workers of a pool lead down in such an order (`wellFounded_worker`): a worker that takes a
task shortens the queue, and one that makes a call goes on with what is left of its program.
As a program need not know how many calls it will make, what is left of the programs is a
multiset, ordered as the hydra's heads are.  So when nothing more is received, every schedule
of the workers comes to an end, in which all tasks are done (`quiescent`).
-/
import SocketChat.Lib.Dues
import Mathlib.Logic.Hydra

universe u v

namespace Transition

variable {S E : Type*} {step : S → E → Option S} {A : E → Prop} {P Q : S → Prop} {s : S}

/-- Whichever of the events `A` happen, `P` comes to hold. -/
inductive Inevitable (step : S → E → Option S) (A : E → Prop) (P : S → Prop) : S → Prop
  | now {s : S} (h : P s) : Inevitable step A P s
  | later {s : S} (hmove : ∃ e s', A e ∧ step s e = some s')
      (h : ∀ e s', A e → step s e = some s' → Inevitable step A P s') : Inevitable step A P s

theorem Inevitable.mono (h : Inevitable step A P s) (hPQ : ∀ s, P s → Q s) :
    Inevitable step A Q s := by
  induction h with
  | now hP => exact .now (hPQ _ hP)
  | later hmove _ ih => exact .later hmove ih

/-- A property that the events keep, which leads to `P` wherever none of them is possible. -/
theorem Inevitable.of_wellFounded {J : S → Prop}
    (hwf : WellFounded fun s' s => ∃ e, A e ∧ step s e = some s')
    (hkeep : ∀ s e s', J s → A e → step s e = some s' → J s')
    (hprogress : ∀ s, J s → P s ∨ ∃ e s', A e ∧ step s e = some s') (hs : J s) :
    Inevitable step A P s := by
  induction s using hwf.induction with
  | _ s ih =>
    rcases hprogress s hs with hP | hmove
    · exact .now hP
    · exact .later hmove fun e s' he hstep => ih s' ⟨e, he, hstep⟩ (hkeep s e s' hs he hstep)

end Transition

namespace Pool

variable {Call : Type u} {Reply : Call → Type v} {σ τ ε : Type*} {N : ℕ}
  {S : System Reply σ τ ε} {s s' : Pool Reply σ τ N}

/-! ### The order -/

/-- What a worker is left with after a call, or when its program has returned. -/
inductive Left : Option (ℕ × Prog Reply Unit) → Option (ℕ × Prog Reply Unit) → Prop
  | call {i : ℕ} {c : Call} (k : Reply c → Prog Reply Unit) (r : Reply c) :
      Left (some (i, k r)) (some (i, .call c k))
  | ret {i : ℕ} (a : Unit) : Left none (some (i, .ret a))

theorem wellFounded_left : WellFounded (@Left Call Reply) := by
  have hnone : Acc (@Left Call Reply) none := by
    refine Acc.intro none fun run h => ?_
    cases h
  refine ⟨fun run => ?_⟩
  cases run with
  | none => exact hnone
  | some run =>
    obtain ⟨i, p⟩ := run
    induction p with
    | ret a =>
      refine Acc.intro _ fun run h => ?_
      cases h
      exact hnone
    | call c k ih =>
      refine Acc.intro _ fun run h => ?_
      cases h with
      | call k r => exact ih r

/-- How many tasks wait, and what the workers are left with. -/
def load (s : Pool Reply σ τ N) : ℕ × Multiset (Option (ℕ × Prog Reply Unit)) :=
  (s.queue.length, ∑ w, {s.worker w})

/-- One of several threads goes down in an order. -/
theorem cutExpand_update {A : Type*} {r : A → A → Prop} {f : Fin N → A} {w : Fin N} {x : A}
    (h : r x (f w)) :
    Relation.CutExpand r (∑ v, {Function.update f w x v}) (∑ v, {f v}) := by
  refine ⟨{x}, f w, fun x' hx' => ?_, ?_⟩
  · rw [Multiset.mem_singleton.mp hx']
    exact h
  · have hcomp : (fun v => ({Function.update f w x v} : Multiset _)) =
        Function.update (fun v => {f v}) w {x} := by
      funext v
      by_cases hv : v = w
      · rw [hv, Function.update_self, Function.update_self]
      · rw [Function.update_of_ne hv, Function.update_of_ne hv]
    rw [hcomp]
    exact sum_update (A := Multiset _) (fun v => {f v}) w {x}

/-- A step of a worker lightens the load. -/
theorem load_step {e : Event τ ε N} (he : e.OfWorker) (hstep : step S s e = some s') :
    Prod.Lex (· < ·) (Relation.CutExpand Left) s'.load s.load := by
  cases step_cases hstep with
  | env => exact he.elim
  | push => exact he.elim
  | @pop w i queue t hfree hqueue ht =>
    refine Prod.Lex.left _ _ ?_
    show queue.length < s.queue.length
    rw [hqueue, List.length_cons]
    exact Nat.lt_succ_self _
  | @act w i c k hrun =>
    refine Prod.Lex.right _ (cutExpand_update ?_)
    rw [hrun]
    exact Left.call k _
  | @finish w i a hrun =>
    refine Prod.Lex.right _ (cutExpand_update ?_)
    rw [hrun]
    exact Left.ret a

/-- **The workers alone come to an end.** -/
theorem wellFounded_worker (S : System Reply σ τ ε) :
    WellFounded fun s' s : Pool Reply σ τ N => ∃ e, Event.OfWorker e ∧ step S s e = some s' := by
  refine Subrelation.wf (r := InvImage (Prod.Lex (· < ·) (Relation.CutExpand Left)) load) ?_
    (InvImage.wf load (WellFounded.prod_lex Nat.lt_wfRel.wf wellFounded_left.cutExpand))
  rintro s' s ⟨e, he, hstep⟩
  exact load_step he hstep

/-! ### Quiescence -/

/-- No task waits or is run. -/
def Quiet (s : Pool Reply σ τ N) : Prop := s.queue = [] ∧ ∀ w, s.worker w = none

/-- Where there are workers and the queue holds tasks that were received, one of them can go
on unless all is quiet. -/
theorem quiet_or_moves {k : ℕ} (hk : s.InOrder k) (w : Fin N) :
    s.Quiet ∨ ∃ e s', Event.OfWorker e ∧ step S s e = some s' := by
  by_cases hidle : ∀ v, s.worker v = none
  · cases hqueue : s.queue with
    | nil => exact Or.inl ⟨hqueue, hidle⟩
    | cons i queue =>
      have hi : i < s.received.length := by
        have hmem : i ∈ s.queue := hqueue ▸ List.mem_cons_self
        have hbound := hk.bound
        rw [hk.queue, List.mem_range'_1] at hmem
        omega
      refine Or.inr ⟨.pop w, { s with
        queue := queue
        worker := Function.update s.worker w (some (i, S.program s.received[i])) }, trivial, ?_⟩
      rw [step, hidle w, hqueue]
      simp only [List.getElem?_eq_getElem hi, Option.map_some]
  · obtain ⟨v, hv⟩ := not_forall.mp hidle
    obtain ⟨⟨i, p⟩, hrun⟩ := Option.ne_none_iff_exists'.mp hv
    cases p with
    | ret a => exact Or.inr ⟨.finish v, _, trivial, by rw [step, hrun]⟩
    | call c p => exact Or.inr ⟨.act v, _, trivial, step_act hrun⟩

/-- The queue of a state that is reached is in order. -/
theorem exists_inOrder {x : σ} {es : List (Event τ ε N)}
    (hrun : Transition.runFrom (step S) (init Reply τ N x) es = some s) : ∃ k, s.InOrder k := by
  refine Transition.runFrom_always (J := fun s => ∃ k, s.InOrder k)
    (fun s e s' hs hstep => ?_) hrun ⟨0, inOrder_init x⟩
  obtain ⟨k, hk⟩ := hs
  exact hk.step hstep

theorem received_worker {e : Event τ ε N} (he : e.OfWorker) (hstep : step S s e = some s') :
    s'.received = s.received := by
  cases step_cases hstep with
  | env => exact he.elim
  | push => exact he.elim
  | pop => rfl
  | act => rfl
  | finish => rfl

/-- Where all is quiet every task that was received is done. -/
theorem Quiet.done {k : ℕ} (h : s.Quiet) (hk : s.InOrder k) {i : ℕ} (hi : i < s.received.length) :
    i ∈ s.done := by
  have hall : i < k := by
    have hlength := congrArg List.length hk.queue
    rw [h.1, List.length_nil, List.length_range'] at hlength
    omega
  rcases (hk.popped i).mp hall with hdone | ⟨w, p, hw⟩
  · exact hdone
  · rw [h.2 w] at hw
    cases hw

/-- **When nothing more is received all tasks are done**, whatever the schedule of the
workers; what the workers keep holds then. -/
theorem quiescent {k : ℕ} (hk : s.InOrder k) (w : Fin N) {J : Pool Reply σ τ N → Prop}
    (hkeep : ∀ s e s', J s → step S s e = some s' → J s') (hs : J s) :
    Transition.Inevitable (step S) Event.OfWorker (fun s' => s'.Quiet ∧
      s'.received = s.received ∧ (∀ i < s.received.length, i ∈ s'.done) ∧ J s') s := by
  refine Transition.Inevitable.of_wellFounded
    (J := fun s' => s'.received = s.received ∧ (∃ k, s'.InOrder k) ∧ J s')
    (wellFounded_worker S) ?_ ?_ ⟨rfl, ⟨k, hk⟩, hs⟩
  · rintro s' e s'' ⟨hreceived, ⟨k', hk'⟩, hJ⟩ he hstep
    exact ⟨(received_worker he hstep).trans hreceived, hk'.step hstep, hkeep s' e s'' hJ hstep⟩
  · rintro s' ⟨hreceived, ⟨k', hk'⟩, hJ⟩
    refine (quiet_or_moves hk' w).imp_left fun hquiet => ⟨hquiet, hreceived, ?_, hJ⟩
    intro i hi
    exact hquiet.done hk' (hreceived ▸ hi)

end Pool

/-
Programs that do not look at all they are told.

`Q c` relates the replies to a call `c` that differ only in what nobody looks at.  Two
programs are `Alike` when they make the same calls and return the same as long as they are
given related replies; a program that makes only calls with nothing to hide is alike to
itself (`Only.alike`).  Where a relation between shared states is kept by the calls and makes
their replies related, two pools in related states answer each other's worker steps
(`Pool.Alike.step`).
-/
import SocketChat.Lib.Pool

namespace Prog

universe u v w

variable {Call : Type u} {Reply : Call → Type v} {α β : Type w}
  {Q : (c : Call) → Reply c → Reply c → Prop}

/-- Given related replies, the two programs make the same calls and return the same. -/
inductive Alike (Q : (c : Call) → Reply c → Reply c → Prop) : Prog Reply α → Prog Reply α → Prop
  | ret (a : α) : Alike Q (.ret a) (.ret a)
  | call (c : Call) {k k' : Reply c → Prog Reply α}
      (h : ∀ r r', Q c r r' → Alike Q (k r) (k' r')) : Alike Q (.call c k) (.call c k')

theorem Alike.bind {p p' : Prog Reply α} {f f' : α → Prog Reply β} (hp : p.Alike Q p')
    (hf : ∀ a, (f a).Alike Q (f' a)) : (p >>= f).Alike Q (p' >>= f') := by
  induction hp with
  | ret a => exact hf a
  | call c h ih => exact Alike.call c ih

/-- A program whose calls have replies with nothing to hide. -/
theorem Only.alike {P : Call → Prop} {p : Prog Reply α} (hp : p.Only P)
    (hP : ∀ c r r', P c → Q c r r' → r = r') : p.Alike Q p := by
  induction p with
  | ret a => exact Alike.ret a
  | call c k ih =>
    refine Alike.call c fun r r' hr => ?_
    rw [← hP c r r' hp.1 hr]
    exact ih r (hp.2 r)

end Prog

namespace Pool

universe u v

variable {Call : Type u} {Reply : Call → Type v} {σ τ ε : Type*} {N : ℕ}
  {Q : (c : Call) → Reply c → Reply c → Prop} {R : σ → σ → Prop} {S : System Reply σ τ ε}
  {s s' t : Pool Reply σ τ N}

/-- Two workers run the same task, with programs alike, or none. -/
def RunAlike (Q : (c : Call) → Reply c → Reply c → Prop) (run run' : Option (ℕ × Prog Reply Unit)) :
    Prop :=
  Option.Rel (fun x y => x.1 = y.1 ∧ x.2.Alike Q y.2) run run'

/-- The pools differ only in what `R` and `Q` do not see. -/
structure Alike (R : σ → σ → Prop) (Q : (c : Call) → Reply c → Reply c → Prop)
    (s t : Pool Reply σ τ N) : Prop where
  shared : R s.shared t.shared
  received : s.received = t.received
  queue : s.queue = t.queue
  done : s.done = t.done
  worker : ∀ w, RunAlike Q (s.worker w) (t.worker w)

/-- A worker with a task in one pool has one in the other. -/
theorem Alike.exists_worker (h : s.Alike R Q t) {w : Fin N} {i : ℕ} {p : Prog Reply Unit}
    (hrun : s.worker w = some (i, p)) : ∃ q, t.worker w = some (i, q) ∧ p.Alike Q q := by
  have hw := h.worker w
  rw [hrun] at hw
  cases hrun' : t.worker w with
  | none =>
    rw [hrun'] at hw
    cases hw
  | some run =>
    obtain ⟨j, q⟩ := run
    rw [hrun'] at hw
    obtain ⟨rfl, hq⟩ : i = j ∧ p.Alike Q q := by
      cases hw with
      | some hw => exact hw
    exact ⟨q, rfl, hq⟩

theorem Alike.worker_none (h : s.Alike R Q t) {w : Fin N} (hfree : s.worker w = none) :
    t.worker w = none := by
  have hw := h.worker w
  rw [hfree] at hw
  cases hrun : t.worker w with
  | none => rfl
  | some run =>
    rw [hrun] at hw
    cases hw

/-- The pools stay alike where the same worker goes on in both. -/
theorem runAlike_update (h : ∀ v, RunAlike Q (s.worker v) (t.worker v)) {w : Fin N}
    {run run' : Option (ℕ × Prog Reply Unit)} (hrun : RunAlike Q run run') (v : Fin N) :
    RunAlike Q (Function.update s.worker w run v) (Function.update t.worker w run' v) := by
  by_cases hv : v = w
  · subst hv
    rw [Function.update_self, Function.update_self]
    exact hrun
  · rw [Function.update_of_ne hv, Function.update_of_ne hv]
    exact h v

/-- **Worker steps are answered.**  What a worker does in one pool the same worker can do in
a pool that is alike, and the two are alike again. -/
theorem Alike.step (hserve : ∀ c x y, R x y →
      Q c (S.serve c x).1 (S.serve c y).1 ∧ R (S.serve c x).2 (S.serve c y).2)
    (hprogram : ∀ task, (S.program task).Alike Q (S.program task))
    (h : s.Alike R Q t) {e : Event τ ε N} (he : e.OfWorker) (hstep : step S s e = some s') :
    ∃ t', step S t e = some t' ∧ s'.Alike R Q t' := by
  cases step_cases hstep with
  | env => exact he.elim
  | push => exact he.elim
  | @pop w i queue task hfree hqueue htask =>
    have hfree' := h.worker_none hfree
    have hqueue' : t.queue = i :: queue := h.queue ▸ hqueue
    have htask' : t.received[i]? = some task := h.received ▸ htask
    refine ⟨{ t with
        queue := queue
        worker := Function.update t.worker w (some (i, S.program task)) },
      by simp [Pool.step, hfree', hqueue', htask'], h.shared, h.received, rfl, h.done, ?_⟩
    exact runAlike_update h.worker (Option.Rel.some ⟨rfl, hprogram task⟩)
  | @act w i c k hrun =>
    obtain ⟨q, hrun', hq⟩ := h.exists_worker hrun
    obtain ⟨hreply, hshared⟩ := hserve c s.shared t.shared h.shared
    cases hq with
    | @call _ _ k' hk =>
      refine ⟨_, step_act hrun', hshared, h.received, h.queue, h.done, ?_⟩
      exact runAlike_update h.worker (Option.Rel.some ⟨rfl, hk _ _ hreply⟩)
  | @finish w i a hrun =>
    obtain ⟨q, hrun', hq⟩ := h.exists_worker hrun
    cases hq with
    | ret =>
      refine ⟨{ t with worker := Function.update t.worker w none, done := t.done ++ [i] },
        by simp [Pool.step, hrun'], h.shared, h.received, h.queue, ?_, ?_⟩
      · show s.done ++ [i] = t.done ++ [i]
        rw [h.done]
      · exact runAlike_update h.worker Option.Rel.none

end Pool

/-
Accounts that programs settle.

`p.Totals worth ok m`: what the calls of `p` are worth adds up to `m`, as long as the replies
are such as `ok` admits.  What the calls of a pool are worth, each for the task it is made for,
is added up along a run (`callsMade`).  Where the program of every task totals nothing the
account of a run is settled whenever no program is running (`settled`), whatever has happened
in between and whichever programs had spent what they were to get back.
-/
import SocketChat.Lib.Dues

universe u v w

namespace Prog

variable {Call : Type u} {Reply : Call → Type v} {α β : Type w} {A : Type*}
  [AddCancelCommMonoid A] {worth : Call → A} {ok : (c : Call) → Reply c → Prop} {m n : A}

/-- As long as the replies are such as `ok` admits, the calls are worth `m` together. -/
def Totals (worth : Call → A) (ok : (c : Call) → Reply c → Prop) : A → Prog Reply α → Prop
  | m, ret _ => m = 0
  | m, call c k => ∃ m', m = worth c + m' ∧ ∀ r, ok c r → (k r).Totals worth ok m'

/-- A call that is worth nothing. -/
theorem Totals.call {c : Call} {k : Reply c → Prog Reply α} (hc : worth c = 0)
    (hk : ∀ r, ok c r → (k r).Totals worth ok m) : (Prog.call c k).Totals worth ok m :=
  ⟨m, by rw [hc, zero_add], hk⟩

theorem Totals.bind {p : Prog Reply α} {f : α → Prog Reply β} (hp : p.Totals worth ok m)
    (hf : ∀ a, (f a).Totals worth ok n) : (p >>= f).Totals worth ok (m + n) := by
  induction p generalizing m with
  | ret a =>
    rw [show m = 0 from hp, zero_add]
    exact hf a
  | call c k ih =>
    obtain ⟨m', rfl, hk⟩ := hp
    exact ⟨m' + n, add_assoc _ _ _, fun r hr => ih r (hk r hr)⟩

/-- Where no call is worth anything. -/
theorem Totals.of_zero (hworth : ∀ c, worth c = 0) (p : Prog Reply α) : p.Totals worth ok 0 := by
  induction p with
  | ret a => rfl
  | call c k ih => exact Totals.call (hworth c) fun r _ => ih r

end Prog

namespace Pool

variable {Call : Type u} {Reply : Call → Type v} {σ τ ε A : Type*} [AddCancelCommMonoid A] {N : ℕ}
  {S : System Reply σ τ ε} {s s' t : Pool Reply σ τ N} {es : List (Event τ ε N)} {e : Event τ ε N}

/-- The call that an event makes, with the task it is made for. -/
def callMade (s : Pool Reply σ τ N) : Event τ ε N → Option (τ × Call)
  | .act w => (s.pending w).bind fun run => (s.received[run.1]?).map fun t => (t, run.2)
  | _ => none

/-- The calls that are made in a run. -/
def callsMade (S : System Reply σ τ ε) : Pool Reply σ τ N → List (Event τ ε N) → List (τ × Call)
  | _, [] => []
  | s, e :: es =>
    (s.callMade e).toList ++ (step S s e).elim [] fun s' => callsMade S s' es

theorem callsMade_snoc (hrun : Transition.runFrom (step S) s es = some t) (e : Event τ ε N) :
    callsMade S s (es ++ [e]) = callsMade S s es ++ (t.callMade e).toList := by
  induction es generalizing s with
  | nil =>
    rw [Transition.runFrom_nil, Option.some_inj] at hrun
    subst hrun
    rw [List.nil_append, callsMade, callsMade]
    cases step S s e with
    | none => exact List.append_nil _
    | some s' => exact List.append_nil _
  | cons f es ih =>
    obtain ⟨s', hs', hrun⟩ := Option.bind_eq_some_iff.mp hrun
    rw [List.cons_append, callsMade, callsMade, hs']
    show _ ++ callsMade S s' (es ++ [e]) = _ ++ callsMade S s' es ++ _
    rw [ih hrun, List.append_assoc]

theorem callMade_act {w : Fin N} {i : ℕ} {c : Call} {k : Reply c → Prog Reply Unit} {task : τ}
    (hrun : s.worker w = some (i, .call c k)) (ht : s.received[i]? = some task) :
    s.callMade (.act w : Event τ ε N) = some (task, c) := by
  rw [callMade, pending, hrun]
  show (s.received[i]?).map _ = _
  rw [ht]
  rfl

/-- What a worker is still to spend. -/
def ToSpend (worth : τ → Call → A) (ok : (c : Call) → Reply c → Prop) (received : List τ) :
    Option (ℕ × Prog Reply Unit) → A → Prop
  | none, m => m = 0
  | some (i, p), m => ∃ task, received[i]? = some task ∧ p.Totals (worth task) ok m

variable {worth : τ → Call → A} {ok : (c : Call) → Reply c → Prop} {spent : A}

/-- What has been spent and what the workers are still to spend come to nothing. -/
def Settling (worth : τ → Call → A) (ok : (c : Call) → Reply c → Prop) (spent : A)
    (s : Pool Reply σ τ N) : Prop :=
  ∃ rest : Fin N → A, (∀ w, ToSpend worth ok s.received (s.worker w) (rest w)) ∧
    spent + ∑ w, rest w = 0

/-- The account after a step. -/
def spentBy (worth : τ → Call → A) (made : Option (τ × Call)) : A :=
  made.elim 0 fun x => worth x.1 x.2

theorem ToSpend.append {received : List τ} {run : Option (ℕ × Prog Reply Unit)} {m : A}
    (h : ToSpend worth ok received run m) (more : List τ) :
    ToSpend worth ok (received ++ more) run m := by
  cases run with
  | none => exact h
  | some run =>
    obtain ⟨i, p⟩ := run
    obtain ⟨task, ht, hp⟩ := h
    refine ⟨task, ?_, hp⟩
    rw [List.getElem?_append_left (List.getElem?_eq_some_iff.mp ht).1, ht]

/-- One worker goes on, and is still to spend `m`. -/
theorem toSpend_update {rest : Fin N → A}
    (h : ∀ w, ToSpend worth ok s.received (s.worker w) (rest w)) (w : Fin N)
    (run : Option (ℕ × Prog Reply Unit)) {m : A} (hrun : ToSpend worth ok s.received run m)
    (v : Fin N) :
    ToSpend worth ok s.received (Function.update s.worker w run v)
      (Function.update rest w m v) := by
  by_cases hv : v = w
  · rw [hv, Function.update_self, Function.update_self]
    exact hrun
  · rw [Function.update_of_ne hv, Function.update_of_ne hv]
    exact h v

/-- The same where this is as much as before. -/
theorem toSpend_same {rest : Fin N → A}
    (h : ∀ w, ToSpend worth ok s.received (s.worker w) (rest w)) (w : Fin N)
    (run : Option (ℕ × Prog Reply Unit)) (hrun : ToSpend worth ok s.received run (rest w))
    (v : Fin N) :
    ToSpend worth ok s.received (Function.update s.worker w run v) (rest v) := by
  have hupdate := toSpend_update h w run hrun v
  rwa [Function.update_eq_self] at hupdate

/-- **The step lemma.** -/
theorem Settling.step (h : s.Settling worth ok spent)
    (hserve : ∀ c, ok c (S.serve c s.shared).1)
    (hprogram : ∀ task, (S.program task).Totals (worth task) ok 0)
    (hstep : step S s e = some s') :
    s'.Settling worth ok (spent + spentBy worth (s.callMade e)) := by
  obtain ⟨rest, hrest, htotal⟩ := h
  have hnothing : spent + (0 : A) + ∑ w, rest w = 0 := by rw [add_zero, htotal]
  cases step_cases hstep with
  | env => exact ⟨rest, hrest, hnothing⟩
  | push => exact ⟨rest, fun w => (hrest w).append _, hnothing⟩
  | @pop w i queue task hfree hqueue ht =>
    -- who takes a task had nothing to spend, and its program totals nothing
    have hzero : rest w = 0 := by
      have hw := hrest w
      rwa [hfree] at hw
    exact ⟨rest, toSpend_same hrest w (some (i, S.program task))
      ⟨task, ht, hzero ▸ hprogram task⟩, hnothing⟩
  | @act w i c k hrun =>
    have hw := hrest w
    rw [hrun] at hw
    obtain ⟨task, ht, m, hm, hk⟩ := hw
    refine ⟨Function.update rest w m, toSpend_update hrest w _ ⟨task, ht, hk _ (hserve c)⟩, ?_⟩
    have hsum := sum_update rest w m
    rw [hm, ← add_assoc, add_right_cancel_iff] at hsum
    rw [callMade_act hrun ht]
    show spent + worth task c + ∑ v, Function.update rest w m v = 0
    rw [add_assoc, add_comm (worth task c), hsum, htotal]
  | @finish w i a hrun =>
    have hw := hrest w
    rw [hrun] at hw
    obtain ⟨task, -, hzero⟩ := hw
    exact ⟨rest, toSpend_same hrest w none hzero, hnothing⟩

/-- **Whatever the interleaving, the account is settled** between two states in which no
program is running. -/
theorem settled (worth : τ → Call → A) (ok : (c : Call) → Reply c → Prop) {K : σ → Prop}
    (hserve : ∀ c x, K x → ok c (S.serve c x).1)
    (hprogram : ∀ task, (S.program task).Totals (worth task) ok 0)
    (hstart : ∀ w, s.worker w = none) (hrun : Transition.runFrom (step S) s es = some s')
    (hK : ∀ t, Transition.Visits (step S) s es t → K t.shared)
    (hend : ∀ w, s'.worker w = none) :
    ((callsMade S s es).map fun x => worth x.1 x.2).sum = 0 := by
  have hinvariant : s'.Settling worth ok ((callsMade S s es).map fun x => worth x.1 x.2).sum := by
    refine Transition.runFrom_induction (G := fun t _ => K t.shared)
      (J := fun es t => t.Settling worth ok ((callsMade S s es).map fun x => worth x.1 x.2).sum)
      ?_ ?_ hrun fun t e ht => hK t ht.visits
    · refine ⟨fun _ => 0, fun w => ?_, ?_⟩
      · rw [hstart w]
        rfl
      · rw [Finset.sum_const_zero, add_zero]
        rfl
    · intro es t e t' hrun h hKt hstep
      have h' := h.step (fun c => hserve c t.shared hKt) hprogram hstep
      rw [callsMade_snoc hrun, List.map_append, List.sum_append]
      cases hmade : t.callMade e with
      | none =>
        rw [hmade] at h'
        exact h'
      | some x =>
        rw [hmade] at h'
        rw [Option.toList_some, List.map_singleton, List.sum_singleton]
        exact h'
  obtain ⟨rest, hrest, htotal⟩ := hinvariant
  have hnone : ∀ w, rest w = 0 := by
    intro w
    have hw := hrest w
    rwa [hend w] at hw
  rwa [Finset.sum_congr rfl fun w _ => hnone w, Finset.sum_const_zero, add_zero] at htotal

end Pool

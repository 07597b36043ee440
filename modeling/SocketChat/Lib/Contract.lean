/-
Contracts of programs, and runs that may be left without a reply.

`p.Within D post q` is `p.Follows D q` with a postcondition: from state `q` of the discipline
on, whatever the replies, every call that `p` makes is allowed, and where `p` returns `a` the
discipline is in a state that `post a` holds of.  Contracts are put together program by
program (`Within.bind`).

`p.run serve s` runs `p` alone where `serve` may leave a call without a reply, which ends the
run without a result.  A program with a loop is written with fuel, and where that is spent it
makes a call that nothing can reply to; `Comes` says what it comes to with enough of it.
-/
import SocketChat.Lib.Prog
import Mathlib.Data.Nat.Notation

universe u v w

namespace Prog

variable {Call : Type u} {Reply : Call → Type v} {α β : Type w} {Q σ : Type*}

/-! ### Contracts -/

/-- Whatever the replies, the calls from `q` on are allowed, and `post` holds at the return. -/
def Within (D : Discipline Reply Q) (post : α → Q → Prop) : Q → Prog Reply α → Prop
  | q, ret a => post a q
  | q, call c k => D.allows q c ∧ ∀ r, (k r).Within D post (D.next q c r)

variable {D : Discipline Reply Q} {q : Q} {p : Prog Reply α} {f : α → Prog Reply β}
  {mid : α → Q → Prop} {post : β → Q → Prop}

/-- One program after the other. -/
theorem Within.bind (hp : p.Within D mid q) (hf : ∀ a q, mid a q → (f a).Within D post q) :
    (p >>= f).Within D post q := by
  induction p generalizing q with
  | ret a => exact hf a q hp
  | call c k ih => exact ⟨hp.1, fun r => ih r (hp.2 r)⟩

/-- A contract whose postcondition is the discipline's own. -/
theorem Within.follows (h : p.Within D (fun _ q => D.returns q) q) : p.Follows D q := by
  induction p generalizing q with
  | ret a => exact h
  | call c k ih => exact ⟨h.1, fun r => ih r (h.2 r)⟩

/-! ### Runs -/

/-- Run a program, `serve` replying to its calls as long as it does. -/
def run (serve : (c : Call) → σ → Option (Reply c × σ)) : Prog Reply α → σ → Option (α × σ)
  | ret a, s => some (a, s)
  | call c k, s => (serve c s).bind fun x => (k x.1).run serve x.2

variable {serve : (c : Call) → σ → Option (Reply c × σ)} {s s' : σ}

theorem run_bind (p : Prog Reply α) (f : α → Prog Reply β) (s : σ) :
    (p >>= f).run serve s = (p.run serve s).bind fun x => (f x.1).run serve x.2 := by
  induction p generalizing s with
  | ret a => rfl
  | call c k ih =>
    show (serve c s).bind (fun x => (k x.1 >>= f).run serve x.2) =
      ((serve c s).bind fun x => (k x.1).run serve x.2).bind fun x => (f x.1).run serve x.2
    rw [Option.bind_assoc]
    exact congrArg (serve c s).bind (funext fun x => ih x.1 x.2)

theorem run_bind_eq_some {r : β × σ} : (p >>= f).run serve s = some r ↔
    ∃ a s', p.run serve s = some (a, s') ∧ (f a).run serve s' = some r := by
  rw [run_bind, Option.bind_eq_some_iff, Prod.exists]

/-- Two programs come to the same from every state. -/
def Same (serve : (c : Call) → σ → Option (Reply c × σ)) (p p' : Prog Reply α) : Prop :=
  ∀ s, p.run serve s = p'.run serve s

theorem Same.refl (p : Prog Reply α) : p.Same serve p := fun _ => rfl

theorem Same.call {c : Call} {k k' : Reply c → Prog Reply α}
    (h : ∀ r, (k r).Same serve (k' r)) : (Prog.call c k).Same serve (.call c k') :=
  fun s => congrArg (serve c s).bind (funext fun x => h x.1 x.2)

theorem Same.bind (p : Prog Reply α) {f' : α → Prog Reply β}
    (hf : ∀ a, (f a).Same serve (f' a)) : (p >>= f).Same serve (p >>= f') := by
  intro s
  rw [run_bind, run_bind]
  exact congrArg (p.run serve s).bind (funext fun x => hf x.1 x.2)

/-! ### Fuel -/

/-- What `p` comes to from `s` is `r`, but with fuel `n` or less it may be cut. -/
def Comes (serve : (c : Call) → σ → Option (Reply c × σ)) (p : ℕ → Prog Reply α) (n : ℕ) (s : σ)
    (r : ℕ → Option (α × σ)) : Prop :=
  ∀ fuel, (p fuel).run serve s = r fuel ∨ fuel ≤ n ∧ (p fuel).run serve s = none

variable {q : ℕ → Prog Reply α} {n : ℕ} {r : ℕ → Option (α × σ)} {a : α}

theorem Comes.of_run (h : ∀ fuel, (q fuel).run serve s = r fuel) (n : ℕ) :
    Comes serve q n s r := fun fuel => Or.inl (h fuel)

/-- Programs that come to the same. -/
theorem Comes.congr {q' : ℕ → Prog Reply α} {s' : σ} (h : Comes serve q n s r)
    (heq : ∀ fuel, (q' fuel).run serve s' = (q fuel).run serve s) : Comes serve q' n s' r := by
  intro fuel
  rw [heq fuel]
  exact h fuel

theorem Comes.bind (h : Comes serve q n s fun _ => some (a, s'))
    (g : ℕ → α → Prog Reply β) : Comes serve (fun fuel => q fuel >>= g fuel) n s
      fun fuel => (g fuel a).run serve s' := by
  intro fuel
  show (q fuel >>= g fuel).run serve s = _ ∨ _
  rw [run_bind]
  rcases h fuel with heq | ⟨hfuel, hcut⟩
  · rw [heq]
    exact Or.inl rfl
  · rw [hcut]
    exact Or.inr ⟨hfuel, rfl⟩

end Prog

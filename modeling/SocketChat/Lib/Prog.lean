/-
Programs over a shared state.

A `Prog Reply α` is a program that acts on a state it shares with others only
through calls, each of them one atomic step: it either returns, or makes a call
`c` and goes on with what the call replies.  The same program has two meanings:

* `exec serve` runs it alone, from its first call to its last;
* a scheduler may run it one `call` at a time, with the calls of other programs
  in between (`Pool.lean`).

`p.Follows D q` says that whatever the replies `p` gets, it makes only calls that the
discipline `D` allows and returns only where `D` lets it, `D` keeping track of the calls
made before and of their replies.  `p.Meets serve P s` is about one run: every call `p`
makes when it runs alone from `s` finds the state as `P` has it.
-/
import Mathlib.Logic.Basic

universe u v w

/-- A program whose calls are `Call`s, a call `c` being answered in `Reply c`. -/
inductive Prog {Call : Type u} (Reply : Call → Type v) (α : Type w) where
  | ret (a : α)
  | call (c : Call) (k : Reply c → Prog Reply α)

namespace Prog

variable {Call : Type u} {Reply : Call → Type v} {α β : Type w} {σ : Type*}

/-- Run `p`, then go on with its result. -/
def bind : Prog Reply α → (α → Prog Reply β) → Prog Reply β
  | ret a, f => f a
  | call c k, f => call c fun r => (k r).bind f

instance : Monad (Prog Reply) where
  pure := ret
  bind := bind

@[simp] theorem pure_eq (a : α) : (pure a : Prog Reply α) = ret a := rfl

@[simp] theorem bind_ret (a : α) (f : α → Prog Reply β) : (ret a >>= f) = f a := rfl

@[simp] theorem bind_call (c : Call) (k : Reply c → Prog Reply α) (f : α → Prog Reply β) :
    (call c k >>= f) = call c fun r => k r >>= f := rfl

theorem bind_pure (p : Prog Reply α) : (p >>= fun a => pure a) = p := by
  induction p with
  | ret a => rfl
  | call c k ih =>
    show call c (fun r => k r >>= fun a => pure a) = call c k
    rw [funext ih]

/-! ### Running a program alone -/

/-- Run a program to its end, `serve` answering each call and updating the
state. -/
def exec (serve : (c : Call) → σ → Reply c × σ) : Prog Reply α → σ → α × σ
  | ret a, s => (a, s)
  | call c k, s => exec serve (k (serve c s).1) (serve c s).2

variable {serve : (c : Call) → σ → Reply c × σ}

@[simp] theorem exec_ret (a : α) (s : σ) : exec serve (ret a : Prog Reply α) s = (a, s) := rfl

@[simp] theorem exec_call (c : Call) (k : Reply c → Prog Reply α) (s : σ) :
    exec serve (call c k) s = exec serve (k (serve c s).1) (serve c s).2 := rfl

@[simp] theorem exec_bind (p : Prog Reply α) (f : α → Prog Reply β) (s : σ) :
    exec serve (p >>= f) s = exec serve (f (exec serve p s).1) (exec serve p s).2 := by
  induction p generalizing s with
  | ret a => rfl
  | call c k ih => exact ih (serve c s).1 (serve c s).2

/-! ### Disciplines -/

/-- A discipline for programs: the calls that are allowed in each of its states, the
state a call and its reply lead to, and the states in which a program may return. -/
structure Discipline {Call : Type u} (Reply : Call → Type v) (Q : Type*) where
  allows : Q → Call → Prop
  next : Q → (c : Call) → Reply c → Q
  returns : Q → Prop

variable {Q : Type*}

/-- From state `q` of the discipline on, every call the program makes is allowed,
whatever the replies, and so is its return. -/
def Follows (D : Discipline Reply Q) : Q → Prog Reply α → Prop
  | q, ret _ => D.returns q
  | q, call c k => D.allows q c ∧ ∀ r, (k r).Follows D (D.next q c r)

/-! ### Programs restricted to some calls -/

/-- Every call the program makes satisfies `P`, whatever the replies. -/
def Only (P : Call → Prop) : Prog Reply α → Prop
  | ret _ => True
  | call c k => P c ∧ ∀ r, (k r).Only P

variable {P : Call → Prop}

theorem Only.mono {Q : Call → Prop} {p : Prog Reply α} (hp : p.Only P) (h : ∀ c, P c → Q c) :
    p.Only Q := by
  induction p with
  | ret a => trivial
  | call c k ih => exact ⟨h c hp.1, fun r => ih r (hp.2 r)⟩

theorem Only.bind {p : Prog Reply α} {f : α → Prog Reply β} (hp : p.Only P)
    (hf : ∀ a, (f a).Only P) : (p >>= f).Only P := by
  induction p with
  | ret a => exact hf a
  | call c k ih => exact ⟨hp.1, fun r => ih r (hp.2 r)⟩

/-- What these calls keep, running the program alone keeps. -/
theorem Only.exec {J : σ → Prop} (hJ : ∀ c s, P c → J s → J (serve c s).2)
    {p : Prog Reply α} (hp : p.Only P) {s : σ} (hs : J s) : J (p.exec serve s).2 := by
  induction p generalizing s with
  | ret a => exact hs
  | call c k ih => exact ih _ (hp.2 _) (hJ c s hp.1 hs)

/-! ### The calls of one run -/

/-- Every call that is made when the program runs alone from a state satisfies `P` in the
state it is made in. -/
def Meets (serve : (c : Call) → σ → Reply c × σ) (P : Call → σ → Prop) :
    Prog Reply α → σ → Prop
  | ret _, _ => True
  | call c k, s => P c s ∧ (k (serve c s).1).Meets serve P (serve c s).2

theorem meets_call {Reply : Call → Type w} {serve : (c : Call) → σ → Reply c × σ}
    {P : Call → σ → Prop} {c : Call} {f : Reply c → Prog Reply β} {s : σ} :
    ((call c ret : Prog Reply (Reply c)) >>= f).Meets serve P s ↔
      P c s ∧ (f (serve c s).1).Meets serve P (serve c s).2 := Iff.rfl

theorem Meets.bind {P : Call → σ → Prop} {p : Prog Reply α} {f : α → Prog Reply β} {s : σ}
    (hp : p.Meets serve P s) (hf : (f (p.exec serve s).1).Meets serve P (p.exec serve s).2) :
    (p >>= f).Meets serve P s := by
  induction p generalizing s with
  | ret a => exact hf
  | call c k ih => exact ⟨hp.1, ih _ hp.2 hf⟩

/-- Calls that satisfy `P` in every state do so in the states of a run. -/
theorem Only.meets {Q : Call → σ → Prop} {p : Prog Reply α} (hp : p.Only P)
    (h : ∀ c s, P c → Q c s) (s : σ) : p.Meets serve Q s := by
  induction p generalizing s with
  | ret a => trivial
  | call c k ih => exact ⟨h c s hp.1, ih _ (hp.2 _) _⟩

end Prog

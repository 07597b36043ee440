/-
Interleavings that could have been one at a time.

The programs of a pool run call by call, in any order.  `Access` keeps what each worker has
touched and what it has changed since it took its task; a run is `Undisturbed` when no step
touches what a program still running has changed, and none changes what one still running
has touched, which is what strict locking of cells would enforce.  Once no program is running
such a run has led to the state in which the programs would have left the cells had each been
run as a whole when it came to its end (`commits`), and has logged the same entries
(`serial_of_undisturbed`).

The proof keeps the state of the serial run beside the pool's.  A program that is running
is `Ahead`: run alone from the serial state, or any that agrees with it on what the program
has touched, it comes to where it is now.
-/
import SocketChat.Lib.Dues
import SocketChat.Lib.Footprint
import Mathlib.Algebra.Order.Group.Multiset

universe u v

namespace Cells

variable {σ Loc E α : Type*} {Content : Loc → Type*} (V : Cells σ Content E)

/-- The operation acts on the cells in `F` only, and changes at most those in `W`. -/
structure Changes (F W : Set Loc) (f : σ → α × σ) (s : σ) (entries : List E) : Prop extends
    V.ActsOn F f s entries where
  subset : W ⊆ F
  unchanged : ∀ t, V.Agree F t s → V.Agree Wᶜ (f t).2 t

variable {V} {F G W : Set Loc} {f : σ → α × σ} {s t : σ} {entries : List E}

/-- What such an operation leaves alone is as before. -/
theorem Changes.keeps (h : V.Changes F W f s entries) (hG : Disjoint W G) :
    V.Agree G (f s).2 s := by
  intro l hl
  exact h.unchanged s (Agree.refl s) l fun hW => Set.disjoint_left.mp hG hW hl

/-- States that agree on what the operation touches and on `G` do so afterwards. -/
theorem Changes.agree_union (h : V.Changes F W f s entries) (hF : V.Agree F t s)
    (hG : V.Agree G t s) : V.Agree (G ∪ F) (f t).2 (f s).2 := by
  intro l hl
  by_cases hlF : l ∈ F
  · exact h.inside t hF l hlF
  · have hlG : l ∈ G := hl.resolve_right hlF
    rw [h.outside t hF l hlF, h.outside s (Agree.refl s) l hlF]
    exact hG l hlG

end Cells

namespace Pool

variable {Call : Type u} {Reply : Call → Type v} {σ τ ε Loc E : Type*} {Content : Loc → Type*}
  {N : ℕ} {V : Cells σ Content E} {S : System Reply σ τ ε}

/-- What each call and each step of the environment touches and changes in a state. -/
structure Footprints (V : Cells σ Content E) (S : System Reply σ τ ε) where
  touched : Call → σ → Set Loc
  changed : Call → σ → Set Loc
  envTouched : ε → σ → Set Loc
  envChanged : ε → σ → Set Loc
  serve : ∀ c s, ∃ entries, V.Changes (touched c s) (changed c s) (S.serve c) s entries
  /-- Whether the step is possible depends on what it touches too. -/
  env : ∀ e s, V.Changes (envTouched e s) (envChanged e s)
    (fun t => ((S.env t e).isSome, (S.env t e).getD t)) s []

/-- What each worker has touched and changed since it took its task. -/
structure Access (Loc : Type*) (N : ℕ) where
  touched : Fin N → Set Loc
  changed : Fin N → Set Loc

namespace Access

def none (Loc : Type*) (N : ℕ) : Access Loc N := ⟨fun _ => ∅, fun _ => ∅⟩

/-- Worker `w` touches `F` and changes `W`. -/
def add (A : Access Loc N) (w : Fin N) (F W : Set Loc) : Access Loc N :=
  ⟨Function.update A.touched w (A.touched w ∪ F), Function.update A.changed w (A.changed w ∪ W)⟩

/-- Worker `w` has come to the end of its task. -/
def clear (A : Access Loc N) (w : Fin N) : Access Loc N :=
  ⟨Function.update A.touched w ∅, Function.update A.changed w ∅⟩

/-- Touching `F` and changing `W` does not get in the way of worker `v`. -/
def Admits (A : Access Loc N) (F W : Set Loc) (v : Fin N) : Prop :=
  Disjoint F (A.changed v) ∧ Disjoint W (A.touched v)

end Access

variable (P : Footprints V S)

/-- The step gets in the way of no program that is running. -/
def Compatible (s : Pool Reply σ τ N) (A : Access Loc N) : Event τ ε N → Prop
  | .env e => ∀ v, A.Admits (P.envTouched e s.shared) (P.envChanged e s.shared) v
  | .act w => ∀ i c, s.pending w = some (i, c) →
      ∀ v, v ≠ w → A.Admits (P.touched c s.shared) (P.changed c s.shared) v
  | _ => True

/-- What the workers have touched and changed after a step. -/
def access (s : Pool Reply σ τ N) (A : Access Loc N) : Event τ ε N → Access Loc N
  | .act w => (s.pending w).elim A fun p =>
      A.add w (P.touched p.2 s.shared) (P.changed p.2 s.shared)
  | .finish w => A.clear w
  | _ => A

/-- No step of the run gets in the way of a program that is running. -/
def Undisturbed : Pool Reply σ τ N → Access Loc N → List (Event τ ε N) → Prop
  | _, _, [] => True
  | s, A, e :: es => Compatible P s A e ∧
      ∀ s', step S s e = some s' → Undisturbed s' (access P s A e) es

/-- What each worker has touched is among the cells `F i` of the task it runs, and it has
changed no more than it has touched. -/
structure Own (F : ℕ → Set Loc) (s : Pool Reply σ τ N) (A : Access Loc N) : Prop where
  touched : ∀ w l, l ∈ A.touched w → ∃ i, s.Runs w i ∧ l ∈ F i
  changed : ∀ w, A.changed w ⊆ A.touched w

section Own

variable {P} {F : ℕ → Set Loc} {s s' : Pool Reply σ τ N} {A : Access Loc N}

/-- What keeps away from a worker's cells does not get in its way. -/
theorem Own.admits (h : Own F s A) {G X : Set Loc} {v : Fin N} (hX : X ⊆ G)
    (hG : ∀ i, s.Runs v i → Disjoint G (F i)) : A.Admits G X v := by
  have hdisjoint : Disjoint G (A.touched v) := by
    rw [Set.disjoint_left]
    intro l hl hv
    obtain ⟨i, hi, hmem⟩ := h.touched v l hv
    exact Set.disjoint_left.mp (hG i hi) hl hmem
  exact ⟨hdisjoint.mono_right (h.changed v), hdisjoint.mono_left hX⟩

/-- The worker calls for cells of its task. -/
theorem Own.add (h : Own F s A) {w : Fin N} {i : ℕ} {c : Call} {k : Reply c → Prog Reply Unit}
    (hrun : s.worker w = some (i, .call c k)) {G X : Set Loc} (hX : X ⊆ G) (hG : G ⊆ F i) :
    Own F { s with
      shared := (S.serve c s.shared).2
      worker := Function.update s.worker w (some (i, k (S.serve c s.shared).1)) }
      (A.add w G X) := by
  refine ⟨fun v l hl => ?_, fun v => ?_⟩
  · have hl : l ∈ Function.update A.touched w (A.touched w ∪ G) v := hl
    by_cases hv : v = w
    · subst hv
      rw [Function.update_self] at hl
      refine ⟨i, runs_update.mpr (Or.inl ⟨rfl, _, rfl⟩), ?_⟩
      rcases hl with hl | hl
      · obtain ⟨j, ⟨p, hp⟩, hmem⟩ := h.touched v l hl
        rw [hrun, Option.some_inj] at hp
        obtain ⟨rfl, -⟩ := Prod.mk.inj hp
        exact hmem
      · exact hG hl
    · rw [Function.update_of_ne hv] at hl
      obtain ⟨j, hj, hmem⟩ := h.touched v l hl
      exact ⟨j, runs_update.mpr (Or.inr ⟨hv, hj⟩), hmem⟩
  · show Function.update A.changed w (A.changed w ∪ X) v ⊆
      Function.update A.touched w (A.touched w ∪ G) v
    by_cases hv : v = w
    · subst hv
      rw [Function.update_self, Function.update_self]
      exact Set.union_subset_union (h.changed v) hX
    · rw [Function.update_of_ne hv, Function.update_of_ne hv]
      exact h.changed v

/-- The worker has come to the end of its task. -/
theorem Own.clear (h : Own F s A) (w : Fin N) (done : List ℕ) :
    Own F { s with worker := Function.update s.worker w none, done := done } (A.clear w) := by
  refine ⟨fun v l hl => ?_, fun v => ?_⟩
  · have hl : l ∈ Function.update A.touched w ∅ v := hl
    by_cases hv : v = w
    · subst hv
      rw [Function.update_self] at hl
      exact absurd hl (Set.notMem_empty l)
    · rw [Function.update_of_ne hv] at hl
      obtain ⟨i, hi, hmem⟩ := h.touched v l hl
      exact ⟨i, runs_update.mpr (Or.inr ⟨hv, hi⟩), hmem⟩
  · show Function.update A.changed w ∅ v ⊆ Function.update A.touched w ∅ v
    by_cases hv : v = w
    · subst hv
      rw [Function.update_self]
      exact Set.empty_subset _
    · rw [Function.update_of_ne hv, Function.update_of_ne hv]
      exact h.changed v

theorem Own.step (h : Own F s A) {e : Event τ ε N}
    (hact : ∀ w i c, e = .act w → s.pending w = some (i, c) → P.touched c s.shared ⊆ F i)
    (hstep : step S s e = some s') : Own F s' (access P s A e) := by
  cases step_cases hstep with
  | env => exact ⟨h.touched, h.changed⟩
  | push => exact ⟨h.touched, h.changed⟩
  | @pop w i queue t hfree =>
    refine ⟨fun v l hl => ?_, h.changed⟩
    obtain ⟨j, hj, hmem⟩ := h.touched v l hl
    refine ⟨j, runs_update.mpr (Or.inr ⟨?_, hj⟩), hmem⟩
    -- the worker that takes a task ran none
    rintro rfl
    obtain ⟨p, hp⟩ := hj
    rw [hfree] at hp
    cases hp
  | @act w i c k hrun =>
    obtain ⟨entries, hc⟩ := P.serve c s.shared
    have hpending := pending_eq_some.mpr ⟨k, hrun⟩
    rw [access, hpending]
    exact h.add hrun hc.subset (hact w i c rfl hpending)
  | @finish w i u hrun => exact h.clear w (s.done ++ [i])

/-- **Programs on cells of their own** do not get in each other's way: it is enough that
programs that are running at the same time have disjoint sets of cells, that each calls for
cells of its own only, and that the environment leaves theirs alone. -/
theorem undisturbed_of_separate {es : List (Event τ ε N)}
    (hrun : Transition.runFrom (Pool.step S) s es = some s') (h : Own F s A)
    (hapart : ∀ t e, Transition.Takes (Pool.step S) s es t e → ∀ v w i j, v ≠ w → t.Runs v i →
      t.Runs w j → Disjoint (F i) (F j))
    (hact : ∀ t w i c, Transition.Takes (Pool.step S) s es t (.act w) →
      t.pending w = some (i, c) → P.touched c t.shared ⊆ F i)
    (henv : ∀ t e, Transition.Takes (Pool.step S) s es t (.env e) → ∀ w i, t.Runs w i →
      Disjoint (P.envTouched e t.shared) (F i)) : Undisturbed P s A es := by
  induction es generalizing s A with
  | nil => trivial
  | cons e es ih =>
    rw [Transition.runFrom_cons, Option.bind_eq_some_iff] at hrun
    obtain ⟨s₁, hstep, hrun⟩ := hrun
    have hfirst : Transition.Takes (Pool.step S) s (e :: es) s e :=
      (Transition.takes_cons hstep).mpr (Or.inl ⟨rfl, rfl⟩)
    have hlater : ∀ {t f}, Transition.Takes (Pool.step S) s₁ es t f →
        Transition.Takes (Pool.step S) s (e :: es) t f :=
      fun h => (Transition.takes_cons hstep).mpr (Or.inr h)
    refine ⟨?_, fun s₂ hstep₂ => ?_⟩
    · cases e with
      | env e =>
        intro v
        exact h.admits (P.env e s.shared).subset (henv s e hfirst v)
      | act w =>
        intro i c hpending v hv
        obtain ⟨k, hk⟩ := pending_eq_some.mp hpending
        obtain ⟨entries, hc⟩ := P.serve c s.shared
        refine h.admits hc.subset fun j hj => ?_
        have hmine := hact s w i c hfirst hpending
        exact (hapart s _ hfirst w v i j hv.symm ⟨_, hk⟩ hj).mono_left hmine
      | _ => trivial
    · obtain rfl : s₁ = s₂ := Option.some.inj (hstep.symm.trans hstep₂)
      have hown := h.step (fun w i c he hpending => hact s w i c (he ▸ hfirst) hpending) hstep
      exact ih hrun hown (fun t f h => hapart t f (hlater h))
        (fun t w i c h => hact t w i c (hlater h)) fun t f h => henv t f (hlater h)

end Own

/-! ### The serial run -/

inductive SerialEvent (τ ε : Type*) where
  | env (e : ε)
  /-- The program of a task, from its first call to its last. -/
  | task (t : τ)

def serialStep (S : System Reply σ τ ε) (a : σ) : SerialEvent τ ε → Option σ
  | .env e => S.env a e
  | .task t => some ((S.program t).exec S.serve a).2

/-- What a step adds to the serial run: a program is run when it comes to its end. -/
def commit (s : Pool Reply σ τ N) : Event τ ε N → List (SerialEvent τ ε)
  | .env e => [.env e]
  | .finish w => (((s.worker w).bind fun run => s.received[run.1]?).map SerialEvent.task).toList
  | _ => []

/-- The serial run of a run of the pool. -/
def commits (S : System Reply σ τ ε) : Pool Reply σ τ N → List (Event τ ε N) →
    List (SerialEvent τ ε)
  | _, [] => []
  | s, e :: es => commit s e ++ (step S s e).elim [] fun s' => commits S s' es

/-! ### A program ahead of the serial run -/

/-- The program `p`, run alone from `a` or from a state that agrees with it on `F`, comes to
`q` in a state that agrees with `x` on `F`; until then it has changed at most `W`, and has
logged `entries`. -/
def Ahead (V : Cells σ Content E) (S : System Reply σ τ ε) (F W : Set Loc)
    (p q : Prog Reply Unit) (a x : σ) (entries : Multiset E) : Prop :=
  ∀ a', V.Agree F a' a → ∃ b, p.exec S.serve a' = q.exec S.serve b ∧ V.Agree F b x ∧
    V.Agree Wᶜ b a' ∧ (V.log b : Multiset E) = V.log a' + entries

variable {F W G : Set Loc} {p q : Prog Reply Unit} {a a' x x' : σ} {m : Multiset E}

/-- A program is at its start. -/
theorem Ahead.start (p : Prog Reply Unit) (a x : σ) : Ahead V S ∅ ∅ p p a x 0 := by
  intro a' _
  refine ⟨a', rfl, ?_, Cells.Agree.refl a', (add_zero _).symm⟩
  intro l hl
  exact absurd hl (Set.notMem_empty l)

/-- What others do does not matter as long as they keep what the program has touched. -/
theorem Ahead.shared (h : Ahead V S F W p q a x m) (hx : V.Agree F x' x) :
    Ahead V S F W p q a x' m := by
  intro a' ha'
  obtain ⟨b, hexec, hb, hout, hlog⟩ := h a' ha'
  exact ⟨b, hexec, hb.trans hx.symm, hout, hlog⟩

theorem Ahead.serial (h : Ahead V S F W p q a x m) (ha : V.Agree F a' a) :
    Ahead V S F W p q a' x m := by
  intro a'' ha''
  exact h a'' (ha''.trans ha)

/-- The program makes a call: what that touches is, as far as it is new, as in the serial
state. -/
theorem Ahead.call {c : Call} {k : Reply c → Prog Reply Unit} {H X : Set Loc} {entries : List E}
    (h : Ahead V S F W p (.call c k) a x m) (hsubset : W ⊆ F)
    (hc : V.Changes H X (S.serve c) x entries) (hnew : ∀ l ∈ H, l ∉ F → V.read x l = V.read a l) :
    Ahead V S (F ∪ H) (W ∪ X) p (k (S.serve c x).1) a (S.serve c x).2 (m + entries) := by
  intro a' ha'
  obtain ⟨b, hexec, hb, hout, hlog⟩ := h a' (ha'.mono Set.subset_union_left)
  -- the call finds in `b` what it finds in `x`
  have hbH : V.Agree H b x := by
    intro l hl
    by_cases hlF : l ∈ F
    · exact hb l hlF
    · calc V.read b l = V.read a' l := hout l fun hlW => hlF (hsubset hlW)
        _ = V.read a l := ha' l (Or.inr hl)
        _ = V.read x l := (hnew l hl hlF).symm
  refine ⟨(S.serve c b).2, ?_, hc.agree_union hbH hb, ?_, ?_⟩
  · rw [hexec, Prog.exec_call, hc.result b hbH]
  · intro l hl
    rw [Set.mem_compl_iff, Set.mem_union, not_or] at hl
    rw [hc.unchanged b hbH l hl.2]
    exact hout l hl.1
  · rw [hc.log b hbH, ← Multiset.coe_add, hlog, add_assoc]

/-- The program has come to its end: in the serial run it is run now. -/
theorem Ahead.finish {u : Unit} (h : Ahead V S F W p (.ret u) a x m) :
    V.Agree F (p.exec S.serve a).2 x ∧ V.Agree Wᶜ (p.exec S.serve a).2 a ∧
      (V.log (p.exec S.serve a).2 : Multiset E) = V.log a + m := by
  obtain ⟨b, hexec, hb, hout, hlog⟩ := h a (Cells.Agree.refl a)
  rw [hexec]
  exact ⟨hb, hout, hlog⟩

/-! ### The pool and the serial run -/

/-- Where a worker is compared with the serial run. -/
def Stage (V : Cells σ Content E) (S : System Reply σ τ ε) (received : List τ) (F W : Set Loc)
    (a x : σ) (m : Multiset E) : Option (ℕ × Prog Reply Unit) → Prop
  | none => F = ∅ ∧ m = 0
  | some (i, q) => ∃ t, received[i]? = some t ∧ Ahead V S F W (S.program t) q a x m

theorem Stage.keep {received received' : List τ} {run : Option (ℕ × Prog Reply Unit)}
    (h : Stage V S received F W a x m run) (hreceived : received <+: received')
    (hx : V.Agree F x' x) (ha : V.Agree F a' a) : Stage V S received' F W a' x' m run := by
  cases run with
  | none => exact h
  | some run =>
    obtain ⟨i, q⟩ := run
    obtain ⟨t, ht, hahead⟩ := h
    refine ⟨t, ?_, (hahead.shared hx).serial ha⟩
    obtain ⟨more, rfl⟩ := hreceived
    rw [List.getElem?_append_left (List.getElem?_eq_some_iff.mp ht).1, ht]

/-- The pool in state `s` is ahead of the serial run, which is in state `a`, by what the
programs that are running have done. -/
structure Serial (V : Cells σ Content E) (S : System Reply σ τ ε) (s : Pool Reply σ τ N)
    (A : Access Loc N) (a : σ) (entries : Fin N → Multiset E) : Prop where
  agree : ∀ l, (∀ w, l ∉ A.changed w) → V.read s.shared l = V.read a l
  apart : ∀ v w, v ≠ w → Disjoint (A.touched v) (A.changed w)
  subset : ∀ w, A.changed w ⊆ A.touched w
  worker : ∀ w, Stage V S s.received (A.touched w) (A.changed w) a s.shared (entries w)
    (s.worker w)
  log : (V.log s.shared : Multiset E) = V.log a + ∑ w, entries w

variable {P} {s s' : Pool Reply σ τ N} {A : Access Loc N} {entries : Fin N → Multiset E}

/-- A step of the environment is a step of the serial run. -/
theorem Serial.env (h : Serial V S s A a entries) {e : ε} {shared : σ}
    (hcompatible : Compatible P s A (.env e)) (henv : S.env s.shared e = some shared) :
    ∃ a', S.env a e = some a' ∧ Serial V S { s with shared := shared } A a' entries := by
  have hchanges := P.env e s.shared
  have hsame : V.Agree (P.envTouched e s.shared) a s.shared := by
    intro l hl
    refine (h.agree l fun w hw => ?_).symm
    exact Set.disjoint_left.mp (hcompatible w).1 hl hw
  have hpossible : (S.env a e).isSome = (S.env s.shared e).isSome := hchanges.result a hsame
  rw [henv] at hpossible
  obtain ⟨a', ha'⟩ := Option.isSome_iff_exists.mp hpossible
  have hafter : ((S.env s.shared e).getD s.shared, (S.env a e).getD a) = (shared, a') := by
    rw [henv, ha']
    rfl
  obtain ⟨hs, ha⟩ := Prod.mk.inj hafter
  have hshared : ∀ w, V.Agree (A.touched w) shared s.shared := by
    intro w
    have := hchanges.keeps (hcompatible w).2
    rwa [hs] at this
  have hserial : ∀ w, V.Agree (A.touched w) a' a := by
    intro w l hl
    have := hchanges.unchanged a hsame l fun hW =>
      Set.disjoint_left.mp (hcompatible w).2 hW hl
    rwa [ha] at this
  refine ⟨a', ha', fun l hl => ?_, h.apart, h.subset, fun w => ?_, ?_⟩
  · have hunion := hchanges.agree_union hsame (G := {l}) fun l' hl' => by
      rw [Set.mem_singleton_iff.mp hl']
      exact (h.agree l hl).symm
    simp only [hs, ha] at hunion
    exact (hunion l (Or.inl rfl)).symm
  · exact (h.worker w).keep (List.prefix_refl _) (hshared w) (hserial w)
  · have hlogs := hchanges.log s.shared (Cells.Agree.refl _)
    have hloga := hchanges.log a hsame
    simp only [hs, ha, List.append_nil] at hlogs hloga
    show (V.log shared : Multiset E) = _
    rw [hlogs, hloga]
    exact h.log

/-- A worker takes a task. -/
theorem Serial.pop (h : Serial V S s A a entries) {w : Fin N} {i : ℕ} {queue : List ℕ} {t : τ}
    (hfree : s.worker w = none) (ht : s.received[i]? = some t) :
    Serial V S { s with
      queue := queue
      worker := Function.update s.worker w (some (i, S.program t)) } A a entries := by
  refine ⟨h.agree, h.apart, h.subset, fun v => ?_, h.log⟩
  by_cases hv : v = w
  · subst hv
    have hstage := h.worker v
    rw [hfree] at hstage
    obtain ⟨htouched, hentries⟩ := hstage
    have hchanged : A.changed v = ∅ := by
      rw [← Set.subset_empty_iff, ← htouched]
      exact h.subset v
    show Stage V S s.received _ _ a s.shared _ (Function.update s.worker v _ v)
    rw [Function.update_self, htouched, hchanged, hentries]
    exact ⟨t, ht, Ahead.start (S.program t) a s.shared⟩
  · show Stage V S s.received _ _ a s.shared _ (Function.update s.worker w _ v)
    rw [Function.update_of_ne hv]
    exact h.worker v

/-- A worker makes a call, of which the serial run takes no notice yet. -/
theorem Serial.act (h : Serial V S s A a entries) {w : Fin N} {i : ℕ} {c : Call}
    {k : Reply c → Prog Reply Unit} (hrun : s.worker w = some (i, .call c k))
    (hcompatible : ∀ v, v ≠ w → A.Admits (P.touched c s.shared) (P.changed c s.shared) v) :
    ∃ entries', Serial V S { s with
      shared := (S.serve c s.shared).2
      worker := Function.update s.worker w (some (i, k (S.serve c s.shared).1)) }
      (A.add w (P.touched c s.shared) (P.changed c s.shared)) a entries' := by
  obtain ⟨logged, hc⟩ := P.serve c s.shared
  have hstage := h.worker w
  rw [hrun] at hstage
  obtain ⟨t, ht, hahead⟩ := hstage
  -- what the call touches first is as in the serial state
  have hnew : ∀ l ∈ P.touched c s.shared, l ∉ A.touched w →
      V.read s.shared l = V.read a l := by
    intro l hl hlw
    refine h.agree l fun v hv => ?_
    by_cases hvw : v = w
    · exact hlw (h.subset w (hvw ▸ hv))
    · exact Set.disjoint_left.mp (hcompatible v hvw).1 hl hv
  have hothers : ∀ v, v ≠ w → V.Agree (A.touched v) (S.serve c s.shared).2 s.shared :=
    fun v hv => hc.keeps (hcompatible v hv).2
  have htouched : ∀ v, v ≠ w →
      (A.add w (P.touched c s.shared) (P.changed c s.shared)).touched v = A.touched v :=
    fun v hv => Function.update_of_ne hv _ _
  have hchanged : ∀ v, v ≠ w →
      (A.add w (P.touched c s.shared) (P.changed c s.shared)).changed v = A.changed v :=
    fun v hv => Function.update_of_ne hv _ _
  have htouched' : (A.add w (P.touched c s.shared) (P.changed c s.shared)).touched w =
      A.touched w ∪ P.touched c s.shared := Function.update_self _ _ _
  have hchanged' : (A.add w (P.touched c s.shared) (P.changed c s.shared)).changed w =
      A.changed w ∪ P.changed c s.shared := Function.update_self _ _ _
  refine ⟨Function.update entries w (entries w + logged), fun l hl => ?_, fun v v' hne => ?_,
    fun v => ?_, fun v => ?_, ?_⟩
  · have hlw := hl w
    rw [hchanged', Set.mem_union, not_or] at hlw
    have hbefore : V.read s.shared l = V.read a l := by
      refine h.agree l fun v hv => ?_
      by_cases hvw : v = w
      · exact hlw.1 (hvw ▸ hv)
      · exact hl v (hchanged v hvw ▸ hv)
    show V.read (S.serve c s.shared).2 l = _
    rw [hc.unchanged s.shared (Cells.Agree.refl _) l hlw.2, hbefore]
  · by_cases hv : v = w
    · subst hv
      rw [htouched', hchanged v' hne.symm, Set.disjoint_union_left]
      exact ⟨h.apart v v' hne, (hcompatible v' hne.symm).1⟩
    · rw [htouched v hv]
      by_cases hv' : v' = w
      · subst hv'
        rw [hchanged', Set.disjoint_union_right]
        exact ⟨h.apart v v' hne, (hcompatible v hne).2.symm⟩
      · rw [hchanged v' hv']
        exact h.apart v v' hne
  · by_cases hv : v = w
    · subst hv
      rw [htouched', hchanged']
      exact Set.union_subset_union (h.subset v) hc.subset
    · rw [htouched v hv, hchanged v hv]
      exact h.subset v
  · by_cases hv : v = w
    · subst hv
      show Stage V S s.received _ _ a _ (Function.update entries v _ v)
        (Function.update s.worker v _ v)
      rw [Function.update_self, Function.update_self, htouched', hchanged']
      exact ⟨t, ht, hahead.call (h.subset v) hc hnew⟩
    · show Stage V S s.received _ _ a _ (Function.update entries w _ v)
        (Function.update s.worker w _ v)
      rw [Function.update_of_ne hv, Function.update_of_ne hv, htouched v hv, hchanged v hv]
      exact (h.worker v).keep (List.prefix_refl _) (hothers v hv) (Cells.Agree.refl a)
  · have hsum : ∑ v, Function.update entries w (entries w + logged) v =
        ∑ v, entries v + logged := by
      have := sum_update entries w (entries w + logged)
      rw [add_left_comm, add_comm] at this
      exact add_left_cancel this
    show (V.log (S.serve c s.shared).2 : Multiset E) = _
    rw [hc.log s.shared (Cells.Agree.refl _), ← Multiset.coe_add, h.log, hsum, add_assoc]

/-- A program comes to its end, and the serial run catches up with it. -/
theorem Serial.finish (h : Serial V S s A a entries) {w : Fin N} {i : ℕ} {u : Unit}
    (hrun : s.worker w = some (i, .ret u)) :
    ∃ t entries', s.received[i]? = some t ∧ Serial V S { s with
      worker := Function.update s.worker w none
      done := s.done ++ [i] } (A.clear w) ((S.program t).exec S.serve a).2 entries' := by
  have hstage := h.worker w
  rw [hrun] at hstage
  obtain ⟨t, ht, hahead⟩ := hstage
  obtain ⟨hb, hout, hlog⟩ := hahead.finish
  have htouched : ∀ v, v ≠ w → (A.clear w).touched v = A.touched v :=
    fun v hv => Function.update_of_ne hv _ _
  have hchanged : ∀ v, v ≠ w → (A.clear w).changed v = A.changed v :=
    fun v hv => Function.update_of_ne hv _ _
  have htouched' : (A.clear w).touched w = ∅ := Function.update_self _ _ _
  have hchanged' : (A.clear w).changed w = ∅ := Function.update_self _ _ _
  refine ⟨t, Function.update entries w 0, ht, fun l hl => ?_, fun v v' hne => ?_, fun v => ?_,
    fun v => ?_, ?_⟩
  · by_cases hlw : l ∈ A.touched w
    · exact (hb l hlw).symm
    · -- nobody has changed the cell
      have hbefore : V.read s.shared l = V.read a l := by
        refine h.agree l fun v hv => ?_
        by_cases hvw : v = w
        · exact hlw (h.subset w (hvw ▸ hv))
        · exact hl v ((hchanged v hvw).symm ▸ hv)
      show V.read s.shared l = _
      rw [hbefore]
      exact (hout l fun hW => hlw (h.subset w hW)).symm
  · by_cases hv : v = w
    · rw [hv, htouched']
      exact Set.empty_disjoint _
    · by_cases hv' : v' = w
      · rw [hv', hchanged']
        exact Set.disjoint_empty _
      · rw [htouched v hv, hchanged v' hv']
        exact h.apart v v' hne
  · by_cases hv : v = w
    · rw [hv, hchanged']
      exact Set.empty_subset _
    · rw [htouched v hv, hchanged v hv]
      exact h.subset v
  · by_cases hv : v = w
    · subst hv
      show Stage V S s.received _ _ _ s.shared (Function.update entries v 0 v)
        (Function.update s.worker v none v)
      rw [Function.update_self, Function.update_self]
      exact ⟨htouched', rfl⟩
    · show Stage V S s.received _ _ _ s.shared (Function.update entries w 0 v)
        (Function.update s.worker w none v)
      rw [Function.update_of_ne hv, Function.update_of_ne hv, htouched v hv, hchanged v hv]
      refine (h.worker v).keep (List.prefix_refl _) (Cells.Agree.refl _) ?_
      intro l hl
      exact hout l fun hW => Set.disjoint_left.mp (h.apart v w hv) hl hW
  · have hsum := sum_update entries w 0
    rw [add_zero] at hsum
    show (V.log s.shared : Multiset E) = _
    rw [h.log, hlog, ← hsum, add_assoc, add_comm (entries w)]

/-- **The step lemma.** -/
theorem Serial.step {e : Event τ ε N} (h : Serial V S s A a entries)
    (hcompatible : Compatible P s A e) (hstep : step S s e = some s') :
    ∃ a' entries', Transition.runFrom (serialStep S) a (commit s e) = some a' ∧
      Serial V S s' (access P s A e) a' entries' := by
  cases step_cases hstep with
  | @env e shared henv =>
    obtain ⟨a', ha', h'⟩ := h.env hcompatible henv
    exact ⟨a', entries, Transition.runFrom_single ha', h'⟩
  | push =>
    refine ⟨a, entries, rfl, h.agree, h.apart, h.subset, fun w => ?_, h.log⟩
    exact (h.worker w).keep (List.prefix_append _ _) (Cells.Agree.refl _) (Cells.Agree.refl _)
  | pop hfree hqueue ht => exact ⟨a, entries, rfl, h.pop hfree ht⟩
  | @act w i c k hrun =>
    have hpending := pending_eq_some.mpr ⟨k, hrun⟩
    obtain ⟨entries', h'⟩ := h.act hrun (hcompatible i c hpending)
    refine ⟨a, entries', rfl, ?_⟩
    rw [access, hpending]
    exact h'
  | @finish w i u hrun =>
    obtain ⟨t, entries', ht, h'⟩ := h.finish hrun
    refine ⟨_, entries', ?_, h'⟩
    rw [commit, hrun, Option.bind_some, ht]
    rfl

/-- **The run lemma.** -/
theorem Serial.run {es : List (Event τ ε N)} (h : Serial V S s A a entries)
    (hundisturbed : Undisturbed P s A es) (hrun : Transition.runFrom (Pool.step S) s es = some s') :
    ∃ A' a' entries', Transition.runFrom (serialStep S) a (commits S s es) = some a' ∧
      Serial V S s' A' a' entries' := by
  induction es generalizing s A a entries with
  | nil =>
    obtain rfl := Option.some.inj hrun
    exact ⟨A, a, entries, rfl, h⟩
  | cons e es ih =>
    obtain ⟨hcompatible, hrest⟩ := hundisturbed
    rw [Transition.runFrom_cons, Option.bind_eq_some_iff] at hrun
    obtain ⟨s₁, hstep, hrun⟩ := hrun
    obtain ⟨a₁, entries₁, hserial, h₁⟩ := h.step hcompatible hstep
    obtain ⟨A', a', entries', hserial', h'⟩ := ih h₁ (hrest s₁ hstep) hrun
    refine ⟨A', a', entries', ?_, h'⟩
    rw [commits, hstep, Transition.runFrom_append, hserial, Option.bind_some]
    exact hserial'

/-- **Undisturbed runs are serializable.**  When no worker runs a program, the shared state
has in all cells what the serial run leaves there, and the same entries are logged. -/
theorem serial_of_undisturbed {es : List (Event τ ε N)} {y : σ}
    (hrun : Transition.runFrom (Pool.step S) (init Reply τ N y) es = some s)
    (hundisturbed : Undisturbed P (init Reply τ N y) (Access.none Loc N) es)
    (hidle : ∀ w, s.worker w = none) :
    ∃ a, Transition.runFrom (serialStep S) y (commits S (init Reply τ N y) es) = some a ∧
      (∀ l, V.read s.shared l = V.read a l) ∧ (V.log s.shared).Perm (V.log a) := by
  have hstart : Serial V S (init Reply τ N y) (Access.none Loc N) y fun _ => 0 := by
    refine ⟨fun _ _ => rfl, fun v w _ => Set.disjoint_empty _, fun _ => le_refl _,
      fun _ => ⟨rfl, rfl⟩, ?_⟩
    rw [Finset.sum_const_zero, add_zero]
    rfl
  obtain ⟨A, a, entries, hserial, h⟩ := hstart.run hundisturbed hrun
  have hnone : ∀ w, A.touched w = ∅ ∧ entries w = 0 := by
    intro w
    have hstage := h.worker w
    rwa [hidle w] at hstage
  refine ⟨a, hserial, fun l => h.agree l fun w hw => ?_, ?_⟩
  · have hmem := h.subset w hw
    rw [(hnone w).1] at hmem
    exact hmem
  · have hlog := h.log
    rw [Finset.sum_eq_zero fun w _ => (hnone w).2, add_zero] at hlog
    exact Multiset.coe_eq_coe.mp hlog

end Pool

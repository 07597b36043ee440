/-
Runs of a guarded step function.

A system is given by an executable, guarded step `step : S → E → Option S`
(`none` where the event is not possible in the state).  This file has the
vocabulary in which properties of whole runs are stated:

* `runFrom` — the state after a list of events;
* `Visits` — the states a run passes through, first and last included;
* `Takes` — the steps of a run, each with the state it is taken in;

and the two rules by which they are proved: `Visits.invariant` (what every step
preserves holds in every state visited) and `visits_iff_takes` (a property that
the good steps preserve and the bad ones break holds along exactly the runs
without bad steps).  `runFrom_map` and `takes_map` relate a system to one with more
state, and `runFrom_simulated` to one that answers each of its steps with a run.
-/
import Mathlib.Data.List.Induction
import Mathlib.Data.List.Infix

namespace Transition

variable {S E : Type*} {step : S → E → Option S}

/-- The state after the events `es`, if each of them is possible in turn. -/
def runFrom (step : S → E → Option S) : S → List E → Option S
  | s, [] => some s
  | s, e :: es => (step s e).bind fun t => runFrom step t es

/-- The run over `es` from `s` passes through `t`. -/
def Visits (step : S → E → Option S) (s : S) (es : List E) (t : S) : Prop :=
  ∃ pre, pre <+: es ∧ runFrom step s pre = some t

/-- The run over `es` from `s` takes event `e` in state `t`. -/
def Takes (step : S → E → Option S) (s : S) (es : List E) (t : S) (e : E) : Prop :=
  ∃ pre, pre ++ [e] <+: es ∧ runFrom step s pre = some t

@[simp] theorem runFrom_nil (s : S) : runFrom step s [] = some s := rfl

@[simp] theorem runFrom_cons (s : S) (e : E) (es : List E) :
    runFrom step s (e :: es) = (step s e).bind fun t => runFrom step t es := rfl

theorem runFrom_single {s t : S} {e : E} (h : step s e = some t) :
    runFrom step s [e] = some t := by
  rw [runFrom_cons, h]
  rfl

theorem runFrom_append (s : S) (es fs : List E) :
    runFrom step s (es ++ fs) = (runFrom step s es).bind fun t => runFrom step t fs := by
  induction es generalizing s with
  | nil => rfl
  | cons e es ih =>
    rw [List.cons_append, runFrom_cons, runFrom_cons]
    cases step s e with
    | none => rfl
    | some t => exact ih t

theorem Visits.start (s : S) (es : List E) : Visits step s es s :=
  ⟨[], List.nil_prefix, rfl⟩

theorem Visits.last {s t : S} {es : List E} (h : runFrom step s es = some t) :
    Visits step s es t :=
  ⟨es, List.prefix_refl es, h⟩

/-- A run whose last state passes a check. -/
theorem Visits.of_any {check : S → Bool} {s : S} {es : List E}
    (h : (runFrom step s es).any check = true) : ∃ t, Visits step s es t ∧ check t = true := by
  obtain ⟨t, hrun, ht⟩ := (Option.any_eq_true check _).mp h
  exact ⟨t, Visits.last hrun, ht⟩

/-- The states of a run that passes a check in each of them. -/
theorem Visits.of_all {check : S → Bool} {s t : S} {es : List E}
    (h : es.inits.all (fun pre => (runFrom step s pre).all check) = true)
    (ht : Visits step s es t) : check t = true := by
  obtain ⟨pre, hpre, hrun⟩ := ht
  have hcheck := List.all_eq_true.mp h pre ((List.mem_inits pre es).mpr hpre)
  rwa [hrun] at hcheck

theorem visits_nil {s t : S} : Visits step s [] t ↔ t = s := by
  constructor
  · rintro ⟨pre, hpre, hrun⟩
    rw [List.prefix_nil.mp hpre, runFrom_nil, Option.some_inj] at hrun
    exact hrun.symm
  · rintro rfl
    exact Visits.start t []

theorem visits_cons {s s' t : S} {e : E} {es : List E} (hs : step s e = some s') :
    Visits step s (e :: es) t ↔ t = s ∨ Visits step s' es t := by
  constructor
  · rintro ⟨pre, hpre, hrun⟩
    cases pre with
    | nil =>
      rw [runFrom_nil, Option.some_inj] at hrun
      exact Or.inl hrun.symm
    | cons f pre =>
      obtain ⟨rfl, htail⟩ := List.cons_prefix_cons.mp hpre
      rw [runFrom_cons, hs, Option.bind_some] at hrun
      exact Or.inr ⟨pre, htail, hrun⟩
  · rintro (rfl | ⟨pre, hpre, hrun⟩)
    · exact Visits.start t (e :: es)
    · refine ⟨e :: pre, List.cons_prefix_cons.mpr ⟨rfl, hpre⟩, ?_⟩
      rw [runFrom_cons, hs, Option.bind_some]
      exact hrun

theorem not_takes_nil {s t : S} {e : E} : ¬ Takes step s [] t e := by
  rintro ⟨pre, hpre, -⟩
  exact absurd (List.prefix_nil.mp hpre) (by simp)

theorem takes_cons {s s' t : S} {e f : E} {es : List E} (hs : step s e = some s') :
    Takes step s (e :: es) t f ↔ (t = s ∧ f = e) ∨ Takes step s' es t f := by
  constructor
  · rintro ⟨pre, hpre, hrun⟩
    cases pre with
    | nil =>
      rw [runFrom_nil, Option.some_inj] at hrun
      exact Or.inl ⟨hrun.symm, (List.cons_prefix_cons.mp hpre).1⟩
    | cons g pre =>
      obtain ⟨rfl, htail⟩ := List.cons_prefix_cons.mp hpre
      rw [runFrom_cons, hs, Option.bind_some] at hrun
      exact Or.inr ⟨pre, htail, hrun⟩
  · rintro (⟨rfl, rfl⟩ | ⟨pre, hpre, hrun⟩)
    · exact ⟨[], List.cons_prefix_cons.mpr ⟨rfl, List.nil_prefix⟩, rfl⟩
    · refine ⟨e :: pre, List.cons_prefix_cons.mpr ⟨rfl, hpre⟩, ?_⟩
      rw [runFrom_cons, hs, Option.bind_some]
      exact hrun

/-- Every step of the run over `es` from `s` passes a check. -/
def checkSteps (step : S → E → Option S) (check : S → E → Bool) : S → List E → Bool
  | _, [] => true
  | s, e :: es => check s e && (step s e).all fun t => checkSteps step check t es

theorem Takes.of_checkSteps {check : S → E → Bool} {s t : S} {es : List E} {e : E}
    (hcheck : checkSteps step check s es = true) (h : Takes step s es t e) :
    check t e = true := by
  obtain ⟨pre, hpre, hrun⟩ := h
  induction pre generalizing s es with
  | nil =>
    obtain ⟨rest, rfl⟩ := hpre
    rw [runFrom_nil, Option.some_inj] at hrun
    rw [List.nil_append, List.singleton_append, checkSteps, Bool.and_eq_true] at hcheck
    exact hrun ▸ hcheck.1
  | cons f pre ih =>
    obtain ⟨rest, rfl⟩ := hpre
    rw [runFrom_cons, Option.bind_eq_some_iff] at hrun
    obtain ⟨u, hu, hrun⟩ := hrun
    rw [List.cons_append, List.cons_append, checkSteps, Bool.and_eq_true, hu,
      Option.all_some] at hcheck
    exact ih hcheck.2 (List.prefix_append _ rest) hrun

/-- A step that is taken is taken in a state that is visited. -/
theorem Takes.visits {s t : S} {es : List E} {e : E} (h : Takes step s es t e) :
    Visits step s es t := by
  obtain ⟨pre, hpre, hrun⟩ := h
  exact ⟨pre, (List.prefix_append pre [e]).trans hpre, hrun⟩

theorem Takes.mem {s t : S} {es : List E} {e : E} (h : Takes step s es t e) : e ∈ es := by
  obtain ⟨pre, ⟨rest, rfl⟩, -⟩ := h
  simp

/-- The state a taken step leads to is visited too. -/
theorem Takes.visits_next {s t t' : S} {es : List E} {e : E} (h : Takes step s es t e)
    (ht : step t e = some t') : Visits step s es t' := by
  obtain ⟨pre, hpre, hrun⟩ := h
  refine ⟨pre ++ [e], hpre, ?_⟩
  rw [runFrom_append, hrun, Option.bind_some, runFrom_cons, ht]
  rfl

/-- **Invariant rule.**  What holds at the start and is preserved by every step
that meets `G` holds in every state visited by a run whose steps meet `G`. -/
theorem Visits.invariant {J : S → Prop} {G : S → E → Prop}
    (hpres : ∀ t e t', J t → G t e → step t e = some t' → J t') :
    ∀ {es : List E} {s final : S}, runFrom step s es = some final → J s →
      (∀ t e, Takes step s es t e → G t e) → ∀ t, Visits step s es t → J t := by
  intro es
  induction es with
  | nil =>
    intro s final _ hs _ t ht
    rwa [visits_nil.mp ht]
  | cons e es ih =>
    intro s final hrun hs hG t ht
    rw [runFrom_cons, Option.bind_eq_some_iff] at hrun
    obtain ⟨s', hs', hrun⟩ := hrun
    rcases (visits_cons hs').mp ht with rfl | ht
    · exact hs
    · have hGs : G s e := hG s e ((takes_cons hs').mpr (Or.inl ⟨rfl, rfl⟩))
      refine ih hrun (hpres s e s' hs hGs hs') (fun t f hf => ?_) t ht
      exact hG t f ((takes_cons hs').mpr (Or.inr hf))

/-- The same for what every step preserves. -/
theorem Visits.always {J : S → Prop} (hpres : ∀ t e t', J t → step t e = some t' → J t')
    {es : List E} {s final : S} (hrun : runFrom step s es = some final) (hs : J s) :
    ∀ t, Visits step s es t → J t :=
  Visits.invariant (G := fun _ _ => True) (fun t e t' ht _ hstep => hpres t e t' ht hstep) hrun hs
    fun _ _ _ => trivial

/-- The same for the last state. -/
theorem runFrom_always {J : S → Prop} (hpres : ∀ t e t', J t → step t e = some t' → J t')
    {es : List E} {s t : S} (hrun : runFrom step s es = some t) (hs : J s) : J t :=
  Visits.always hpres hrun hs t (Visits.last hrun)

/-- A step that a run takes is possible. -/
theorem Takes.exists_step {s t final : S} {es : List E} {e : E}
    (hrun : runFrom step s es = some final) (h : Takes step s es t e) :
    ∃ t', step t e = some t' := by
  obtain ⟨pre, ⟨rest, rfl⟩, hpre⟩ := h
  rw [List.append_assoc, runFrom_append, hpre, Option.bind_some, List.singleton_append,
    runFrom_cons, Option.bind_eq_some_iff] at hrun
  exact hrun.imp fun _ => And.left

theorem runFrom_snoc {s t : S} {es : List E} {e : E} :
    runFrom step s (es ++ [e]) = some t ↔ ∃ u, runFrom step s es = some u ∧ step u e = some t := by
  rw [runFrom_append, Option.bind_eq_some_iff]
  refine exists_congr fun u => and_congr_right fun _ => ?_
  rw [runFrom_cons, Option.bind_eq_some_iff]
  constructor
  · rintro ⟨t', ht', heq⟩
    rw [runFrom_nil, Option.some_inj] at heq
    exact heq ▸ ht'
  · exact fun ht => ⟨t, ht, rfl⟩

/-- **Invariant rule with history.**  The same for a property of the state and the
events that led to it. -/
theorem runFrom_induction {J : List E → S → Prop} {G : S → E → Prop} {s : S} (hs : J [] s)
    (hpres : ∀ es t e t', runFrom step s es = some t → J es t → G t e → step t e = some t' →
      J (es ++ [e]) t') :
    ∀ {es : List E} {t : S}, runFrom step s es = some t →
      (∀ u e, Takes step s es u e → G u e) → J es t := by
  intro es
  induction es using List.reverseRecOn with
  | nil =>
    intro t hrun _
    rw [runFrom_nil, Option.some_inj] at hrun
    exact hrun ▸ hs
  | append_singleton es e ih =>
    intro t hrun hG
    obtain ⟨u, hu, ht⟩ := runFrom_snoc.mp hrun
    refine hpres es u e t hu (ih hu fun v f hf => ?_) (hG u e ⟨es, List.prefix_refl _, hu⟩) ht
    obtain ⟨pre, hpre, hrun'⟩ := hf
    exact hG v f ⟨pre, hpre.trans (List.prefix_append es [e]), hrun'⟩

/-- **Exact-condition rule.**  Let `J` hold at the start, imply `P`, and be
preserved by the steps that meet `G`; let every other step from a `J`-state
break `P`.  Then `P` holds in every state of a run exactly when every step of
the run meets `G`. -/
theorem visits_iff_takes {J P : S → Prop} {G : S → E → Prop}
    (hJP : ∀ t, J t → P t)
    (hpres : ∀ t e t', J t → G t e → step t e = some t' → J t')
    (hbreak : ∀ t e t', J t → ¬ G t e → step t e = some t' → ¬ P t') :
    ∀ {es : List E} {s final : S}, runFrom step s es = some final → J s →
      ((∀ t, Visits step s es t → P t) ↔ ∀ t e, Takes step s es t e → G t e) := by
  intro es
  induction es with
  | nil =>
    intro s final _ hs
    refine ⟨fun _ t e h => absurd h not_takes_nil, fun _ t ht => ?_⟩
    rw [visits_nil.mp ht]
    exact hJP s hs
  | cons e es ih =>
    intro s final hrun hs
    rw [runFrom_cons, Option.bind_eq_some_iff] at hrun
    obtain ⟨s', hs', hrun⟩ := hrun
    by_cases hG : G s e
    · have ih := ih hrun (hpres s e s' hs hG hs')
      constructor
      · intro h t f hf
        rcases (takes_cons hs').mp hf with ⟨rfl, rfl⟩ | hf
        · exact hG
        · exact ih.mp (fun u hu => h u ((visits_cons hs').mpr (Or.inr hu))) t f hf
      · intro h t ht
        rcases (visits_cons hs').mp ht with rfl | ht
        · exact hJP t hs
        · exact ih.mpr (fun u f hf => h u f ((takes_cons hs').mpr (Or.inr hf))) t ht
    · -- the bad first step leads to a visited state without `P`
      constructor
      · intro h
        have hbad : ¬ P s' := hbreak s e s' hs hG hs'
        exact absurd (h s' ((visits_cons hs').mpr (Or.inr (Visits.start s' es)))) hbad
      · intro h
        exact absurd (h s e ((takes_cons hs').mpr (Or.inl ⟨rfl, rfl⟩))) hG

/-! ### More state -/

section More

variable {T : Type*} {step' : T → E → Option T} {f : T → S}

/-- A system with more state, which steps as the other one does, has the same runs. -/
theorem runFrom_map (h : ∀ t e, (step' t e).map f = step (f t) e) (t : T) (es : List E) :
    (runFrom step' t es).map f = runFrom step (f t) es := by
  induction es generalizing t with
  | nil => rfl
  | cons e es ih =>
    rw [runFrom_cons, runFrom_cons, ← h]
    cases step' t e with
    | none => rfl
    | some u => exact ih u

theorem takes_map (h : ∀ t e, (step' t e).map f = step (f t) e) {t : T} {es : List E} {u : S}
    {e : E} : Takes step (f t) es u e ↔ ∃ v, f v = u ∧ Takes step' t es v e := by
  constructor
  · rintro ⟨pre, hpre, hrun⟩
    rw [← runFrom_map h, Option.map_eq_some_iff] at hrun
    obtain ⟨v, hv, hfv⟩ := hrun
    exact ⟨v, hfv, pre, hpre, hv⟩
  · rintro ⟨v, rfl, pre, hpre, hrun⟩
    refine ⟨pre, hpre, ?_⟩
    rw [← runFrom_map h, hrun]
    rfl

end More

/-- **Simulation rule.**  Where every step of a system is answered by a run of another one
that leads to a related state again, every run is answered by a run. -/
theorem runFrom_simulated {T F : Type*} {step' : T → F → Option T} {R : S → T → Prop}
    (hsim : ∀ s t e s', R s t → step s e = some s' →
      ∃ fs t', runFrom step' t fs = some t' ∧ R s' t')
    {s s' : S} {t : T} {es : List E} (hrun : runFrom step s es = some s') (h : R s t) :
    ∃ fs t', runFrom step' t fs = some t' ∧ R s' t' := by
  induction es using List.reverseRecOn generalizing s' with
  | nil =>
    rw [runFrom_nil, Option.some_inj] at hrun
    exact ⟨[], t, rfl, hrun ▸ h⟩
  | append_singleton es e ih =>
    obtain ⟨u, hu, hstep⟩ := runFrom_snoc.mp hrun
    obtain ⟨fs, v, hfs, hR⟩ := ih hu
    obtain ⟨gs, t', hgs, hR'⟩ := hsim u v e s' hR hstep
    refine ⟨fs ++ gs, t', ?_, hR'⟩
    rw [runFrom_append, hfs, Option.bind_some, hgs]

end Transition

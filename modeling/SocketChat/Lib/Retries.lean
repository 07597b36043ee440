/-
Events that have to be tried again.

A thread may need several tries for an event, all but the last of which change nothing: a
`send` that would block, say.  `Retrying` adds to a system how often each thread is still
going to try in vain.  That this is a number is the assumption that every such event comes to
be over; which number it is, nobody knows, and with each event that is over comes a new one.

What is inevitable in a system stays so with retries (`Inevitable.retrying`).
-/
import SocketChat.Lib.Quiescence

namespace Transition

/-- A state, and how often each thread is still going to try in vain. -/
structure Retrying (S ι : Type*) where
  state : S
  again : ι → ℕ

namespace Retrying

variable {S E ι : Type*}

inductive Event (E : Type*)
  /-- A try in vain. -/
  | retry (e : E)
  /-- The event happens, and the next of its thread will be tried in vain `again` times. -/
  | done (e : E) (again : ℕ)

/-- The event that is tried. -/
def Event.tried : Event E → E
  | retry e => e
  | done e _ => e

/-- `tries` says which thread may have to try an event again, if any does. -/
def step [DecidableEq ι] (step : S → E → Option S) (tries : S → E → Option ι)
    (r : Retrying S ι) : Event E → Option (Retrying S ι)
  | .retry e =>
    match tries r.state e with
    | some i =>
      if 0 < r.again i then
        some { r with again := Function.update r.again i (r.again i - 1) }
      else none
    | none => none
  | .done e again =>
    match tries r.state e with
    | some i =>
      if r.again i = 0 then
        (step r.state e).map (⟨·, Function.update r.again i again⟩)
      else none
    | none => (step r.state e).map (⟨·, r.again⟩)

variable [DecidableEq ι] {step : S → E → Option S} {tries : S → E → Option ι}
  {r r' : Retrying S ι} {e : E}

theorem step_retry (h : Retrying.step step tries r (.retry e) = some r') :
    ∃ i, 0 < r.again i ∧ r' = { r with again := Function.update r.again i (r.again i - 1) } := by
  cases htries : tries r.state e with
  | none =>
    simp only [Retrying.step, htries] at h
    cases h
  | some i =>
    simp only [Retrying.step, htries] at h
    by_cases hi : 0 < r.again i
    · rw [if_pos hi] at h
      exact ⟨i, hi, (Option.some.inj h).symm⟩
    · rw [if_neg hi] at h
      cases h

theorem step_done {n : ℕ} (h : Retrying.step step tries r (.done e n) = some r') :
    step r.state e = some r'.state := by
  have hstate : ∀ again, (step r.state e).map (Retrying.mk · again) = some r' →
      step r.state e = some r'.state := by
    intro again h
    obtain ⟨s, hs, rfl⟩ := Option.map_eq_some_iff.mp h
    exact hs
  cases htries : tries r.state e with
  | none =>
    simp only [Retrying.step, htries] at h
    exact hstate _ h
  | some i =>
    simp only [Retrying.step, htries] at h
    by_cases hi : r.again i = 0
    · rw [if_pos hi] at h
      exact hstate _ h
    · rw [if_neg hi] at h
      cases h

/-- An event that is possible happens or is tried in vain. -/
theorem exists_step {s' : S} (h : step r.state e = some s') :
    ∃ f r', f.tried = e ∧ Retrying.step step tries r f = some r' := by
  cases htries : tries r.state e with
  | none =>
    refine ⟨.done e 0, ⟨s', r.again⟩, rfl, ?_⟩
    simp only [Retrying.step, htries, h, Option.map_some]
  | some i =>
    by_cases hi : r.again i = 0
    · refine ⟨.done e 0, ⟨s', Function.update r.again i 0⟩, rfl, ?_⟩
      simp only [Retrying.step, htries, if_pos hi, h, Option.map_some]
    · refine ⟨.retry e, { r with again := Function.update r.again i (r.again i - 1) }, rfl, ?_⟩
      simp only [Retrying.step, htries, if_pos (Nat.pos_of_ne_zero hi)]

/-- A run with retries is a run. -/
theorem exists_runFrom {fs : List (Event E)}
    (h : runFrom (Retrying.step step tries) r fs = some r') :
    ∃ es, runFrom step r.state es = some r'.state := by
  have hsim : ∀ (r : Retrying S ι) s f r', s = r.state →
      Retrying.step step tries r f = some r' →
      ∃ es s', runFrom step s es = some s' ∧ s' = r'.state := by
    rintro r s f r' rfl hstep
    cases f with
    | retry e =>
      obtain ⟨i, -, rfl⟩ := step_retry hstep
      exact ⟨[], _, rfl, rfl⟩
    | done e n => exact ⟨[e], _, runFrom_single (step_done hstep), rfl⟩
  obtain ⟨es, s', hrun, rfl⟩ := runFrom_simulated hsim h rfl
  exact ⟨es, hrun⟩

variable [Fintype ι]

theorem sum_update_lt {again : ι → ℕ} {i : ι} (h : 0 < again i) :
    ∑ j, Function.update again i (again i - 1) j < ∑ j, again j := by
  refine Finset.sum_lt_sum (fun j _ => ?_) ⟨i, Finset.mem_univ i, ?_⟩
  · by_cases hj : j = i
    · rw [hj, Function.update_self]
      omega
    · rw [Function.update_of_ne hj]
  · rw [Function.update_self]
    omega

end Retrying

/-- **What is inevitable stays so with retries**, as long as nothing is tried for ever. -/
theorem Inevitable.retrying {S E ι : Type*} [DecidableEq ι] [Fintype ι]
    {step : S → E → Option S} {tries : S → E → Option ι} {A : E → Prop} {P : S → Prop} {s : S}
    (h : Inevitable step A P s) (again : ι → ℕ) :
    Inevitable (Retrying.step step tries) (fun f => A f.tried) (fun r => P r.state)
      ⟨s, again⟩ := by
  induction h generalizing again with
  | now hP => exact .now hP
  | @later s hmove _ ih =>
    -- until the next event happens, the tries in vain become fewer
    generalize htotal : ∑ i, again i = total
    induction total using Nat.strong_induction_on generalizing again with
    | _ total ihTotal =>
      refine .later ?_ fun f r' hf hstep => ?_
      · obtain ⟨e, s', he, hstep⟩ := hmove
        obtain ⟨f, r', rfl, hf⟩ : ∃ f r', f.tried = e ∧
            Retrying.step step tries ⟨s, again⟩ f = some r' := Retrying.exists_step hstep
        exact ⟨f, r', he, hf⟩
      · cases f with
        | retry e =>
          obtain ⟨i, hi, rfl⟩ := Retrying.step_retry hstep
          exact ihTotal _ (htotal ▸ Retrying.sum_update_lt hi) _ rfl
        | done e n => exact ih e r'.state hf (Retrying.step_done hstep) r'.again

end Transition

/-
Threads, each somewhere in its code.

A thread moves by an update of `place : W → P`.  `total` adds up a weight of the places
and `count` is the number of threads whose place passes a check; `total_update` and
`count_update` say what one move does to them.
-/
import Mathlib.Algebra.BigOperators.Group.Finset.Piecewise
import Mathlib.Data.Fintype.Card

namespace Places

variable {W P : Type*} [Fintype W]

/-- The weights of the threads' places, added up. -/
def total (rank : P → ℕ) (place : W → P) : ℕ := ∑ w, rank (place w)

/-- The number of threads whose place passes a check. -/
def count (check : P → Bool) (place : W → P) : ℕ :=
  (Finset.univ.filter fun w => check (place w) = true).card

theorem count_eq_total (check : P → Bool) (place : W → P) :
    count check place = total (fun p => (check p).toNat) place := by
  rw [count, total, Finset.card_filter]
  refine Finset.sum_congr rfl fun w _ => ?_
  cases check (place w) with
  | true => rfl
  | false => rfl

theorem total_update [DecidableEq W] (rank : P → ℕ) (place : W → P) (w : W) (x : P) :
    total rank (Function.update place w x) + rank (place w) = total rank place + rank x := by
  have hrest : ∑ v ∈ Finset.univ.erase w, rank (Function.update place w x v) =
      ∑ v ∈ Finset.univ.erase w, rank (place v) := by
    refine Finset.sum_congr rfl fun v hv => ?_
    rw [Function.update_of_ne (Finset.ne_of_mem_erase hv)]
  have hafter := Finset.add_sum_erase Finset.univ (fun v => rank (Function.update place w x v))
    (Finset.mem_univ w)
  have hbefore := Finset.add_sum_erase Finset.univ (fun v => rank (place v)) (Finset.mem_univ w)
  simp only [Function.update_self] at hafter
  rw [total, total, ← hafter, ← hbefore, hrest]
  omega

theorem count_update [DecidableEq W] (check : P → Bool) (place : W → P) (w : W) (x : P) :
    count check (Function.update place w x) + (check (place w)).toNat =
      count check place + (check x).toNat := by
  rw [count_eq_total, count_eq_total]
  exact total_update (fun p => (check p).toNat) place w x

theorem count_eq_zero {check : P → Bool} {place : W → P} :
    count check place = 0 ↔ ∀ w, check (place w) = false := by
  rw [count, Finset.card_eq_zero, Finset.filter_eq_empty_iff]
  refine forall_congr' fun w => ?_
  rw [Bool.not_eq_true]
  exact ⟨fun h => h (Finset.mem_univ w), fun h _ => h⟩

theorem count_eq_card {check : P → Bool} {place : W → P} (h : ∀ w, check (place w) = true) :
    count check place = Fintype.card W := by
  rw [count, Finset.filter_true_of_mem fun w _ => h w, Finset.card_univ]

/-- A change of places that the check does not see. -/
theorem count_congr {check : P → Bool} {place place' : W → P}
    (h : ∀ w, check (place' w) = check (place w)) : count check place' = count check place := by
  rw [count, count]
  simp only [h]

end Places

/-
Names held by members, with a set of reserved names beside them.

A member may `take` a name, which is reserved with it, and may `drop` the one it holds,
whose reservation ends.  A member that takes a second name does not drop the first, so
the set can outgrow the names held.  `Unique` (no two members hold one name), `Covered`
(held names are reserved) and `Exact` (a name is reserved exactly when it is held) are
followed through both operations.
-/
import Mathlib.Data.Finset.Erase
import Mathlib.Data.Finset.Insert
import Mathlib.Logic.Function.Basic

structure Reservation (M N : Type*) where
  holds : M → Option N
  reserved : Finset N

namespace Reservation

variable {M N : Type*} [DecidableEq M] [DecidableEq N]

def take (r : Reservation M N) (m : M) (n : N) : Reservation M N where
  holds := Function.update r.holds m (some n)
  reserved := insert n r.reserved

def drop (r : Reservation M N) (m : M) : Reservation M N where
  holds := Function.update r.holds m none
  reserved := (r.holds m).elim r.reserved r.reserved.erase

/-- No two members hold the same name. -/
def Unique (r : Reservation M N) : Prop :=
  ∀ m m' n, r.holds m = some n → r.holds m' = some n → m = m'

/-- Names that are held are reserved. -/
def Covered (r : Reservation M N) : Prop := ∀ m n, r.holds m = some n → n ∈ r.reserved

/-- The reserved names are those that are held. -/
def Exact (r : Reservation M N) : Prop := ∀ n, n ∈ r.reserved ↔ ∃ m, r.holds m = some n

variable {r : Reservation M N} {m m' : M} {n n' : N}

theorem holds_take : (r.take m n).holds m' = some n' ↔
    (m' = m ∧ n' = n) ∨ (m' ≠ m ∧ r.holds m' = some n') := by
  show Function.update r.holds m (some n) m' = some n' ↔ _
  by_cases h : m' = m
  · rw [h, Function.update_self, Option.some_inj]
    exact ⟨fun heq => Or.inl ⟨rfl, heq.symm⟩, fun hor => hor.elim (fun heq => heq.2.symm)
      fun hne => absurd rfl hne.1⟩
  · rw [Function.update_of_ne h]
    exact ⟨fun heq => Or.inr ⟨h, heq⟩, fun hor => hor.elim (fun heq => absurd heq.1 h) And.right⟩

theorem holds_drop : (r.drop m).holds m' = some n' ↔ m' ≠ m ∧ r.holds m' = some n' := by
  show Function.update r.holds m none m' = some n' ↔ _
  by_cases h : m' = m
  · rw [h, Function.update_self]
    exact ⟨fun heq => absurd heq (by simp), fun hne => absurd rfl hne.1⟩
  · rw [Function.update_of_ne h]
    exact ⟨fun heq => ⟨h, heq⟩, And.right⟩

theorem reserved_drop : n ∈ (r.drop m).reserved ↔ n ∈ r.reserved ∧ r.holds m ≠ some n := by
  show n ∈ (r.holds m).elim r.reserved r.reserved.erase ↔ _
  cases r.holds m with
  | none => simp
  | some held =>
    rw [Option.elim_some, Finset.mem_erase, and_comm, Ne, Ne, Option.some_inj, eq_comm]

/-- Taking a name keeps names unique exactly when nobody else holds it. -/
theorem unique_take_iff (h : r.Unique) :
    (r.take m n).Unique ↔ ∀ m', m' ≠ m → r.holds m' ≠ some n := by
  constructor
  · intro hunique m' hne hholds
    exact hne (hunique m' m n (holds_take.mpr (Or.inr ⟨hne, hholds⟩))
      (holds_take.mpr (Or.inl ⟨rfl, rfl⟩)))
  · intro hfree m₁ m₂ n' h₁ h₂
    rcases holds_take.mp h₁ with ⟨rfl, rfl⟩ | ⟨hne₁, hold₁⟩
    · rcases holds_take.mp h₂ with ⟨rfl, -⟩ | ⟨hne₂, hold₂⟩
      · rfl
      · exact absurd hold₂ (hfree m₂ hne₂)
    · rcases holds_take.mp h₂ with ⟨rfl, rfl⟩ | ⟨-, hold₂⟩
      · exact absurd hold₁ (hfree m₁ hne₁)
      · exact h m₁ m₂ n' hold₁ hold₂

theorem Unique.drop (h : r.Unique) (m : M) : (r.drop m).Unique := fun m₁ m₂ n h₁ h₂ =>
  h m₁ m₂ n (holds_drop.mp h₁).2 (holds_drop.mp h₂).2

theorem Covered.take (h : r.Covered) (m : M) (n : N) : (r.take m n).Covered := by
  intro m' n' hholds
  rcases holds_take.mp hholds with ⟨-, rfl⟩ | ⟨-, hholds⟩
  · exact Finset.mem_insert_self n' r.reserved
  · exact Finset.mem_insert_of_mem (h m' n' hholds)

/-- A name nobody else holds loses its reservation with its holder, no other name does. -/
theorem Covered.drop (h : r.Covered) (hunique : r.Unique) (m : M) : (r.drop m).Covered := by
  intro m' n' hholds
  obtain ⟨hne, hholds⟩ := holds_drop.mp hholds
  exact reserved_drop.mpr ⟨h m' n' hholds, fun hm => hne (hunique m' m n' hholds hm)⟩

omit [DecidableEq M] [DecidableEq N] in
theorem Exact.covered (h : r.Exact) : r.Covered := fun m n hholds => (h n).mpr ⟨m, hholds⟩

/-- A first name keeps the set exact. -/
theorem Exact.take (h : r.Exact) (hnone : r.holds m = none) (n : N) : (r.take m n).Exact := by
  intro n'
  show n' ∈ insert n r.reserved ↔ _
  rw [Finset.mem_insert]
  constructor
  · rintro (rfl | hmem)
    · exact ⟨m, holds_take.mpr (Or.inl ⟨rfl, rfl⟩)⟩
    · obtain ⟨m', hholds⟩ := (h n').mp hmem
      have hne : m' ≠ m := fun heq => by
        rw [heq, hnone] at hholds
        cases hholds
      exact ⟨m', holds_take.mpr (Or.inr ⟨hne, hholds⟩)⟩
  · rintro ⟨m', hholds⟩
    rcases holds_take.mp hholds with ⟨-, rfl⟩ | ⟨-, hholds⟩
    · exact Or.inl rfl
    · exact Or.inr ((h n').mpr ⟨m', hholds⟩)

/-- A second name does not: the first stays reserved. -/
theorem not_exact_take (hcovered : r.Covered) (hunique : r.Unique) (hold : r.holds m = some n')
    (hne : n ≠ n') : ¬ (r.take m n).Exact := by
  intro hexact
  have hmem : n' ∈ (r.take m n).reserved := Finset.mem_insert_of_mem (hcovered m n' hold)
  obtain ⟨m', hholds⟩ := (hexact n').mp hmem
  rcases holds_take.mp hholds with ⟨-, heq⟩ | ⟨hm', hholds⟩
  · exact hne heq.symm
  · exact hm' (hunique m' m n' hholds hold)

theorem Exact.drop (h : r.Exact) (hunique : r.Unique) (m : M) : (r.drop m).Exact := by
  intro n
  rw [reserved_drop]
  constructor
  · rintro ⟨hmem, hm⟩
    obtain ⟨m', hholds⟩ := (h n).mp hmem
    have hne : m' ≠ m := fun heq => hm (heq ▸ hholds)
    exact ⟨m', holds_drop.mpr ⟨hne, hholds⟩⟩
  · rintro ⟨m', hholds⟩
    obtain ⟨hne, hholds⟩ := holds_drop.mp hholds
    exact ⟨(h n).mpr ⟨m', hholds⟩, fun hm => hne (hunique m' m n hholds hm)⟩

end Reservation

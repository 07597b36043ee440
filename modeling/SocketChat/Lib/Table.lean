/-
Finite tables.

`Table K V` is a finite partial function, the meaning of a hash map whose
iteration order nobody relies on.  It is Mathlib's `Finmap` at a constant family;
this file adds the forms in which the lookup lemmas are used for updates at one
key (one equation for `insert` and one for `erase`, by cases on the key) and counts the
keys.
-/
import Mathlib.Data.Finmap

/-- A finite map from `K` to `V`. -/
abbrev Table (K V : Type*) := Finmap fun _ : K => V

namespace Table

variable {K V : Type*} [DecidableEq K]

/-- The value at `k`, if there is one. -/
def find (t : Table K V) (k : K) : Option V := Finmap.lookup k t

/-- The table with `v` at `k`. -/
def set (t : Table K V) (k : K) (v : V) : Table K V := Finmap.insert k v t

/-- The table without `k`. -/
def remove (t : Table K V) (k : K) : Table K V := Finmap.erase k t

/-- The number of keys. -/
def size (t : Table K V) : ℕ := t.keys.card

@[ext] theorem ext {t u : Table K V} (h : ∀ k, t.find k = u.find k) : t = u :=
  Finmap.ext_lookup h

@[simp] theorem find_empty (k : K) : find (∅ : Table K V) k = none := Finmap.lookup_empty k

theorem find_set (t : Table K V) (k k' : K) (v : V) :
    (t.set k v).find k' = if k' = k then some v else t.find k' := by
  by_cases h : k' = k
  · rw [if_pos h, h]
    exact Finmap.lookup_insert t
  · rw [if_neg h]
    exact Finmap.lookup_insert_of_ne t h

theorem find_remove (t : Table K V) (k k' : K) :
    (t.remove k).find k' = if k' = k then none else t.find k' := by
  by_cases h : k' = k
  · rw [if_pos h, h]
    exact Finmap.lookup_erase k t
  · rw [if_neg h]
    exact Finmap.lookup_erase_ne h

@[simp] theorem find_set_self (t : Table K V) (k : K) (v : V) : (t.set k v).find k = some v := by
  rw [find_set, if_pos rfl]

theorem find_set_ne (t : Table K V) {k k' : K} (v : V) (h : k' ≠ k) :
    (t.set k v).find k' = t.find k' := by
  rw [find_set, if_neg h]

theorem mem_iff_find (t : Table K V) (k : K) : k ∈ t ↔ ∃ v, t.find k = some v := Finmap.mem_iff

theorem not_mem_iff_find (t : Table K V) (k : K) : k ∉ t ↔ t.find k = none :=
  Finmap.lookup_eq_none.symm

/-! ### Sizes -/

theorem mem_keys_iff (t : Table K V) (k : K) : k ∈ t.keys ↔ (t.find k).isSome = true := by
  rw [Finmap.mem_keys, mem_iff_find, Option.isSome_iff_exists]

theorem size_mono {t u : Table K V}
    (h : ∀ k, (t.find k).isSome = true → (u.find k).isSome = true) : t.size ≤ u.size :=
  Finset.card_le_card fun k hk => (mem_keys_iff u k).mpr (h k ((mem_keys_iff t k).mp hk))

/-- The size depends on the keys alone. -/
theorem size_congr {t u : Table K V} (h : ∀ k, (t.find k).isSome = (u.find k).isSome) :
    t.size = u.size :=
  Nat.le_antisymm (size_mono fun k hk => (h k) ▸ hk) (size_mono fun k hk => (h k) ▸ hk)

theorem size_set_same {t : Table K V} {k : K} (v : V) (h : (t.find k).isSome = true) :
    (t.set k v).size = t.size := by
  refine size_congr fun k' => ?_
  rw [find_set]
  by_cases hk : k' = k
  · rw [if_pos hk, hk, h]
    rfl
  · rw [if_neg hk]

theorem size_set_new {t : Table K V} {k : K} (v : V) (h : t.find k = none) :
    (t.set k v).size = t.size + 1 := by
  have hout : k ∉ t.keys := by
    rw [mem_keys_iff, h]
    simp
  have hkeys : (t.set k v).keys = insert k t.keys := by
    ext k'
    rw [Finset.mem_insert, mem_keys_iff, mem_keys_iff, find_set]
    by_cases hk : k' = k
    · simp [hk]
    · simp [hk]
  rw [size, size, hkeys, Finset.card_insert_of_notMem hout]

theorem size_remove {t : Table K V} {k : K} (h : (t.find k).isSome = true) :
    (t.remove k).size + 1 = t.size := by
  have hin : k ∈ t.keys := (mem_keys_iff t k).mpr h
  rw [size, size, remove, Finmap.keys_erase]
  exact Finset.card_erase_add_one hin

end Table

/-
A relation stored twice.

A `Roster` has members, who come and go, and groups.  Which group a member is in is
stored with the member (`place`), and who is in a group is stored with the group
(`listed`); the two need not agree.  Members arrive, depart, enter a group and leave
the one they are in.  `Live` (a member's own group lists it) and `Distinct` (no group
lists anyone twice) survive every operation.  `Agree` (whoever a group lists is present
and in that group) survives exactly the `Orderly` ones: nobody departs from inside a
group or enters a second one.
-/
import Mathlib.Logic.Function.Basic
import Mathlib.Data.List.Nodup

/-- `place m` is `none` for a member that is absent, `some none` for one that is present
and in no group, `some (some g)` for one in group `g`. -/
structure Roster (M G : Type*) where
  place : M → Option (Option G)
  listed : G → List M

namespace Roster

variable {M G : Type*} [DecidableEq M] [DecidableEq G]

inductive Op (M G : Type*) where
  | stay
  | arrive (m : M)
  | depart (m : M)
  | enter (m : M) (g : G)
  | leave (m : M) (g : G)

def apply (r : Roster M G) : Op M G → Roster M G
  | .stay => r
  | .arrive m => { r with place := Function.update r.place m (some none) }
  | .depart m => { r with place := Function.update r.place m none }
  | .enter m g =>
    { place := Function.update r.place m (some (some g))
      listed := Function.update r.listed g (r.listed g ++ [m]) }
  | .leave m g =>
    { place := Function.update r.place m (some none)
      listed := Function.update r.listed g ((r.listed g).erase m) }

/-- When an operation is possible.  A member may enter a group while in another one. -/
def Op.Allowed (r : Roster M G) : Op M G → Prop
  | .stay => True
  | .arrive m => r.place m = none
  | .depart m => r.place m ≠ none
  | .enter m g => r.place m ≠ none ∧ m ∉ r.listed g
  | .leave m g => r.place m = some (some g)

/-- Nobody departs from inside a group or enters a second one. -/
def Op.Orderly (r : Roster M G) : Op M G → Prop
  | .depart m => r.place m = some none
  | .enter m _ => r.place m = some none
  | _ => True

/-- The group a member is in lists it. -/
def Live (r : Roster M G) : Prop := ∀ m g, r.place m = some (some g) → m ∈ r.listed g

/-- No group lists a member twice. -/
def Distinct (r : Roster M G) : Prop := ∀ g, (r.listed g).Nodup

/-- Whoever a group lists is present and in that group. -/
def Agree (r : Roster M G) : Prop := ∀ g m, m ∈ r.listed g → r.place m = some (some g)

variable {r : Roster M G} {op : Op M G}

theorem Distinct.apply (h : op.Allowed r) (hr : r.Distinct) : (r.apply op).Distinct := by
  intro g
  cases op with
  | stay => exact hr g
  | arrive m => exact hr g
  | depart m => exact hr g
  | enter m g' =>
    show (Function.update r.listed g' _ g).Nodup
    by_cases hg : g = g'
    · subst hg
      rw [Function.update_self]
      exact List.nodup_append.mpr ⟨hr g, List.nodup_singleton m, fun a ha b hb => by
        rw [List.mem_singleton.mp hb]
        rintro rfl
        exact h.2 ha⟩
    · rw [Function.update_of_ne hg]
      exact hr g
  | leave m g' =>
    show (Function.update r.listed g' _ g).Nodup
    by_cases hg : g = g'
    · subst hg
      rw [Function.update_self]
      exact (hr g).erase m
    · rw [Function.update_of_ne hg]
      exact hr g

theorem Live.apply (h : op.Allowed r) (hr : r.Live) : (r.apply op).Live := by
  intro n g hplace
  cases op with
  | stay => exact hr n g hplace
  | arrive m =>
    have hplace : Function.update r.place m (some none) n = some (some g) := hplace
    by_cases hn : n = m
    · subst hn
      rw [Function.update_self] at hplace
      cases hplace
    · rw [Function.update_of_ne hn] at hplace
      exact hr n g hplace
  | depart m =>
    have hplace : Function.update r.place m none n = some (some g) := hplace
    by_cases hn : n = m
    · subst hn
      rw [Function.update_self] at hplace
      cases hplace
    · rw [Function.update_of_ne hn] at hplace
      exact hr n g hplace
  | enter m g' =>
    have hplace : Function.update r.place m (some (some g')) n = some (some g) := hplace
    show n ∈ Function.update r.listed g' (r.listed g' ++ [m]) g
    by_cases hn : n = m
    · subst hn
      rw [Function.update_self, Option.some_inj, Option.some_inj] at hplace
      subst hplace
      rw [Function.update_self]
      exact List.mem_append_right _ (List.mem_singleton_self n)
    · rw [Function.update_of_ne hn] at hplace
      have hlisted := hr n g hplace
      by_cases hg : g = g'
      -- a group somebody else enters still lists its members
      · subst hg
        rw [Function.update_self]
        exact List.mem_append_left _ hlisted
      · rw [Function.update_of_ne hg]
        exact hlisted
  | leave m g' =>
    have hplace : Function.update r.place m (some none) n = some (some g) := hplace
    show n ∈ Function.update r.listed g' ((r.listed g').erase m) g
    by_cases hn : n = m
    · subst hn
      rw [Function.update_self] at hplace
      cases hplace
    · rw [Function.update_of_ne hn] at hplace
      have hlisted := hr n g hplace
      by_cases hg : g = g'
      · subst hg
        rw [Function.update_self]
        exact (List.mem_erase_of_ne hn).mpr hlisted
      · rw [Function.update_of_ne hg]
        exact hlisted

/-- An orderly operation keeps the two records in agreement. -/
theorem Agree.apply (h : op.Allowed r) (horderly : op.Orderly r) (hdistinct : r.Distinct)
    (hr : r.Agree) : (r.apply op).Agree := by
  intro g n hlisted
  cases op with
  | stay => exact hr g n hlisted
  | arrive m =>
    have hplace := hr g n hlisted
    have hn : n ≠ m := by
      rintro rfl
      rw [show r.place n = none from h] at hplace
      cases hplace
    show Function.update r.place m (some none) n = some (some g)
    rw [Function.update_of_ne hn]
    exact hplace
  | depart m =>
    have hplace := hr g n hlisted
    have hn : n ≠ m := by
      rintro rfl
      rw [show r.place n = some none from horderly] at hplace
      cases hplace
    show Function.update r.place m none n = some (some g)
    rw [Function.update_of_ne hn]
    exact hplace
  | enter m g' =>
    have hlisted : n ∈ Function.update r.listed g' (r.listed g' ++ [m]) g := hlisted
    show Function.update r.place m (some (some g')) n = some (some g)
    by_cases hg : g = g'
    · subst hg
      rw [Function.update_self, List.mem_append, List.mem_singleton] at hlisted
      by_cases hn : n = m
      · rw [hn, Function.update_self]
      · rw [Function.update_of_ne hn]
        exact hr g n (hlisted.resolve_right hn)
    · rw [Function.update_of_ne hg] at hlisted
      have hplace := hr g n hlisted
      have hn : n ≠ m := by
        rintro rfl
        rw [show r.place n = some none from horderly] at hplace
        cases hplace
      rw [Function.update_of_ne hn]
      exact hplace
  | leave m g' =>
    have hmem : n ∈ Function.update r.listed g' ((r.listed g').erase m) g := hlisted
    show Function.update r.place m (some none) n = some (some g)
    -- whoever leaves is off the list, since it was on it once
    have hn : n ≠ m ∧ n ∈ r.listed g := by
      by_cases hg : g = g'
      · subst hg
        rw [Function.update_self] at hmem
        exact ((hdistinct g).mem_erase_iff).mp hmem
      · rw [Function.update_of_ne hg] at hmem
        refine ⟨fun heq => ?_, hmem⟩
        subst heq
        have hplace := hr g n hmem
        rw [show r.place n = some (some g') from h, Option.some_inj, Option.some_inj] at hplace
        exact hg hplace.symm
    rw [Function.update_of_ne hn.1]
    exact hr g n hn.2

/-- A disorderly operation breaks the agreement: the group left behind still lists the
member. -/
theorem not_agree_apply (h : op.Allowed r) (horderly : ¬ op.Orderly r) (hlive : r.Live) :
    ¬ (r.apply op).Agree := by
  intro hagree
  cases op with
  | stay => exact horderly trivial
  | arrive m => exact horderly trivial
  | leave m g => exact horderly trivial
  | depart m =>
    obtain ⟨place, hm⟩ := Option.ne_none_iff_exists'.mp h
    obtain ⟨g, rfl⟩ := Option.ne_none_iff_exists'.mp fun hnone : place = none =>
      horderly (by rw [hnone] at hm; exact hm)
    have hplace : Function.update r.place m none m = some (some g) :=
      hagree g m (hlive m g hm)
    rw [Function.update_self] at hplace
    cases hplace
  | enter m g' =>
    obtain ⟨place, hm⟩ := Option.ne_none_iff_exists'.mp h.1
    obtain ⟨g, rfl⟩ := Option.ne_none_iff_exists'.mp fun hnone : place = none =>
      horderly (by rw [hnone] at hm; exact hm)
    have hlisted : m ∈ r.listed g := hlive m g hm
    have hg : g ≠ g' := fun heq => h.2 (heq ▸ hlisted)
    have hplace : Function.update r.place m (some (some g')) m = some (some g) := by
      refine hagree g m ?_
      show m ∈ Function.update r.listed g' _ g
      rw [Function.update_of_ne hg]
      exact hlisted
    rw [Function.update_self, Option.some_inj, Option.some_inj] at hplace
    exact hg hplace.symm

omit [DecidableEq M] [DecidableEq G] in
/-- With both records in agreement, a group lists exactly the members that are in it. -/
theorem mem_listed_iff (hlive : r.Live) (hagree : r.Agree) {m : M} {g : G} :
    m ∈ r.listed g ↔ r.place m = some (some g) :=
  ⟨hagree g m, hlive m g⟩

end Roster

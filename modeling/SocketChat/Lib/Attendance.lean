/-
Who is present, told from a log of arrivals and departures.

`present` reads off a log those who are there at its end, in the order they came: an arrival
counts when nothing is heard of its member afterwards, neither that it left nor that it
arrived again.  `present_append` says how two logs put one behind the other are read, and
`present_concat` what one more entry changes.  A log is `Attended` when nobody who left was
the last one to be there.
-/
import Mathlib.Data.List.Nodup

namespace Attendance

variable {M : Type*}

inductive Entry (M : Type*) where
  | enter (m : M)
  | leave (m : M)
  deriving DecidableEq

/-- The member an entry is about. -/
def Entry.who : Entry M → M
  | enter m => m
  | leave m => m

variable [DecidableEq M]

def present : List (Entry M) → List M
  | [] => []
  | .enter m :: later => if m ∈ later.map Entry.who then present later else m :: present later
  | .leave _ :: later => present later

variable {log more : List (Entry M)} {m : M}

/-! ### Reading a log -/

/-- The entries of the second log decide about their members, whatever the first one says. -/
theorem present_append (log more : List (Entry M)) :
    present (log ++ more) =
      (present log).filter (fun m => m ∉ more.map Entry.who) ++ present more := by
  induction log with
  | nil => rfl
  | cons e log ih =>
    cases e with
    | leave m => exact ih
    | enter m =>
      rw [List.cons_append, present, present, ih, List.map_append]
      by_cases hlog : m ∈ log.map Entry.who
      · rw [if_pos hlog, if_pos (List.mem_append_left _ hlog)]
      · rw [if_neg hlog]
        by_cases hmore : m ∈ more.map Entry.who
        · rw [if_pos (List.mem_append_right _ hmore),
            List.filter_cons_of_neg (by simpa using hmore)]
        · rw [if_neg (fun h => (List.mem_append.mp h).elim hlog hmore),
            List.filter_cons_of_pos (by simpa using hmore), List.cons_append]

/-- Those who are present have arrived, and nothing has been heard of them since. -/
theorem mem_present_iff : m ∈ present log ↔
    ∃ before after, log = before ++ .enter m :: after ∧ m ∉ after.map Entry.who := by
  constructor
  · intro h
    induction log with
    | nil => exact absurd h List.not_mem_nil
    | cons e log ih =>
      have hlater : m ∈ present log →
          ∃ before after, e :: log = before ++ .enter m :: after ∧ m ∉ after.map Entry.who := by
        intro hm
        obtain ⟨before, after, rfl, hafter⟩ := ih hm
        exact ⟨e :: before, after, rfl, hafter⟩
      cases e with
      | leave n => exact hlater h
      | enter n =>
        rw [present] at h
        by_cases hn : n ∈ log.map Entry.who
        · rw [if_pos hn] at h
          exact hlater h
        · rw [if_neg hn] at h
          rcases List.mem_cons.mp h with rfl | h
          · exact ⟨[], log, rfl, hn⟩
          · exact hlater h
  · rintro ⟨before, after, rfl, hafter⟩
    rw [present_append, present, if_neg hafter]
    exact List.mem_append_right _ List.mem_cons_self

theorem nodup_present (log : List (Entry M)) : (present log).Nodup := by
  induction log with
  | nil => exact List.nodup_nil
  | cons e log ih =>
    cases e with
    | leave m => exact ih
    | enter m =>
      rw [present]
      by_cases hm : m ∈ log.map Entry.who
      · rwa [if_pos hm]
      · rw [if_neg hm]
        refine List.nodup_cons.mpr ⟨fun hin => hm ?_, ih⟩
        obtain ⟨before, after, rfl, -⟩ := mem_present_iff.mp hin
        exact List.mem_map.mpr ⟨.enter m, by simp, rfl⟩

/-! ### One more entry -/

/-- What an entry makes of the list of those who are there. -/
def Entry.act : Entry M → List M → List M
  | enter m, ms => ms.erase m ++ [m]
  | leave m, ms => ms.erase m

theorem present_concat (log : List (Entry M)) (e : Entry M) :
    present (log ++ [e]) = e.act (present log) := by
  have herase : (present log).filter (fun m => m ∉ [e].map Entry.who) =
      (present log).erase e.who := by
    rw [(nodup_present log).erase_eq_filter]
    refine List.filter_congr fun m _ => ?_
    rw [List.map_singleton, bne, beq_eq_decide, ← decide_not]
    exact decide_eq_decide.mpr (not_congr List.mem_singleton)
  rw [present_append, herase]
  cases e with
  | enter m => rfl
  | leave m => exact List.append_nil _

/-! ### Logs nobody was the last to leave -/

/-- Whenever somebody left, others were there. -/
def Attended (log : List (Entry M)) : Prop :=
  ∀ before m, before ++ [.leave m] <+: log → present (before ++ [.leave m]) ≠ []

theorem attended_nil : Attended ([] : List (Entry M)) := by
  intro before m h
  exact absurd (List.prefix_nil.mp h) (by simp)

theorem Attended.left (h : Attended (log ++ more)) : Attended log :=
  fun before m hpre => h before m (hpre.trans (List.prefix_append log more))

theorem attended_concat (log : List (Entry M)) (e : Entry M) :
    Attended (log ++ [e]) ↔
      Attended log ∧ ∀ m, e = .leave m → present (log ++ [.leave m]) ≠ [] := by
  constructor
  · refine fun h => ⟨h.left, ?_⟩
    rintro m rfl
    exact h log m (List.prefix_refl _)
  · rintro ⟨hlog, he⟩ before m hpre
    rcases List.prefix_concat_iff.mp hpre with heq | hpre
    · obtain ⟨rfl, hlast⟩ := List.append_inj' heq rfl
      exact he m (List.singleton_inj.mp hlast).symm
    · exact hlog before m hpre

end Attendance

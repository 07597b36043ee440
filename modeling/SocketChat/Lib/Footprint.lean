/-
Operations on disjoint parts of a shared state.

`Cells` presents a state as cells, each with a content, and a log that only grows.  The
operation `f` acts on the cells in `F` from a state `s` (`ActsOn`) when all it does there
depends on these cells and changes no others: from every state that agrees with `s` on `F`
it returns the same, writes the same contents and logs the same entries.  Two operations on
disjoint sets of cells can be exchanged (`ActsOn.read_comm`, `ActsOn.log_comm`), and a
program acts on what its calls act on (`Prog.Meets.actsOn`).
-/
import SocketChat.Lib.Prog
import Mathlib.Data.Set.BooleanAlgebra
import Mathlib.Order.CompletePartialOrder

/-- A state seen as cells and a log. -/
structure Cells (σ : Type*) {Loc : Type*} (Content : Loc → Type*) (E : Type*) where
  read : σ → (l : Loc) → Content l
  log : σ → List E

namespace Cells

variable {σ Loc E α β : Type*} {Content : Loc → Type*} (V : Cells σ Content E)

/-- The two states have the same contents in the cells of `F`. -/
def Agree (F : Set Loc) (s t : σ) : Prop := ∀ l ∈ F, V.read s l = V.read t l

/-- From `s`, and from any state that agrees with it on `F`, the operation `f` acts on the
cells in `F` only and logs `entries`. -/
structure ActsOn (F : Set Loc) (f : σ → α × σ) (s : σ) (entries : List E) : Prop where
  result : ∀ t, V.Agree F t s → (f t).1 = (f s).1
  inside : ∀ t, V.Agree F t s → V.Agree F (f t).2 (f s).2
  outside : ∀ t, V.Agree F t s → V.Agree Fᶜ (f t).2 t
  log : ∀ t, V.Agree F t s → V.log (f t).2 = V.log t ++ entries

variable {V} {F G : Set Loc} {s t u : σ}

theorem Agree.refl (s : σ) : V.Agree F s s := fun _ _ => rfl

theorem Agree.symm (h : V.Agree F s t) : V.Agree F t s := fun l hl => (h l hl).symm

theorem Agree.trans (h : V.Agree F s t) (h' : V.Agree F t u) : V.Agree F s u :=
  fun l hl => (h l hl).trans (h' l hl)

theorem Agree.mono (h : V.Agree G s t) (hFG : F ⊆ G) : V.Agree F s t := fun l hl => h l (hFG hl)

namespace ActsOn

variable {f : σ → α × σ} {g : σ → β × σ} {entries more : List E}

/-- An operation that only looks. -/
theorem of_read (f : σ → α) (hf : ∀ t, V.Agree F t s → f t = f s) :
    V.ActsOn F (fun t => (f t, t)) s [] where
  result t ht := hf t ht
  inside _ ht := ht
  outside t _ := Agree.refl t
  log _ _ := (List.append_nil _).symm

/-- It acts so from every state that agrees with `s` on `F`. -/
theorem of_agree (hf : V.ActsOn F f s entries) (ht : V.Agree F t s) : V.ActsOn F f t entries where
  result u hu := (hf.result u (hu.trans ht)).trans (hf.result t ht).symm
  inside u hu := (hf.inside u (hu.trans ht)).trans (hf.inside t ht).symm
  outside u hu := hf.outside u (hu.trans ht)
  log u hu := hf.log u (hu.trans ht)

theorem mono (hf : V.ActsOn F f s entries) (hFG : F ⊆ G) : V.ActsOn G f s entries where
  result t ht := hf.result t (ht.mono hFG)
  inside t ht := by
    intro l hl
    by_cases hlF : l ∈ F
    · exact hf.inside t (ht.mono hFG) l hlF
    · -- neither run writes the cell
      rw [hf.outside t (ht.mono hFG) l hlF, hf.outside s (Agree.refl s) l hlF]
      exact ht l hl
  outside t ht := (hf.outside t (ht.mono hFG)).mono (Set.compl_subset_compl.mpr hFG)
  log t ht := hf.log t (ht.mono hFG)

/-- One operation, and then one that depends on its result. -/
theorem bind {g : α → σ → β × σ} (hf : V.ActsOn F f s entries)
    (hg : V.ActsOn F (g (f s).1) (f s).2 more) :
    V.ActsOn F (fun t => g (f t).1 (f t).2) s (entries ++ more) where
  result t ht := by
    rw [hf.result t ht]
    exact hg.result _ (hf.inside t ht)
  inside t ht := by
    rw [hf.result t ht]
    exact hg.inside _ (hf.inside t ht)
  outside t ht := by
    rw [hf.result t ht]
    exact (hg.outside _ (hf.inside t ht)).trans (hf.outside t ht)
  log t ht := by
    rw [hf.result t ht, hg.log _ (hf.inside t ht), hf.log t ht, List.append_assoc]

/-! ### Two operations on disjoint cells -/

/-- What an operation does not act on is as before. -/
theorem agree (hg : V.ActsOn G g s more) (hFG : Disjoint F G) : V.Agree F (g s).2 s :=
  (hg.outside s (Agree.refl s)).mono hFG.subset_compl_right

/-- The operation does not notice that the other one was there first. -/
theorem after (hf : V.ActsOn F f s entries) (hg : V.ActsOn G g s more) (hFG : Disjoint F G) :
    V.ActsOn F f (g s).2 entries :=
  hf.of_agree (hg.agree hFG)

/-- The cells of the first operation, once both are through. -/
theorem agree_after (hf : V.ActsOn F f s entries) (hg : V.ActsOn G g s more)
    (hFG : Disjoint F G) : V.Agree F (g (f s).2).2 (f (g s).2).2 := by
  have hthen : V.Agree F (g (f s).2).2 (f s).2 := (hg.after hf hFG.symm).agree hFG
  exact hthen.trans (hf.inside _ (hg.agree hFG)).symm

/-- In either order the two leave the same contents everywhere. -/
theorem read_comm (hf : V.ActsOn F f s entries) (hg : V.ActsOn G g s more)
    (hFG : Disjoint F G) (l : Loc) : V.read (g (f s).2).2 l = V.read (f (g s).2).2 l := by
  by_cases hlF : l ∈ F
  · exact hf.agree_after hg hFG l hlF
  · by_cases hlG : l ∈ G
    · exact (hg.agree_after hf hFG.symm l hlG).symm
    · calc V.read (g (f s).2).2 l
          = V.read (f s).2 l := (hg.after hf hFG.symm).outside _ (Agree.refl _) l hlG
        _ = V.read s l := hf.outside s (Agree.refl s) l hlF
        _ = V.read (g s).2 l := (hg.outside s (Agree.refl s) l hlG).symm
        _ = V.read (f (g s).2).2 l := ((hf.after hg hFG).outside _ (Agree.refl _) l hlF).symm

/-- In either order they log the same entries, if not in the same order. -/
theorem log_comm (hf : V.ActsOn F f s entries) (hg : V.ActsOn G g s more)
    (hFG : Disjoint F G) : (V.log (g (f s).2).2).Perm (V.log (f (g s).2).2) := by
  have hfirst : V.log (g (f s).2).2 = V.log s ++ (entries ++ more) := by
    rw [(hg.after hf hFG.symm).log _ (Agree.refl _), hf.log s (Agree.refl s), List.append_assoc]
  have hsecond : V.log (f (g s).2).2 = V.log s ++ (more ++ entries) := by
    rw [(hf.after hg hFG).log _ (Agree.refl _), hg.log s (Agree.refl s), List.append_assoc]
  rw [hfirst, hsecond]
  exact List.perm_append_comm.append_left (V.log s)

end ActsOn

end Cells

/-! ### Programs -/

namespace Prog

universe u v w

variable {Call : Type u} {Reply : Call → Type v} {α : Type w} {σ Loc E : Type*}
  {Content : Loc → Type*} {V : Cells σ Content E} {serve : (c : Call) → σ → Reply c × σ}
  {footprint : Call → Set Loc} {F : Set Loc}

/-- A program whose calls, when it runs alone, all act on cells in `F` acts on `F`. -/
theorem Meets.actsOn (hserve : ∀ c s, ∃ entries, V.ActsOn (footprint c) (serve c) s entries)
    {p : Prog Reply α} {s : σ} (hp : p.Meets serve (fun c _ => footprint c ⊆ F) s) :
    ∃ entries, V.ActsOn F (p.exec serve) s entries := by
  induction p generalizing s with
  | ret a => exact ⟨[], Cells.ActsOn.of_read (fun _ => a) fun _ _ => rfl⟩
  | call c k ih =>
    obtain ⟨entries, hc⟩ := hserve c s
    obtain ⟨more, hk⟩ := ih (serve c s).1 hp.2
    exact ⟨entries ++ more, (hc.mono hp.1).bind (g := fun r => (k r).exec serve) hk⟩

end Prog

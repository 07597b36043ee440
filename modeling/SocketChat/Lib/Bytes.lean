/-
Byte strings.

`Bytes` is what a `std::string`, a `std::vector<char>` and a network stream hold
alike.  `str` writes an ASCII literal as bytes; `utf8` is well-formedness as
UTF-8, by the table of well-formed byte sequences.
-/
import Mathlib.Data.List.Basic

/-- A string of bytes. -/
abbrev Bytes := List UInt8

/-- The bytes of an ASCII literal. -/
def str (s : String) : Bytes := s.toList.map fun c => UInt8.ofNat c.toNat

/-- `std::to_string` of a number that is not negative. -/
def decimal (n : ℕ) : Bytes := (Nat.toDigits 10 n).map fun c => UInt8.ofNat c.toNat

namespace Bytes

/-- `b` lies between `lo` and `hi`, both included. -/
def inRange (lo hi b : UInt8) : Bool := lo ≤ b && b ≤ hi

/-- A continuation byte. -/
abbrev cont (b : UInt8) : Bool := inRange 0x80 0xBF b

/-- Well-formed UTF-8: no overlong form, no surrogate, nothing above U+10FFFF. -/
def utf8 : Bytes → Bool
  | [] => true
  | b :: rest =>
    if b < 0x80 then utf8 rest
    else match rest with
      | [] => false
      | b₁ :: rest₁ =>
        if inRange 0xC2 0xDF b then cont b₁ && utf8 rest₁
        else match rest₁ with
          | [] => false
          | b₂ :: rest₂ =>
            if b = 0xE0 then inRange 0xA0 0xBF b₁ && cont b₂ && utf8 rest₂
            else if b = 0xED then inRange 0x80 0x9F b₁ && cont b₂ && utf8 rest₂
            else if inRange 0xE1 0xEF b then cont b₁ && cont b₂ && utf8 rest₂
            else match rest₂ with
              | [] => false
              | b₃ :: rest₃ =>
                if b = 0xF0 then inRange 0x90 0xBF b₁ && cont b₂ && cont b₃ && utf8 rest₃
                else if b = 0xF4 then inRange 0x80 0x8F b₁ && cont b₂ && cont b₃ && utf8 rest₃
                else inRange 0xF1 0xF3 b && cont b₁ && cont b₂ && cont b₃ && utf8 rest₃

@[simp] theorem utf8_nil : utf8 [] = true := by rw [utf8]

theorem utf8_cons_ascii {b : UInt8} {rest : Bytes} (h : b < 0x80) :
    utf8 (b :: rest) = utf8 rest := by
  rw [utf8.eq_def]
  simp only [if_pos h]

/-- ASCII text is well-formed. -/
theorem utf8_of_ascii {s : Bytes} (h : ∀ b ∈ s, b < 0x80) : utf8 s = true := by
  induction s with
  | nil => exact utf8_nil
  | cons b s ih =>
    rw [utf8_cons_ascii (h b List.mem_cons_self)]
    exact ih fun c hc => h c (List.mem_cons_of_mem b hc)

/-- The lexicographic order of byte strings, bytes compared as unsigned numbers. -/
def lt : Bytes → Bytes → Bool
  | [], [] => false
  | [], _ :: _ => true
  | _ :: _, [] => false
  | a :: s, b :: t => a < b || (a == b && lt s t)

theorem lt_irrefl (s : Bytes) : lt s s = false := by
  induction s with
  | nil => rfl
  | cons a s ih => simp [lt, ih]

theorem lt_trans {s t u : Bytes} (hst : lt s t = true) (htu : lt t u = true) :
    lt s u = true := by
  induction s generalizing t u with
  | nil =>
    cases u with
    | nil => cases t <;> simp [lt] at htu
    | cons c u => rfl
  | cons a s ih =>
    cases t with
    | nil => simp [lt] at hst
    | cons b t =>
      cases u with
      | nil => simp [lt] at htu
      | cons c u =>
        simp only [lt, Bool.or_eq_true, decide_eq_true_eq, Bool.and_eq_true, beq_iff_eq]
          at hst htu ⊢
        rcases hst with hab | ⟨rfl, hst⟩
        · rcases htu with hbc | ⟨rfl, -⟩
          · exact Or.inl (UInt8.lt_trans hab hbc)
          · exact Or.inl hab
        · rcases htu with hbc | ⟨rfl, htu⟩
          · exact Or.inl hbc
          · exact Or.inr ⟨rfl, ih hst htu⟩

/-- Two strings of which neither is below the other are equal. -/
theorem eq_of_not_lt {s t : Bytes} (hst : lt s t = false) (hts : lt t s = false) : s = t := by
  induction s generalizing t with
  | nil =>
    cases t with
    | nil => rfl
    | cons b t => simp [lt] at hst
  | cons a s ih =>
    cases t with
    | nil => simp [lt] at hts
    | cons b t =>
      simp only [lt, Bool.or_eq_false_iff, decide_eq_false_iff_not, UInt8.not_lt] at hst hts
      have hab : a = b := UInt8.le_antisymm hts.1 hst.1
      subst hab
      simp only [beq_self_eq_true, Bool.true_and] at hst hts
      rw [ih hst.2 hts.2]

end Bytes

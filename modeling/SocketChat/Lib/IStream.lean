/-
Formatted and unformatted input, as `std::istream` does it.

A stream is what is left to be read and the two error flags.  A read that fails sets
`failbit`; while a flag is set nothing is consumed, and every read fails.  `Follows` is
what the reads have in common: they leave a suffix of what there was, and leave a stream
with `failbit` as it is.  A read that does not fail has consumed something
(`readWord_lt`, `readInt_lt`).
-/
import SocketChat.Lib.Bytes
import Mathlib.Algebra.Group.Int.Defs

structure IStream where
  rest : Bytes
  eofbit : Bool
  failbit : Bool
  deriving DecidableEq

namespace IStream

/-- A stream nothing has been read from. -/
def ofBytes (input : Bytes) : IStream := ⟨input, false, false⟩

def good (s : IStream) : Bool := !s.eofbit && !s.failbit

/-- `setstate(failbit)`. -/
def fail (s : IStream) : IStream := { s with failbit := true }

def isspace (b : UInt8) : Bool := b = 0x20 || Bytes.inRange 0x09 0x0D b

def isdigit (b : UInt8) : Bool := Bytes.inRange 0x30 0x39 b

/-- What a formatted read does first: it skips white space, and fails at the end of the
input. -/
def skipws (s : IStream) : IStream :=
  if s.good then
    let rest := s.rest.dropWhile isspace
    ⟨rest, rest.isEmpty, rest.isEmpty⟩
  else s.fail

/-- `>>` into a string. -/
def readWord (s : IStream) : Bytes × IStream :=
  let s := s.skipws
  if s.good then
    let rest := s.rest.dropWhile fun b => !isspace b
    (s.rest.takeWhile fun b => !isspace b, ⟨rest, rest.isEmpty, false⟩)
  else ([], s)

/-- The number with the given digits. -/
def ofDigits (digits : Bytes) : ℕ := digits.foldl (fun n d => 10 * n + (d.toNat - 48)) 0

/-- The sign in front of a number, if there is one. -/
def hasSign (t : Bytes) : Bool := t.head? = some 0x2D || t.head? = some 0x2B

/-- `>>` into an `int`: the longest text that looks like a number is consumed.  A failure
stores 0, or the limit the number is beyond. -/
def readInt (s : IStream) : Int32 × IStream :=
  let s := s.skipws
  if s.good then
    let unsigned := if hasSign s.rest then s.rest.tail else s.rest
    let digits := unsigned.takeWhile isdigit
    let rest := unsigned.dropWhile isdigit
    let n : ℤ := if s.rest.head? = some 0x2D then -ofDigits digits else ofDigits digits
    if digits = [] then (0, ⟨rest, rest.isEmpty, true⟩)
    else if n < -2 ^ 31 then (Int32.minValue, ⟨rest, rest.isEmpty, true⟩)
    else if 2 ^ 31 ≤ n then (Int32.maxValue, ⟨rest, rest.isEmpty, true⟩)
    else (Int32.ofInt n, ⟨rest, rest.isEmpty, false⟩)
  else (0, s)

/-- `std::getline`: a line without its end.  It fails when there is not even an end of a
line. -/
def getline (s : IStream) : Bytes × IStream :=
  if s.good then
    let line := s.rest.takeWhile (· ≠ 0x0A)
    match s.rest.dropWhile (· ≠ 0x0A) with
    | [] => (line, ⟨[], true, line.isEmpty⟩)
    | _ :: rest => (line, ⟨rest, false, false⟩)
  else ([], s.fail)

/-- `ignore(max, '\n')`. -/
def ignoreLine (s : IStream) : IStream :=
  if s.good then
    match s.rest.dropWhile (· ≠ 0x0A) with
    | [] => ⟨[], true, false⟩
    | _ :: rest => ⟨rest, false, false⟩
  else s.fail

/-! ### What reads have in common -/

variable {s s' t : IStream}

/-- `t` may be what is left of `s` after some reads. -/
def Follows (s t : IStream) : Prop := t.rest <:+ s.rest ∧ (s.failbit = true → t = s)

theorem Follows.refl (s : IStream) : s.Follows s := ⟨List.suffix_refl _, fun _ => rfl⟩

theorem Follows.trans (h : s.Follows s') (h' : s'.Follows t) : s.Follows t :=
  ⟨h'.1.trans h.1, fun hfail => (h'.2 (h.2 hfail ▸ hfail)).trans (h.2 hfail)⟩

theorem Follows.length_le (h : s.Follows t) : t.rest.length ≤ s.rest.length := h.1.length_le

/-- `failbit` is only ever set. -/
theorem Follows.failbit (h : s.Follows t) (hfail : s.failbit = true) : t.failbit = true := by
  rw [h.2 hfail]
  exact hfail

theorem good_iff : s.good = true ↔ s.eofbit = false ∧ s.failbit = false := by
  rw [good, Bool.and_eq_true, Bool.not_eq_true', Bool.not_eq_true']

theorem not_good_of_failbit (h : s.failbit = true) : ¬ s.good = true := by
  rw [good_iff, h]
  simp

theorem fail_of_failbit (h : s.failbit = true) : s.fail = s := by
  rw [fail, ← h]

theorem skipws_of_failbit (h : s.failbit = true) : s.skipws = s := by
  rw [skipws, if_neg (not_good_of_failbit h), fail_of_failbit h]

theorem follows_skipws (s : IStream) : s.Follows s.skipws := by
  refine ⟨?_, skipws_of_failbit⟩
  rw [skipws]
  by_cases hgood : s.good = true
  · rw [if_pos hgood]
    exact List.dropWhile_suffix _
  · rw [if_neg hgood]
    exact List.suffix_refl _

/-- After white space there is something to be read. -/
theorem head_skipws (h : s.skipws.good = true) :
    ∃ b rest, s.skipws.rest = b :: rest ∧ isspace b = false := by
  rw [skipws] at h ⊢
  by_cases hgood : s.good = true
  · rw [if_pos hgood] at h ⊢
    cases hrest : s.rest.dropWhile isspace with
    | nil =>
      rw [hrest] at h
      cases h
    | cons b rest =>
      refine ⟨b, rest, rfl, ?_⟩
      have hhead := List.head_dropWhile_not isspace (l := s.rest) (by rw [hrest]; simp)
      simp only [hrest, List.head_cons] at hhead
      exact hhead
  · rw [if_neg hgood] at h
    exact absurd h (not_good_of_failbit rfl)

/-! ### Each read -/

theorem readWord_of_failbit (h : s.failbit = true) : s.readWord = ([], s) := by
  rw [readWord]
  simp only [skipws_of_failbit h, if_neg (not_good_of_failbit h)]

/-- A read that begins with white space fails, or what is left of it starts with something
else. -/
theorem skipws_cases (s : IStream) :
    s.skipws.failbit = true ∨ ∃ b rest, s.skipws.rest = b :: rest ∧ isspace b = false ∧
      s.skipws.good = true ∧ rest.length < s.rest.length := by
  by_cases hgood : s.skipws.good = true
  · obtain ⟨b, rest, hrest, hb⟩ := head_skipws hgood
    refine Or.inr ⟨b, rest, hrest, hb, hgood, ?_⟩
    have hle := (follows_skipws s).length_le
    rw [hrest, List.length_cons] at hle
    exact hle
  · refine Or.inl ?_
    rw [skipws] at hgood ⊢
    by_cases hs : s.good = true
    · rw [if_pos hs] at hgood ⊢
      cases hempty : (s.rest.dropWhile isspace).isEmpty with
      | true => exact hempty
      | false =>
        rw [good_iff] at hgood
        exact absurd ⟨hempty, hempty⟩ hgood
    · rw [if_neg hs]
      rfl

theorem readWord_lt (h : s.readWord.2.failbit = false) :
    s.readWord.2.rest.length < s.rest.length := by
  rcases skipws_cases s with hfail | ⟨b, rest, hrest, hb, hgood, hlt⟩
  · rw [readWord] at h
    simp only [if_neg (not_good_of_failbit hfail)] at h
    exact absurd (hfail.symm.trans h) (by simp)
  · rw [readWord]
    simp only [if_pos hgood, hrest, List.dropWhile_cons, hb, Bool.not_false, if_true]
    exact Nat.lt_of_le_of_lt (List.dropWhile_suffix _).length_le hlt

theorem readInt_of_failbit (h : s.failbit = true) : s.readInt = (0, s) := by
  rw [readInt]
  simp only [skipws_of_failbit h, if_neg (not_good_of_failbit h)]

/-- What `>>` into an `int` consumes once white space has been skipped: a sign, if there is
one, and digits, at least one of them unless it fails; and what a failure stores. -/
theorem readInt_cases (s : IStream) :
    s.readInt = (0, s.skipws) ∧ s.skipws.failbit = true ∨
    ∃ sign digits rest n eof failed, s.skipws.rest = sign ++ digits ++ rest ∧
      s.readInt = (n, ⟨rest, eof, failed⟩) ∧ (failed = false → digits ≠ []) ∧
      (failed = true → n = 0 ∨ n = Int32.minValue ∨ n = Int32.maxValue) := by
  rcases skipws_cases s with hfail | ⟨b, rest, hrest, hb, hgood, hlt⟩
  · refine Or.inl ⟨?_, hfail⟩
    rw [readInt]
    simp only [if_neg (not_good_of_failbit hfail)]
  · obtain ⟨sign, unsigned, hsign, hunsigned⟩ : ∃ sign unsigned : Bytes,
        s.skipws.rest = sign ++ unsigned ∧
          (if hasSign s.skipws.rest then s.skipws.rest.tail else s.skipws.rest) = unsigned := by
      by_cases h : hasSign s.skipws.rest = true
      · refine ⟨[b], rest, by rw [hrest]; rfl, ?_⟩
        rw [if_pos h, hrest]
        rfl
      · exact ⟨[], s.skipws.rest, rfl, if_neg h⟩
    have hsplit : s.skipws.rest =
        sign ++ unsigned.takeWhile isdigit ++ unsigned.dropWhile isdigit := by
      rw [List.append_assoc, List.takeWhile_append_dropWhile, hsign]
    rw [readInt]
    simp only [if_pos hgood, hunsigned]
    by_cases hdigits : unsigned.takeWhile isdigit = []
    · rw [if_pos hdigits]
      exact Or.inr ⟨_, _, _, _, _, _, hsplit, rfl, by simp, fun _ => Or.inl rfl⟩
    -- the value does not matter here, only whether it is within `int`
    · rw [if_neg hdigits]
      generalize (if s.skipws.rest.head? = some 0x2D then
        -(ofDigits (unsigned.takeWhile isdigit) : ℤ)
        else (ofDigits (unsigned.takeWhile isdigit) : ℤ)) = n
      by_cases hlow : n < -2 ^ 31
      · rw [if_pos hlow]
        exact Or.inr ⟨_, _, _, _, _, _, hsplit, rfl, by simp, fun _ => Or.inr (Or.inl rfl)⟩
      · rw [if_neg hlow]
        by_cases hhigh : 2 ^ 31 ≤ n
        · rw [if_pos hhigh]
          exact Or.inr ⟨_, _, _, _, _, _, hsplit, rfl, by simp, fun _ => Or.inr (Or.inr rfl)⟩
        · rw [if_neg hhigh]
          exact Or.inr ⟨_, _, _, _, _, _, hsplit, rfl, fun _ => hdigits, by simp⟩

theorem follows_readInt (s : IStream) : s.Follows s.readInt.2 := by
  refine ⟨?_, fun h => by rw [readInt_of_failbit h]⟩
  rcases readInt_cases s with ⟨heq, -⟩ | ⟨sign, digits, rest, n, eof, failed, hrest, heq, -⟩
  · rw [heq]
    exact (follows_skipws s).1
  · rw [heq]
    exact (List.suffix_append (sign ++ digits) rest).trans (hrest ▸ (follows_skipws s).1)

theorem readInt_lt (h : s.readInt.2.failbit = false) : s.readInt.2.rest.length < s.rest.length := by
  rcases readInt_cases s with ⟨heq, hfail⟩ |
    ⟨sign, digits, rest, n, eof, failed, hrest, heq, hread, -⟩
  · rw [heq] at h
    exact absurd (hfail.symm.trans h) (by simp)
  · rw [heq] at h ⊢
    have hle := (follows_skipws s).length_le
    have hpos := List.length_pos_of_ne_nil (hread h)
    rw [hrest, List.length_append, List.length_append] at hle
    show rest.length < s.rest.length
    omega

theorem readInt_failed (h : s.readInt.2.failbit = true) :
    s.readInt.1 = 0 ∨ s.readInt.1 = Int32.minValue ∨ s.readInt.1 = Int32.maxValue := by
  rcases readInt_cases s with ⟨heq, -⟩ |
    ⟨sign, digits, rest, n, eof, failed, -, heq, -, hstored⟩
  · rw [heq]
    exact Or.inl rfl
  · rw [heq] at h ⊢
    exact hstored h

theorem getline_of_failbit (h : s.failbit = true) : s.getline = ([], s) := by
  rw [getline, if_neg (not_good_of_failbit h), fail_of_failbit h]

theorem ignoreLine_of_failbit (h : s.failbit = true) : s.ignoreLine = s := by
  rw [ignoreLine, if_neg (not_good_of_failbit h), fail_of_failbit h]

/-- What is behind the end of the line. -/
theorem suffix_of_dropWhile {p : UInt8 → Bool} {b : UInt8} {l rest : Bytes}
    (h : l.dropWhile p = b :: rest) : rest <:+ l ∧ rest.length < l.length := by
  have hsuffix : b :: rest <:+ l := h ▸ List.dropWhile_suffix p
  exact ⟨(List.suffix_cons b rest).trans hsuffix, hsuffix.length_le⟩

theorem follows_getline (s : IStream) : s.Follows s.getline.2 := by
  refine ⟨?_, fun h => by rw [getline_of_failbit h]⟩
  rw [getline]
  by_cases hgood : s.good = true
  · rw [if_pos hgood]
    cases hrest : s.rest.dropWhile (· ≠ 0x0A) with
    | nil => exact List.nil_suffix
    | cons b rest => exact (suffix_of_dropWhile hrest).1
  · rw [if_neg hgood]
    exact List.suffix_refl _

theorem follows_ignoreLine (s : IStream) : s.Follows s.ignoreLine := by
  refine ⟨?_, ignoreLine_of_failbit⟩
  rw [ignoreLine]
  by_cases hgood : s.good = true
  · rw [if_pos hgood]
    cases hrest : s.rest.dropWhile (· ≠ 0x0A) with
    | nil => exact List.nil_suffix
    | cons b rest => exact (suffix_of_dropWhile hrest).1
  · rw [if_neg hgood]
    exact List.suffix_refl _

/-- A line has been read, or the end of the input. -/
theorem getline_cases (h : s.good = true) : s.getline.2.eofbit = true ∨
    s.getline.2.good = true ∧ s.getline.2.rest.length < s.rest.length := by
  rw [getline, if_pos h]
  cases hrest : s.rest.dropWhile (· ≠ 0x0A) with
  | nil => exact Or.inl rfl
  | cons b rest => exact Or.inr ⟨rfl, (suffix_of_dropWhile hrest).2⟩

/-- A line that is not empty has been read. -/
theorem good_or_eof_getline (h : s.getline.1 ≠ []) :
    s.getline.2.good = true ∨ s.getline.2.eofbit = true := by
  by_cases hgood : s.good = true
  · rcases getline_cases hgood with heof | ⟨hgood', -⟩
    · exact Or.inr heof
    · exact Or.inl hgood'
  · rw [getline, if_neg hgood] at h
    exact absurd rfl h

theorem good_or_eof_ignoreLine (h : s.failbit = false) :
    s.ignoreLine.good = true ∨ s.ignoreLine.eofbit = true := by
  rw [ignoreLine]
  by_cases hgood : s.good = true
  · rw [if_pos hgood]
    cases s.rest.dropWhile (· ≠ 0x0A) with
    | nil => exact Or.inr rfl
    | cons b rest => exact Or.inl rfl
  · rw [if_neg hgood]
    refine Or.inr ?_
    show s.eofbit = true
    by_contra heof
    exact hgood (good_iff.mpr ⟨by simpa using heof, h⟩)

end IStream

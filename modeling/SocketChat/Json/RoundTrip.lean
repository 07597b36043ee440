/-
The JSON library without doubles is lawful.

`readValue_text` is the core: a value that can be held is read back from its text,
whatever stands behind the text, as long as that cannot be taken for a digit or the rest
of a number.  It goes by induction on `Valid`, the two lemmas on lists of elements and
of members carrying the induction through arrays and objects.
-/
import SocketChat.Json.Text

namespace Json

/-! ### Strings -/

theorem scanString_hex : ∀ n < 32, hexByte 0x30 0x30 (hexDigit (UInt8.ofNat n / 16))
    (hexDigit (UInt8.ofNat n % 16)) = some (UInt8.ofNat n) := by decide

/-- Reading an escaped byte. -/
theorem scanString_escape (b : UInt8) (t : Bytes) :
    scanString (escape b ++ t) = (scanString t).map fun s => (b :: s.1, s.2) := by
  have hplain : ∀ c d : UInt8, unescape c = some d → c ≠ 0x75 →
      scanString (0x5C :: c :: t) = (scanString t).map fun s => (d :: s.1, s.2) := by
    intro c d hc hne
    rw [scanString.eq_def]
    simp only [if_neg (show ¬ (0x5C : UInt8) = 0x22 by decide), if_true, if_neg hne, hc,
      Option.bind_some]
  rw [escape]
  by_cases h22 : b = 0x22
  · rw [if_pos h22, h22]
    exact hplain 0x22 0x22 (by decide) (by decide)
  by_cases h5C : b = 0x5C
  · rw [if_neg h22, if_pos h5C, h5C]
    exact hplain 0x5C 0x5C (by decide) (by decide)
  by_cases h08 : b = 0x08
  · rw [if_neg h22, if_neg h5C, if_pos h08, h08]
    exact hplain 0x62 0x08 (by decide) (by decide)
  by_cases h09 : b = 0x09
  · rw [if_neg h22, if_neg h5C, if_neg h08, if_pos h09, h09]
    exact hplain 0x74 0x09 (by decide) (by decide)
  by_cases h0A : b = 0x0A
  · rw [if_neg h22, if_neg h5C, if_neg h08, if_neg h09, if_pos h0A, h0A]
    exact hplain 0x6E 0x0A (by decide) (by decide)
  by_cases h0C : b = 0x0C
  · rw [if_neg h22, if_neg h5C, if_neg h08, if_neg h09, if_neg h0A, if_pos h0C, h0C]
    exact hplain 0x66 0x0C (by decide) (by decide)
  by_cases h0D : b = 0x0D
  · rw [if_neg h22, if_neg h5C, if_neg h08, if_neg h09, if_neg h0A, if_neg h0C, if_pos h0D, h0D]
    exact hplain 0x72 0x0D (by decide) (by decide)
  rw [if_neg h22, if_neg h5C, if_neg h08, if_neg h09, if_neg h0A, if_neg h0C, if_neg h0D]
  -- what is left is written as \u00XX, or as it is
  by_cases h20 : b < 0x20
  · have hb : b.toNat < 32 := h20
    have hhex := scanString_hex b.toNat hb
    rw [UInt8.ofNat_toNat] at hhex
    rw [if_pos h20]
    show scanString (0x5C :: 0x75 :: 0x30 :: 0x30 :: hexDigit (b / 16) :: hexDigit (b % 16) :: t)
      = _
    rw [scanString.eq_def]
    simp only [if_neg (show ¬ (0x5C : UInt8) = 0x22 by decide), if_true, hhex, Option.bind_some]
  · rw [if_neg h20, List.singleton_append, scanString.eq_def]
    simp only [if_neg h22, if_neg h5C, if_neg h20]

theorem scanString_stringTail (s r : Bytes) : scanString (stringTail s ++ r) = some (s, r) := by
  induction s with
  | nil =>
    show scanString (0x22 :: r) = _
    rw [scanString.eq_def]
    simp only [if_true]
  | cons b s ih =>
    have hcons : stringTail (b :: s) ++ r = escape b ++ (stringTail s ++ r) := by
      simp [stringTail]
    rw [hcons, scanString_escape, ih]
    rfl

theorem readString_stringTail {s : Bytes} (hs : s.utf8 = true) (r : Bytes) :
    readString (stringTail s ++ r) = some (s, r) := by
  rw [readString, scanString_stringTail]
  simp [Option.filter, hs]

/-! ### Integers -/

theorem isDigit_of_mem_decimal {n : ℕ} {d : UInt8} (h : d ∈ decimal n) : isDigit d = true := by
  obtain ⟨c, hc, rfl⟩ := List.mem_map.mp h
  have hdigit := Nat.isDigit_of_mem_toDigits (by decide) (by decide) hc
  simp only [Char.isDigit, Bool.and_eq_true, decide_eq_true_eq] at hdigit
  have hlo : 48 ≤ c.toNat := hdigit.1
  have hhi : c.toNat ≤ 57 := hdigit.2
  simp only [isDigit, Bytes.inRange, Bool.and_eq_true, decide_eq_true_eq, UInt8.le_iff_toNat_le,
    UInt8.toNat_ofNat']
  show 48 ≤ c.toNat % 256 ∧ c.toNat % 256 ≤ 57
  omega

theorem ofDecimal_decimal (n : ℕ) : ofDecimal (decimal n) = n := by
  rw [ofDecimal, decimal, List.foldl_map]
  have hfold : ∀ (l : List Char) (k : ℕ), (∀ c ∈ l, c.isDigit = true) →
      l.foldl (fun n c => 10 * n + ((UInt8.ofNat c.toNat).toNat - 48)) k =
        Nat.ofDigitChars 10 l k := by
    intro l
    induction l with
    | nil => exact fun k _ => Nat.ofDigitChars_nil.symm
    | cons c l ih =>
      intro k hl
      have hdigit := hl c List.mem_cons_self
      simp only [Char.isDigit, Bool.and_eq_true, decide_eq_true_eq] at hdigit
      have hhi : c.toNat ≤ 57 := hdigit.2
      have hc : (UInt8.ofNat c.toNat).toNat = c.toNat := by
        rw [UInt8.toNat_ofNat']
        omega
      rw [List.foldl_cons, Nat.ofDigitChars_cons, hc]
      exact ih _ fun d hd => hl d (List.mem_cons_of_mem c hd)
  rw [hfold _ _ fun c hc => Nat.isDigit_of_mem_toDigits (by decide) (by decide) hc]
  exact Nat.ofDigitChars_toDigits (by decide) (by decide)

/-- What may follow a value: the end, a comma or a closing bracket or brace. -/
def Ends (r : Bytes) : Prop := ∀ c, r.head? = some c → c = 0x2C ∨ c = 0x5D ∨ c = 0x7D

theorem ends_nil : Ends [] := fun c h => by cases h

theorem ends_cons {c : UInt8} (r : Bytes) (h : c = 0x2C ∨ c = 0x5D ∨ c = 0x7D) : Ends (c :: r) :=
  fun d hd => by
    rw [List.head?_cons, Option.some_inj] at hd
    exact hd ▸ h

theorem readNat_decimal (n : ℕ) {r : Bytes} (hr : Ends r) :
    readNat (decimal n ++ r) = some (n, r) := by
  have hstop : r.takeWhile isDigit = [] ∧ r.dropWhile isDigit = r ∧
      r.head? ∉ [some (0x2E : UInt8), some 0x65, some 0x45] := by
    cases r with
    | nil => exact ⟨rfl, rfl, by decide⟩
    | cons c r =>
      rcases hr c rfl with rfl | rfl | rfl
      · exact ⟨rfl, rfl, by simp⟩
      · exact ⟨rfl, rfl, by simp⟩
      · exact ⟨rfl, rfl, by simp⟩
  have htake : (decimal n ++ r).takeWhile isDigit = decimal n := by
    rw [List.takeWhile_append_of_pos fun d hd => isDigit_of_mem_decimal hd, hstop.1,
      List.append_nil]
  have hdrop : (decimal n ++ r).dropWhile isDigit = r := by
    rw [List.dropWhile_append_of_pos fun d hd => isDigit_of_mem_decimal hd, hstop.2.1]
  simp only [readNat, htake, hdrop, ofDecimal_decimal]
  rw [if_pos ⟨trivial, hstop.2.2⟩]

theorem decimal_ne_nil (n : ℕ) : decimal n ≠ [] := by
  rw [decimal, Ne, List.map_eq_nil_iff]
  exact Nat.toDigits_ne_nil

/-- The text of an integer starts with a minus sign or a digit. -/
theorem head_integerText (n : ℤ) :
    ∃ c t, integerText n = c :: t ∧ (c = 0x2D ∨ isDigit c = true) := by
  rw [integerText]
  by_cases hn : n < 0
  · rw [if_pos hn]
    exact ⟨0x2D, decimal n.natAbs, rfl, Or.inl rfl⟩
  · rw [if_neg hn]
    obtain ⟨c, t, hct⟩ := List.exists_cons_of_ne_nil (decimal_ne_nil n.natAbs)
    exact ⟨c, t, hct, Or.inr (isDigit_of_mem_decimal (hct ▸ List.mem_cons_self))⟩

theorem readScalar_integer {n : ℤ} (hlo : -2 ^ 63 ≤ n) (hhi : n < 2 ^ 64) {r : Bytes}
    (hr : Ends r) : readScalar (integerText n ++ r) = some (numberInteger n, r) := by
  obtain ⟨c, t, hct, hc⟩ := head_integerText n
  -- a number starts with a minus sign or a digit, so it is none of the names
  have hname : ∀ (d : UInt8) (name : Bytes), d ≠ 0x2D → isDigit d = false →
      ¬ (d :: name <+: integerText n ++ r) := by
    intro d name hminus hdigit hprefix
    rw [hct, List.cons_append] at hprefix
    have hdc := (List.cons_prefix_cons.mp hprefix).1
    rcases hc with hc | hc
    · exact hminus (hdc.trans hc)
    · rw [hdc, hc] at hdigit
      cases hdigit
  have hint : integer n r = some (numberInteger n, r) := if_pos ⟨hlo, hhi⟩
  have hnull : ¬ str "null" <+: integerText n ++ r := hname 0x6E _ (by decide) (by decide)
  have htrue : ¬ str "true" <+: integerText n ++ r := hname 0x74 _ (by decide) (by decide)
  have hfalse : ¬ str "false" <+: integerText n ++ r := hname 0x66 _ (by decide) (by decide)
  rw [readScalar, if_neg hnull, if_neg htrue, if_neg hfalse]
  rw [integerText] at hct ⊢
  by_cases hn : n < 0
  · rw [if_pos hn, List.cons_append, if_pos List.head?_cons, List.tail_cons,
      readNat_decimal _ hr, Option.bind_some]
    show integer (-(n.natAbs : ℤ)) r = _
    rw [show -(n.natAbs : ℤ) = n by omega]
    exact hint
  · rw [if_neg hn] at hct ⊢
    have hminus : (decimal n.natAbs ++ r).head? ≠ some 0x2D := by
      have hdigit : isDigit c = true := isDigit_of_mem_decimal (hct ▸ List.mem_cons_self)
      rw [hct, List.cons_append, List.head?_cons]
      intro h
      rw [Option.some_inj.mp h] at hdigit
      exact absurd hdigit (by decide)
    rw [if_neg hminus, readNat_decimal _ hr, Option.bind_some]
    show integer (n.natAbs : ℤ) r = _
    rw [show (n.natAbs : ℤ) = n by omega]
    exact hint

/-! ### Values -/

theorem token_cons {c : UInt8} (h : isSpace c = false) (r : Bytes) :
    token (c :: r) = some (c, r) := by
  rw [token, List.dropWhile_cons_of_neg (by simp [h])]

/-- The first byte of a text is neither white space nor a closing bracket. -/
theorem head_text (v : Json) :
    ∃ c t, v.text = c :: t ∧ isSpace c = false ∧ c ≠ 0x5D := by
  cases v with
  | null => exact ⟨0x6E, _, rfl, by decide, by decide⟩
  | boolean b =>
    cases b with
    | false => exact ⟨0x66, _, rfl, by decide, by decide⟩
    | true => exact ⟨0x74, _, rfl, by decide, by decide⟩
  | numberInteger n =>
    obtain ⟨c, t, hct, hc⟩ := head_integerText n
    refine ⟨c, t, by rw [text, hct], ?_⟩
    rcases hc with rfl | hc
    · exact ⟨by decide, by decide⟩
    · simp only [isDigit, Bytes.inRange, Bool.and_eq_true, decide_eq_true_eq,
        UInt8.le_iff_toNat_le] at hc
      have hlo : 48 ≤ c.toNat := hc.1
      have hhi : c.toNat ≤ 57 := hc.2
      constructor
      · simp only [isSpace, Bool.or_eq_false_iff, decide_eq_false_iff_not, ← UInt8.toNat_inj]
        show ((¬ c.toNat = 32 ∧ ¬ c.toNat = 9) ∧ ¬ c.toNat = 10) ∧ ¬ c.toNat = 13
        omega
      · rw [Ne, ← UInt8.toNat_inj]
        show ¬ c.toNat = 93
        omega
  | numberFloat q => exact ⟨0x6E, _, rfl, by decide, by decide⟩
  | string s => exact ⟨0x22, _, by rw [text], by decide, by decide⟩
  | array l => exact ⟨0x5B, _, by rw [text], by decide, by decide⟩
  | object fields => exact ⟨0x7B, _, by rw [text], by decide, by decide⟩

/-- `v` is read back from its text. -/
def ReadBack (v : Json) : Prop :=
  ∀ fuel r, v.text.length ≤ fuel → Ends r → readValue fuel (v.text ++ r) = some (v, r)

theorem readElements_text {l : List Json} (hl : ∀ v ∈ l, v.ReadBack) (hne : l ≠ []) :
    ∀ fuel r, (elementsText l).length ≤ fuel →
      readElements fuel (elementsText l ++ r) = some (l, r) := by
  induction l with
  | nil => exact absurd rfl hne
  | cons v l ih =>
    intro fuel r hfuel
    have hv : v.ReadBack := hl v List.mem_cons_self
    cases l with
    | nil =>
      rw [elementsText, List.length_append, List.length_singleton] at hfuel
      obtain ⟨fuel, rfl⟩ : ∃ k, fuel = k + 1 := ⟨fuel - 1, by omega⟩
      rw [elementsText, List.append_assoc, List.singleton_append, readElements,
        hv fuel _ (by omega) (ends_cons r (by decide))]
      rfl
    | cons w l =>
      rw [elementsText, List.length_append, List.length_cons] at hfuel
      obtain ⟨fuel, rfl⟩ : ∃ k, fuel = k + 1 := ⟨fuel - 1, by omega⟩
      rw [elementsText, List.append_assoc, List.cons_append, readElements,
        hv fuel _ (by omega) (ends_cons _ (by decide))]
      have hrest := ih (fun u hu => hl u (List.mem_cons_of_mem v hu)) (by simp) fuel r (by omega)
      simp only [Option.bind_eq_bind, Option.bind_some,
        token_cons (show isSpace 0x2C = false by decide), if_true, hrest]
      rfl

theorem readMembers_text {l : List (Bytes × Json)} (hkeys : ∀ f ∈ l, Bytes.utf8 f.1 = true)
    (hl : ∀ f ∈ l, ReadBack f.2) (hne : l ≠ []) :
    ∀ fuel r, (membersText l).length ≤ fuel →
      readMembers fuel (membersText l ++ r) = some (l, r) := by
  induction l with
  | nil => exact absurd rfl hne
  | cons f l ih =>
    intro fuel r hfuel
    obtain ⟨k, v⟩ := f
    have hv : v.ReadBack := hl (k, v) List.mem_cons_self
    have hk : k.utf8 = true := hkeys (k, v) List.mem_cons_self
    cases l with
    | nil =>
      simp only [membersText, List.length_append, List.length_cons, List.length_nil] at hfuel
      obtain ⟨fuel, rfl⟩ : ∃ k, fuel = k + 1 := ⟨fuel - 1, by omega⟩
      simp only [membersText, List.append_assoc, List.cons_append, List.nil_append, readMembers,
        token_cons (show isSpace 0x22 = false by decide), readString_stringTail hk,
        token_cons (show isSpace 0x3A = false by decide), Option.bind_eq_bind, Option.bind_some,
        if_true, hv fuel _ (by omega) (ends_cons r (c := 0x7D) (by decide)),
        token_cons (show isSpace 0x7D = false by decide)]
      rfl
    | cons g l =>
      simp only [membersText, List.length_append, List.length_cons] at hfuel
      obtain ⟨fuel, rfl⟩ : ∃ k, fuel = k + 1 := ⟨fuel - 1, by omega⟩
      have hrest := ih (fun u hu => hkeys u (List.mem_cons_of_mem _ hu))
        (fun u hu => hl u (List.mem_cons_of_mem _ hu)) (by simp) fuel r (by omega)
      simp only [membersText, List.append_assoc, List.cons_append, readMembers,
        token_cons (show isSpace 0x22 = false by decide), readString_stringTail hk,
        token_cons (show isSpace 0x3A = false by decide), Option.bind_eq_bind, Option.bind_some,
        if_true, hv fuel _ (by omega) (ends_cons _ (c := 0x2C) (by decide)),
        token_cons (show isSpace 0x2C = false by decide), hrest]
      rfl

/-- Fields already in key order are taken as they are. -/
theorem ofFields_sorted {fields : List (Bytes × Json)} (h : SortedKeys fields) :
    ofFields fields = object fields := by
  -- a key behind all others is added at the end
  have hlast : ∀ (front : List (Bytes × Json)) (k : Bytes) (v : Json),
      (∀ f ∈ front, Bytes.lt f.1 k = true) → setField k v front = front ++ [(k, v)] := by
    intro front
    induction front with
    | nil => exact fun k v _ => rfl
    | cons g front ih =>
      intro k v hfront
      have hlt : Bytes.lt g.1 k = true := hfront g List.mem_cons_self
      have hne : ¬ k = g.1 := by
        rintro rfl
        rw [Bytes.lt_irrefl] at hlt
        cases hlt
      have hnot : ¬ Bytes.lt k g.1 = true := fun hgt => by
        have := Bytes.lt_trans hlt hgt
        rw [Bytes.lt_irrefl] at this
        cases this
      rw [setField, if_neg hne, if_neg hnot,
        ih k v fun f hf => hfront f (List.mem_cons_of_mem g hf)]
      rfl
  -- so the fields are added in the order they come
  have hfold : ∀ (rest front : List (Bytes × Json)), SortedKeys (front ++ rest) →
      rest.foldl (fun fields a => setField a.1 a.2 fields) front = front ++ rest := by
    intro rest
    induction rest with
    | nil => exact fun front _ => (List.append_nil front).symm
    | cons f rest ih =>
      intro front hsorted
      have hf := (List.pairwise_append.mp hsorted).2.2
      rw [List.foldl_cons, hlast front f.1 f.2 fun g hg => hf g hg f List.mem_cons_self,
        ih _ (by rw [List.append_assoc]; exact hsorted), List.append_assoc]
      rfl
  rw [ofFields, hfold fields [] h]
  rfl

theorem readBack_integer {n : ℤ} (hlo : -2 ^ 63 ≤ n) (hhi : n < 2 ^ 64) :
    (numberInteger n).ReadBack := by
  intro fuel r hfuel hr
  obtain ⟨c, t, hct, hspace, -⟩ := head_text (numberInteger n)
  obtain ⟨c', t', hct', hc⟩ := head_integerText n
  have hc' : c ≠ 0x22 ∧ c ≠ 0x5B ∧ c ≠ 0x7B := by
    rw [text, hct'] at hct
    obtain ⟨rfl, -⟩ := List.cons.inj hct
    rcases hc with rfl | hc
    · decide
    · refine ⟨?_, ?_, ?_⟩
      · rintro rfl
        exact absurd hc (by decide)
      · rintro rfl
        exact absurd hc (by decide)
      · rintro rfl
        exact absurd hc (by decide)
  obtain ⟨fuel, rfl⟩ : ∃ k, fuel = k + 1 := ⟨fuel - 1, by rw [hct] at hfuel; simp at hfuel; omega⟩
  have hscalar := readScalar_integer hlo hhi hr
  rw [← text, hct] at hscalar
  rw [hct, List.cons_append, readValue, token_cons hspace]
  simp only [Option.bind_eq_bind, Option.bind_some, if_neg hc'.1, if_neg hc'.2.1, if_neg hc'.2.2]
  exact hscalar

theorem readBack_array {l : List Json} (ih : ∀ v ∈ l, v.ReadBack) : (array l).ReadBack := by
  intro fuel r hfuel hr
  rw [text, List.length_cons] at hfuel
  obtain ⟨fuel, rfl⟩ : ∃ k, fuel = k + 1 := ⟨fuel - 1, by omega⟩
  cases l with
  | nil => rfl
  | cons v l =>
    have hread := readElements_text ih (by simp) fuel r (by omega)
    have hhead : ∃ c t, elementsText (v :: l) = c :: t ∧ isSpace c = false ∧ c ≠ 0x5D := by
      obtain ⟨c, t, hct, hc⟩ := head_text v
      cases l with
      | nil => exact ⟨c, _, by rw [elementsText, hct]; rfl, hc⟩
      | cons w l => exact ⟨c, _, by rw [elementsText, hct]; rfl, hc⟩
    obtain ⟨c, t, hct, hspace, hc⟩ := hhead
    rw [text, List.cons_append, readValue, token_cons (by decide)]
    rw [hct, List.cons_append] at hread ⊢
    simp only [Option.bind_eq_bind, Option.bind_some,
      if_neg (show ¬ (0x5B : UInt8) = 0x22 by decide), if_true, token_cons hspace, if_neg hc,
      hread]
    rfl

theorem readBack_object {fields : List (Bytes × Json)} (hsorted : SortedKeys fields)
    (hkeys : ∀ f ∈ fields, Bytes.utf8 f.1 = true) (ih : ∀ f ∈ fields, f.2.ReadBack) :
    (object fields).ReadBack := by
  intro fuel r hfuel hr
  rw [text, List.length_cons] at hfuel
  obtain ⟨fuel, rfl⟩ : ∃ k, fuel = k + 1 := ⟨fuel - 1, by omega⟩
  cases fields with
  | nil => rfl
  | cons f fields =>
    have hread := readMembers_text hkeys ih (by simp) fuel r (by omega)
    have hhead : ∃ t, membersText (f :: fields) = 0x22 :: t := by
      cases fields with
      | nil => exact ⟨_, by rw [membersText]; rfl⟩
      | cons g fields => exact ⟨_, by rw [membersText]; rfl⟩
    obtain ⟨t, hct⟩ := hhead
    rw [text, List.cons_append, readValue, token_cons (by decide)]
    rw [hct, List.cons_append] at hread ⊢
    simp only [Option.bind_eq_bind, Option.bind_some,
      if_neg (show ¬ (0x7B : UInt8) = 0x22 by decide),
      if_neg (show ¬ (0x7B : UInt8) = 0x5B by decide), if_true,
      token_cons (show isSpace 0x22 = false by decide),
      if_neg (show ¬ (0x22 : UInt8) = 0x7D by decide), hread, Option.map_some,
      ofFields_sorted hsorted]

theorem readValue_text {v : Json} (hv : v.Valid fun _ => False) : v.ReadBack := by
  induction hv with
  | null =>
    intro fuel r hfuel hr
    obtain ⟨fuel, rfl⟩ : ∃ k, fuel = k + 1 := ⟨fuel - 1, by simp [text, str] at hfuel; omega⟩
    rfl
  | boolean b =>
    intro fuel r hfuel hr
    obtain ⟨fuel, rfl⟩ : ∃ k, fuel = k + 1 :=
      ⟨fuel - 1, by cases b <;> simp [text, str] at hfuel <;> omega⟩
    cases b with
    | false => rfl
    | true => rfl
  | numberInteger hlo hhi => exact readBack_integer hlo hhi
  | numberFloat h => exact h.elim
  | @string s hs =>
    intro fuel r hfuel hr
    rw [text, List.length_cons] at hfuel
    obtain ⟨fuel, rfl⟩ : ∃ k, fuel = k + 1 := ⟨fuel - 1, by omega⟩
    rw [text, List.cons_append, readValue, token_cons (by decide)]
    simp only [Option.bind_eq_bind, Option.bind_some, if_true, readString_stringTail hs]
    rfl
  | array _ ih => exact readBack_array ih
  | object hsorted hkeys _ ih => exact readBack_object hsorted hkeys ih

/-! ### What is read can be held -/

theorem utf8_of_readString {t : Bytes} {s : Bytes × Bytes} (h : readString t = some s) :
    s.1.utf8 = true :=
  (Option.filter_eq_some_iff.mp h).2

theorem valid_of_integer {n : ℤ} {r : Bytes} {v : Json × Bytes} (h : integer n r = some v) :
    v.1.Valid fun _ => False := by
  rw [integer] at h
  by_cases hn : -2 ^ 63 ≤ n ∧ n < 2 ^ 64
  · rw [if_pos hn, Option.some_inj] at h
    rw [← h]
    exact Valid.numberInteger hn.1 hn.2
  · rw [if_neg hn] at h
    cases h

theorem valid_of_readScalar {t : Bytes} {v : Json × Bytes} (h : readScalar t = some v) :
    v.1.Valid fun _ => False := by
  rw [readScalar] at h
  by_cases hnull : str "null" <+: t
  · rw [if_pos hnull, Option.some_inj] at h
    rw [← h]
    exact Valid.null
  by_cases htrue : str "true" <+: t
  · rw [if_neg hnull, if_pos htrue, Option.some_inj] at h
    rw [← h]
    exact Valid.boolean true
  by_cases hfalse : str "false" <+: t
  · rw [if_neg hnull, if_neg htrue, if_pos hfalse, Option.some_inj] at h
    rw [← h]
    exact Valid.boolean false
  rw [if_neg hnull, if_neg htrue, if_neg hfalse] at h
  by_cases hminus : t.head? = some 0x2D
  · rw [if_pos hminus, Option.bind_eq_some_iff] at h
    obtain ⟨n, -, h⟩ := h
    exact valid_of_integer h
  · rw [if_neg hminus, Option.bind_eq_some_iff] at h
    obtain ⟨n, -, h⟩ := h
    exact valid_of_integer h

/-- What is read with this fuel is a value that can be held. -/
structure ReadsValid (fuel : ℕ) : Prop where
  value : ∀ t v, readValue fuel t = some v → v.1.Valid fun _ => False
  elements : ∀ t l, readElements fuel t = some l → ∀ v ∈ l.1, v.Valid fun _ => False
  members : ∀ t l, readMembers fuel t = some l →
    ∀ f ∈ l.1, Bytes.utf8 f.1 = true ∧ f.2.Valid fun _ => False

namespace ReadsValid

variable {fuel : ℕ} {t : Bytes}

theorem of_readValue (h : ReadsValid fuel) {v : Json × Bytes}
    (hread : readValue (fuel + 1) t = some v) : v.1.Valid fun _ => False := by
  simp only [readValue, Option.bind_eq_bind, Option.bind_eq_some_iff] at hread
  obtain ⟨⟨c, r⟩, -, hread⟩ := hread
  simp only at hread
  by_cases hquote : c = 0x22
  · rw [if_pos hquote, Option.map_eq_some_iff] at hread
    obtain ⟨s, hs, rfl⟩ := hread
    exact Valid.string (utf8_of_readString hs)
  by_cases hbracket : c = 0x5B
  · rw [if_neg hquote, if_pos hbracket, Option.bind_eq_some_iff] at hread
    obtain ⟨⟨d, r'⟩, -, hread⟩ := hread
    simp only at hread
    by_cases hclose : d = 0x5D
    · rw [if_pos hclose] at hread
      cases hread
      exact Valid.array (by simp)
    · rw [if_neg hclose, Option.map_eq_some_iff] at hread
      obtain ⟨l, hl, rfl⟩ := hread
      exact Valid.array (h.elements r l hl)
  by_cases hbrace : c = 0x7B
  · rw [if_neg hquote, if_neg hbracket, if_pos hbrace, Option.bind_eq_some_iff] at hread
    obtain ⟨⟨d, r'⟩, -, hread⟩ := hread
    simp only at hread
    by_cases hclose : d = 0x7D
    · rw [if_pos hclose] at hread
      cases hread
      exact Valid.object List.Pairwise.nil (by simp) (by simp)
    · rw [if_neg hclose, Option.map_eq_some_iff] at hread
      obtain ⟨m, hm, rfl⟩ := hread
      have hfields := h.members r m hm
      exact Valid.ofFields (fun f hf => (hfields f hf).1) fun f hf => (hfields f hf).2
  rw [if_neg hquote, if_neg hbracket, if_neg hbrace] at hread
  exact valid_of_readScalar hread

theorem of_readElements (h : ReadsValid fuel) {l : List Json × Bytes}
    (hread : readElements (fuel + 1) t = some l) : ∀ v ∈ l.1, v.Valid fun _ => False := by
  simp only [readElements, Option.bind_eq_bind, Option.bind_eq_some_iff] at hread
  obtain ⟨⟨v, r⟩, hv, ⟨d, r'⟩, -, hread⟩ := hread
  have hvalid : v.Valid fun _ => False := h.value t (v, r) hv
  simp only at hread
  by_cases hcomma : d = 0x2C
  · rw [if_pos hcomma, Option.map_eq_some_iff] at hread
    obtain ⟨l', hl', rfl⟩ := hread
    exact List.forall_mem_cons.mpr ⟨hvalid, h.elements r' l' hl'⟩
  by_cases hclose : d = 0x5D
  · rw [if_neg hcomma, if_pos hclose] at hread
    cases hread
    exact List.forall_mem_singleton.mpr hvalid
  · rw [if_neg hcomma, if_neg hclose] at hread
    cases hread

theorem of_readMembers (h : ReadsValid fuel) {l : List (Bytes × Json) × Bytes}
    (hread : readMembers (fuel + 1) t = some l) :
    ∀ f ∈ l.1, Bytes.utf8 f.1 = true ∧ f.2.Valid fun _ => False := by
  simp only [readMembers, Option.bind_eq_bind, Option.bind_eq_some_iff] at hread
  obtain ⟨⟨c, r⟩, -, hread⟩ := hread
  simp only at hread
  by_cases hquote : c = 0x22
  · rw [if_pos hquote] at hread
    simp only [Option.bind_eq_some_iff] at hread
    obtain ⟨⟨k, r₁⟩, hk, ⟨d, r₂⟩, -, hread⟩ := hread
    have hkey : k.utf8 = true := utf8_of_readString hk
    simp only at hread
    by_cases hcolon : d = 0x3A
    · rw [if_pos hcolon] at hread
      simp only [Option.bind_eq_some_iff] at hread
      obtain ⟨⟨v, r₃⟩, hv, ⟨e, r₄⟩, -, hread⟩ := hread
      have hvalid : v.Valid fun _ => False := h.value r₂ (v, r₃) hv
      simp only at hread
      by_cases hcomma : e = 0x2C
      · rw [if_pos hcomma, Option.map_eq_some_iff] at hread
        obtain ⟨l', hl', rfl⟩ := hread
        exact List.forall_mem_cons.mpr ⟨⟨hkey, hvalid⟩, h.members r₄ l' hl'⟩
      by_cases hclose : e = 0x7D
      · rw [if_neg hcomma, if_pos hclose] at hread
        cases hread
        exact List.forall_mem_singleton.mpr ⟨hkey, hvalid⟩
      · rw [if_neg hcomma, if_neg hclose] at hread
        cases hread
    · rw [if_neg hcolon] at hread
      cases hread
  · rw [if_neg hquote] at hread
    cases hread

end ReadsValid

theorem readsValid (fuel : ℕ) : ReadsValid fuel := by
  induction fuel with
  | zero =>
    refine ⟨fun t v h => ?_, fun t l h => ?_, fun t l h => ?_⟩
    · rw [readValue] at h
      cases h
    · rw [readElements] at h
      cases h
    · rw [readMembers] at h
      cases h
  | succ fuel ih =>
    exact ⟨fun t v => ih.of_readValue, fun t l => ih.of_readElements, fun t l => ih.of_readMembers⟩

/-! ### What can be held is written -/

theorem elementsWritable_iff (l : List Json) :
    elementsWritable l = true ↔ ∀ v ∈ l, v.writable = true := by
  induction l with
  | nil => simp [elementsWritable]
  | cons v l ih => simp [elementsWritable, ih]

theorem membersWritable_iff (l : List (Bytes × Json)) :
    membersWritable l = true ↔ ∀ f ∈ l, Bytes.utf8 f.1 = true ∧ f.2.writable = true := by
  induction l with
  | nil => simp [membersWritable]
  | cons f l ih =>
    obtain ⟨k, v⟩ := f
    simp [membersWritable, ih, and_assoc]

theorem writable_of_valid {double : ℚ → Prop} {v : Json} (hv : v.Valid double) :
    v.writable = true := by
  induction hv with
  | null | boolean | numberInteger | numberFloat => rfl
  | string h => exact h
  | array _ ih =>
    rw [writable]
    exact (elementsWritable_iff _).mpr ih
  | object _ hkeys _ ih =>
    rw [writable]
    exact (membersWritable_iff _).mpr fun f hf => ⟨hkeys f hf, ih f hf⟩

end Json

namespace Nlohmann

theorem dump_integral {v : Json} {t : Bytes} :
    integral.dump v = .ok t ↔ v.writable = true ∧ v.text = t := by
  show (if v.writable then Except.ok v.text else _) = _ ↔ _
  by_cases h : v.writable = true
  · rw [if_pos h, Except.ok.injEq]
    exact ⟨fun heq => ⟨h, heq⟩, fun heq => heq.2⟩
  · rw [if_neg h]
    exact ⟨fun heq => (by cases heq), fun heq => absurd heq.1 h⟩

theorem parse_integral {t : Bytes} {v : Json} :
    integral.parse t = .ok v ↔
      ∃ r, Json.readValue t.length t = some (v, r) ∧ r.dropWhile Json.isSpace = [] := by
  simp only [integral]
  cases Json.readValue t.length t with
  | none => simp
  | some read =>
    obtain ⟨w, r⟩ := read
    by_cases h : r.dropWhile Json.isSpace = []
    · simp only [if_pos h, Except.ok.injEq, Option.some.injEq, Prod.mk.injEq]
      constructor
      · rintro rfl
        exact ⟨r, ⟨rfl, rfl⟩, h⟩
      · rintro ⟨r', ⟨rfl, -⟩, -⟩
        rfl
    · simp only [if_neg h, Option.some.injEq, Prod.mk.injEq]
      constructor
      · intro herror
        cases herror
      · rintro ⟨r', ⟨-, rfl⟩, hspace⟩
        exact absurd hspace h

/-- **The library without doubles keeps the library's laws.** -/
theorem lawful_integral : integral.Lawful where
  parse_valid := by
    intro t v h
    obtain ⟨r, hread, -⟩ := parse_integral.mp h
    exact (Json.readsValid t.length).value t (v, r) hread
  dump_valid hv := ⟨_, dump_integral.mpr ⟨Json.writable_of_valid hv, rfl⟩⟩
  dump_utf8 := by
    intro fields t key s h hmem
    have hwritable := (dump_integral.mp h).1
    rw [Json.writable, Json.membersWritable_iff] at hwritable
    exact (hwritable (key, .string s) hmem).2
  parse_dump := by
    intro v t hv h
    obtain ⟨-, rfl⟩ := dump_integral.mp h
    refine parse_integral.mpr ⟨[], ?_, rfl⟩
    have hread := Json.readValue_text hv v.text.length [] (le_refl _) Json.ends_nil
    rwa [List.append_nil] at hread

/-! ### Plain texts -/

/-- An ASCII character that is written as it is. -/
def plain (b : UInt8) : Bool := 0x20 ≤ b && b < 0x7F && b != 0x22 && b != 0x5C

/-- `dump` writes an object that holds one plain string without any white space. -/
def WritesPlain (json : Nlohmann) : Prop :=
  ∀ key text : Bytes, (∀ b ∈ key, plain b = true) → (∀ b ∈ text, plain b = true) →
    json.dump (.object [(key, .string text)]) =
      .ok (str "\x7b\"" ++ key ++ str "\":\"" ++ text ++ str "\"\x7d")

theorem plain_iff {b : UInt8} :
    plain b = true ↔ 0x20 ≤ b ∧ b < 0x7F ∧ b ≠ 0x22 ∧ b ≠ 0x5C := by
  simp [plain, and_assoc]

theorem escape_plain {b : UInt8} (h : plain b = true) : Json.escape b = [b] := by
  obtain ⟨hlow, -, hquote, hbackslash⟩ := plain_iff.mp h
  -- the control characters are below the blank
  have hne : ∀ c : UInt8, c < 0x20 → b ≠ c := by
    rintro c hc rfl
    exact absurd hc (UInt8.not_lt.mpr hlow)
  rw [Json.escape, if_neg hquote, if_neg hbackslash, if_neg (hne _ (by decide)),
    if_neg (hne _ (by decide)), if_neg (hne _ (by decide)), if_neg (hne _ (by decide)),
    if_neg (hne _ (by decide)), if_neg (UInt8.not_lt.mpr hlow)]

theorem stringTail_plain {s : Bytes} (h : ∀ b ∈ s, plain b = true) :
    Json.stringTail s = s ++ [0x22] := by
  have hall : s.flatMap Json.escape = s := by
    induction s with
    | nil => rfl
    | cons b s ih =>
      rw [List.flatMap_cons, escape_plain (h b List.mem_cons_self),
        ih fun c hc => h c (List.mem_cons_of_mem b hc)]
      rfl
  rw [Json.stringTail, hall]

theorem writesPlain_integral : integral.WritesPlain := by
  intro key text hkey htext
  have hascii : ∀ b : UInt8, plain b = true → b < 0x80 := by
    intro b hb
    exact UInt8.lt_trans (plain_iff.mp hb).2.1 (by decide)
  refine dump_integral.mpr ⟨?_, ?_⟩
  · rw [Json.writable, Json.membersWritable_iff, List.forall_mem_singleton]
    exact ⟨Bytes.utf8_of_ascii fun b hb => hascii b (hkey b hb),
      Bytes.utf8_of_ascii fun b hb => hascii b (htext b hb)⟩
  · rw [Json.text, Json.membersText, Json.text, stringTail_plain hkey, stringTail_plain htext]
    simp [str]

end Nlohmann

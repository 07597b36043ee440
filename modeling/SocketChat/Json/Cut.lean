/-
A text that is cut off.

An object ends with its closing brace, so no proper prefix of an object's text is read as
a value: `rejectsCut_integral` shows it of the library without doubles.  What is read in
front of more text is read in front of any text (`readValue_append`), and the whole text
is already read to its end.
-/
import SocketChat.Json.RoundTrip

/-- `parse` throws on the text of an object that has been cut off. -/
def Nlohmann.RejectsCut (json : Nlohmann) : Prop :=
  ∀ fields t n, (Json.object fields).Valid json.double → json.dump (.object fields) = .ok t →
    n < t.length → ∃ e, json.parse (t.take n) = .error e

namespace Json

/-! ### Reading with more text behind -/

theorem token_append {t r : Bytes} {c : UInt8} (h : token t = some (c, r)) (x : Bytes) :
    token (t ++ x) = some (c, r ++ x) := by
  rw [token] at h ⊢
  rw [List.dropWhile_append]
  cases hdrop : t.dropWhile isSpace with
  | nil =>
    rw [hdrop] at h
    cases h
  | cons d r' =>
    rw [hdrop] at h
    cases h
    rfl

/-- A string that is read ends with its closing quotation mark. -/
theorem scanString_append {t : Bytes} {s : Bytes × Bytes} (h : scanString t = some s)
    (x : Bytes) : scanString (t ++ x) = some (s.1, s.2 ++ x) := by
  -- a character in front of a string that is read
  have hcons : ∀ {u : Bytes} {d : UInt8} {s : Bytes × Bytes},
      (∀ {s}, scanString u = some s → scanString (u ++ x) = some (s.1, s.2 ++ x)) →
      (scanString u).map (fun s => (d :: s.1, s.2)) = some s →
      (scanString (u ++ x)).map (fun s => (d :: s.1, s.2)) = some (s.1, s.2 ++ x) := by
    intro u d s ih hs
    obtain ⟨s', hs', rfl⟩ := Option.map_eq_some_iff.mp hs
    rw [ih hs']
    rfl
  induction t using scanString.induct generalizing s with
  | case1 =>
    rw [scanString] at h
    cases h
  | case2 t =>
    rw [scanString.eq_def] at h ⊢
    simp only [List.cons_append, if_true, Option.some_inj] at h ⊢
    rw [← h]
  | case3 =>
    rw [scanString.eq_def] at h
    cases h
  | case4 h₁ h₂ h₃ h₄ t hne ih =>
    rw [scanString.eq_def] at h ⊢
    simp only [List.cons_append, if_neg hne, if_true, Option.bind_eq_some_iff] at h ⊢
    obtain ⟨d, hd, h⟩ := h
    exact ⟨d, hd, hcons ih h⟩
  | case5 r hshort hne =>
    rw [scanString.eq_def] at h
    simp only [if_neg hne, if_true] at h
    cases r with
    | nil => cases h
    | cons h₁ r =>
      cases r with
      | nil => cases h
      | cons h₂ r =>
        cases r with
        | nil => cases h
        | cons h₃ r =>
          cases r with
          | nil => cases h
          | cons h₄ r => exact absurd rfl (hshort h₁ h₂ h₃ h₄ r)
  | case6 c r hc hne ih =>
    rw [scanString.eq_def] at h ⊢
    simp only [List.cons_append, if_neg hne, if_neg hc, if_true, Option.bind_eq_some_iff] at h ⊢
    obtain ⟨d, hd, h⟩ := h
    exact ⟨d, hd, hcons ih h⟩
  | case7 b t hquote hslash hlow =>
    rw [scanString.eq_def] at h
    simp only [if_neg hquote, if_neg hslash, if_pos hlow] at h
    cases h
  | case8 b t hquote hslash hlow ih =>
    rw [scanString.eq_def] at h ⊢
    simp only [List.cons_append, if_neg hquote, if_neg hslash, if_neg hlow] at h ⊢
    exact hcons ih h

theorem readString_append {t : Bytes} {s : Bytes × Bytes} (h : readString t = some s)
    (x : Bytes) : readString (t ++ x) = some (s.1, s.2 ++ x) := by
  obtain ⟨hscan, hutf8⟩ := Option.filter_eq_some_iff.mp h
  exact Option.filter_eq_some_iff.mpr ⟨scanString_append hscan x, hutf8⟩

/-- A number with something behind it. -/
theorem readNat_append {t : Bytes} {n : ℕ} {r : Bytes} (h : readNat t = some (n, r))
    (hr : r ≠ []) (x : Bytes) : readNat (t ++ x) = some (n, r ++ x) := by
  rw [readNat] at h
  by_cases hnumber : t.takeWhile isDigit = decimal (ofDecimal (t.takeWhile isDigit)) ∧
      (t.dropWhile isDigit).head? ∉ [some 0x2E, some 0x65, some 0x45]
  · rw [if_pos hnumber, Option.some_inj, Prod.mk.injEq] at h
    obtain ⟨rfl, rfl⟩ := h
    obtain ⟨hdigits, hhead⟩ := hnumber
    have hdrop : (t ++ x).dropWhile isDigit = t.dropWhile isDigit ++ x := by
      rw [List.dropWhile_append, if_neg (by simpa using hr)]
    have htake : (t ++ x).takeWhile isDigit = t.takeWhile isDigit := by
      have hwhole : (t ++ x).takeWhile isDigit ++ (t.dropWhile isDigit ++ x) =
          t.takeWhile isDigit ++ (t.dropWhile isDigit ++ x) := by
        rw [← hdrop, List.takeWhile_append_dropWhile, hdrop, ← List.append_assoc,
          List.takeWhile_append_dropWhile]
      exact List.append_cancel_right hwhole
    rw [readNat]
    simp only [htake, hdrop]
    rw [List.head?_append_of_ne_nil _ hr, if_pos ⟨hdigits, hhead⟩]
  · rw [if_neg hnumber] at h
    cases h

/-- A number starts with a digit. -/
theorem readNat_cons {t : Bytes} {n : ℕ} {r : Bytes} (h : readNat t = some (n, r)) :
    ∃ c t', t = c :: t' ∧ isDigit c = true := by
  rw [readNat] at h
  by_cases hnumber : t.takeWhile isDigit = decimal (ofDecimal (t.takeWhile isDigit)) ∧
      (t.dropWhile isDigit).head? ∉ [some 0x2E, some 0x65, some 0x45]
  · cases t with
    | nil => exact absurd hnumber.1.symm (decimal_ne_nil _)
    | cons c t =>
      refine ⟨c, t, rfl, ?_⟩
      by_contra hc
      rw [List.takeWhile_cons_of_neg hc] at hnumber
      exact absurd hnumber.1.symm (decimal_ne_nil _)
  · rw [if_neg hnumber] at h
    cases h

theorem readScalar_append {t : Bytes} {v : Json} {r : Bytes} (h : readScalar t = some (v, r))
    (hr : r ≠ []) (x : Bytes) : readScalar (t ++ x) = some (v, r ++ x) := by
  -- a name at the front is still there, and what is behind it has more behind
  have hname : ∀ {name : Bytes}, name <+: t → name <+: t ++ x ∧
      (t ++ x).drop name.length = t.drop name.length ++ x := by
    rintro name ⟨u, rfl⟩
    refine ⟨⟨u ++ x, by rw [List.append_assoc]⟩, ?_⟩
    rw [List.append_assoc, List.drop_left, List.drop_left]
  -- a text does not start with a name whose first letter is another
  have hother : ∀ (name : Bytes) {c d : UInt8}, t.head? = some c → name.head? = some d →
      d ≠ c → ¬ (name <+: t ++ x) := by
    rintro name c d hc hd hne ⟨u, hu⟩
    have hhead : (name ++ u).head? = (t ++ x).head? := congrArg List.head? hu
    rw [List.head?_append, hd, List.head?_append, hc, Option.some_or, Option.some_or,
      Option.some_inj] at hhead
    exact hne hhead
  rw [readScalar] at h
  by_cases hnull : str "null" <+: t
  · rw [if_pos hnull, Option.some_inj, Prod.mk.injEq] at h
    obtain ⟨rfl, rfl⟩ := h
    obtain ⟨hstart, hdrop⟩ := hname hnull
    rw [readScalar, if_pos hstart]
    exact congrArg (fun r => some (null, r)) hdrop
  by_cases htrue : str "true" <+: t
  · rw [if_neg hnull, if_pos htrue, Option.some_inj, Prod.mk.injEq] at h
    obtain ⟨rfl, rfl⟩ := h
    obtain ⟨hstart, hdrop⟩ := hname htrue
    obtain ⟨u, rfl⟩ := htrue
    rw [readScalar, if_neg (hother (str "null") rfl rfl (by decide)), if_pos hstart]
    exact congrArg (fun r => some (boolean true, r)) hdrop
  by_cases hfalse : str "false" <+: t
  · rw [if_neg hnull, if_neg htrue, if_pos hfalse, Option.some_inj, Prod.mk.injEq] at h
    obtain ⟨rfl, rfl⟩ := h
    obtain ⟨hstart, hdrop⟩ := hname hfalse
    obtain ⟨u, rfl⟩ := hfalse
    rw [readScalar, if_neg (hother (str "null") rfl rfl (by decide)),
      if_neg (hother (str "true") rfl rfl (by decide)), if_pos hstart]
    exact congrArg (fun r => some (boolean false, r)) hdrop
  rw [if_neg hnull, if_neg htrue, if_neg hfalse] at h
  have hinteger : ∀ {n : ℤ} {r' : Bytes}, integer n r' = some (v, r) →
      r' ≠ [] ∧ integer n (r' ++ x) = some (v, r ++ x) := by
    intro n r' hn
    rw [integer] at hn ⊢
    by_cases hfits : -2 ^ 63 ≤ n ∧ n < 2 ^ 64
    · rw [if_pos hfits, Option.some_inj, Prod.mk.injEq] at hn
      obtain ⟨rfl, rfl⟩ := hn
      exact ⟨hr, by rw [if_pos hfits]⟩
    · rw [if_neg hfits] at hn
      cases hn
  by_cases hminus : t.head? = some 0x2D
  · rw [if_pos hminus, Option.bind_eq_some_iff] at h
    obtain ⟨⟨n, r'⟩, hread, hn⟩ := h
    obtain ⟨hne, hn⟩ := hinteger hn
    have htail : (t ++ x).tail = t.tail ++ x := by
      cases t with
      | nil => cases hminus
      | cons b t => rfl
    have hhead : (t ++ x).head? = some 0x2D := by
      rw [List.head?_append, hminus, Option.some_or]
    rw [readScalar, if_neg (hother (str "null") hminus rfl (by decide)),
      if_neg (hother (str "true") hminus rfl (by decide)),
      if_neg (hother (str "false") hminus rfl (by decide)), if_pos hhead, htail,
      readNat_append hread hne, Option.bind_some]
    exact hn
  · rw [if_neg hminus, Option.bind_eq_some_iff] at h
    obtain ⟨⟨n, r'⟩, hread, hn⟩ := h
    obtain ⟨hne, hn⟩ := hinteger hn
    obtain ⟨c, u, rfl, hc⟩ := readNat_cons hread
    have hletter : ∀ d : UInt8, isDigit d = false → d ≠ c := by
      rintro d hd rfl
      rw [hc] at hd
      cases hd
    rw [readScalar, if_neg (hother (str "null") rfl rfl (hletter _ (by decide))),
      if_neg (hother (str "true") rfl rfl (hletter _ (by decide))),
      if_neg (hother (str "false") rfl rfl (hletter _ (by decide))), if_neg (by exact hminus),
      readNat_append hread hne, Option.bind_some]
    exact hn

/-- What the readers make of a text with this fuel, they make of it in front of `x` with as
much or more.  A value must have something behind it already or be an object; lists of
elements and of members carry their own end. -/
structure ReadsInFront (x : Bytes) (fuel : ℕ) : Prop where
  value : ∀ t v r, readValue fuel t = some (v, r) → (r ≠ [] ∨ t.head? = some 0x7B) →
    ∀ fuel', fuel ≤ fuel' → readValue fuel' (t ++ x) = some (v, r ++ x)
  elements : ∀ t l r, readElements fuel t = some (l, r) →
    ∀ fuel', fuel ≤ fuel' → readElements fuel' (t ++ x) = some (l, r ++ x)
  members : ∀ t l r, readMembers fuel t = some (l, r) →
    ∀ fuel', fuel ≤ fuel' → readMembers fuel' (t ++ x) = some (l, r ++ x)

/-- What a token was read from is not empty. -/
theorem ne_nil_of_token {r r' : Bytes} {d : UInt8} (h : token r = some (d, r')) : r ≠ [] := by
  rintro rfl
  cases h

namespace ReadsInFront

variable {x : Bytes} {fuel fuel' : ℕ} {t r : Bytes}

theorem readValue_append (h : ReadsInFront x fuel) {v : Json}
    (hread : readValue (fuel + 1) t = some (v, r)) (hr : r ≠ [] ∨ t.head? = some 0x7B)
    (hfuel : fuel + 1 ≤ fuel') : readValue fuel' (t ++ x) = some (v, r ++ x) := by
  obtain ⟨fuel', rfl⟩ : ∃ k, fuel' = k + 1 := ⟨fuel' - 1, by omega⟩
  have hfuel : fuel ≤ fuel' := by omega
  simp only [readValue, Option.bind_eq_bind, Option.bind_eq_some_iff] at hread ⊢
  obtain ⟨⟨c, r₁⟩, hc, hread⟩ := hread
  refine ⟨(c, r₁ ++ x), token_append hc x, ?_⟩
  simp only at hread ⊢
  by_cases hquote : c = 0x22
  · rw [if_pos hquote, Option.map_eq_some_iff] at hread ⊢
    obtain ⟨s, hs, heq⟩ := hread
    cases heq
    exact ⟨_, readString_append hs x, rfl⟩
  by_cases hbracket : c = 0x5B
  · rw [if_neg hquote, if_pos hbracket, Option.bind_eq_some_iff] at hread ⊢
    obtain ⟨⟨d, r₂⟩, hd, hread⟩ := hread
    refine ⟨(d, r₂ ++ x), token_append hd x, ?_⟩
    simp only at hread ⊢
    by_cases hclose : d = 0x5D
    · rw [if_pos hclose] at hread ⊢
      cases hread
      rfl
    · rw [if_neg hclose, Option.map_eq_some_iff] at hread ⊢
      obtain ⟨⟨l, r₃⟩, hl, heq⟩ := hread
      cases heq
      exact ⟨_, h.elements _ _ _ hl fuel' hfuel, rfl⟩
  by_cases hbrace : c = 0x7B
  · rw [if_neg hquote, if_neg hbracket, if_pos hbrace, Option.bind_eq_some_iff] at hread ⊢
    obtain ⟨⟨d, r₂⟩, hd, hread⟩ := hread
    refine ⟨(d, r₂ ++ x), token_append hd x, ?_⟩
    simp only at hread ⊢
    by_cases hclose : d = 0x7D
    · rw [if_pos hclose] at hread ⊢
      cases hread
      rfl
    · rw [if_neg hclose, Option.map_eq_some_iff] at hread ⊢
      obtain ⟨⟨l, r₃⟩, hl, heq⟩ := hread
      cases heq
      exact ⟨_, h.members _ _ _ hl fuel' hfuel, rfl⟩
  -- a number may go on in what follows, so it must not be at the end
  rw [if_neg hquote, if_neg hbracket, if_neg hbrace] at hread ⊢
  refine readScalar_append hread (hr.resolve_right fun hhead => ?_) x
  cases t with
  | nil => cases hhead
  | cons b t =>
    rw [List.head?_cons, Option.some_inj] at hhead
    rw [hhead, token_cons (by decide), Option.some_inj, Prod.mk.injEq] at hc
    exact hbrace hc.1.symm

theorem readElements_append (h : ReadsInFront x fuel) {l : List Json}
    (hread : readElements (fuel + 1) t = some (l, r)) (hfuel : fuel + 1 ≤ fuel') :
    readElements fuel' (t ++ x) = some (l, r ++ x) := by
  obtain ⟨fuel', rfl⟩ : ∃ k, fuel' = k + 1 := ⟨fuel' - 1, by omega⟩
  have hfuel : fuel ≤ fuel' := by omega
  simp only [readElements, Option.bind_eq_bind, Option.bind_eq_some_iff] at hread ⊢
  obtain ⟨⟨v, r₁⟩, hv, ⟨d, r₂⟩, hd, hread⟩ := hread
  refine ⟨_, h.value _ _ _ hv (Or.inl (ne_nil_of_token hd)) fuel' hfuel, _, token_append hd x, ?_⟩
  simp only at hread ⊢
  by_cases hcomma : d = 0x2C
  · rw [if_pos hcomma, Option.map_eq_some_iff] at hread ⊢
    obtain ⟨⟨l', r₃⟩, hl, heq⟩ := hread
    cases heq
    exact ⟨_, h.elements _ _ _ hl fuel' hfuel, rfl⟩
  by_cases hclose : d = 0x5D
  · rw [if_neg hcomma, if_pos hclose] at hread ⊢
    cases hread
    rfl
  · rw [if_neg hcomma, if_neg hclose] at hread
    cases hread

theorem readMembers_append (h : ReadsInFront x fuel) {l : List (Bytes × Json)}
    (hread : readMembers (fuel + 1) t = some (l, r)) (hfuel : fuel + 1 ≤ fuel') :
    readMembers fuel' (t ++ x) = some (l, r ++ x) := by
  obtain ⟨fuel', rfl⟩ : ∃ k, fuel' = k + 1 := ⟨fuel' - 1, by omega⟩
  have hfuel : fuel ≤ fuel' := by omega
  simp only [readMembers, Option.bind_eq_bind, Option.bind_eq_some_iff] at hread ⊢
  obtain ⟨⟨c, r₁⟩, hc, hread⟩ := hread
  refine ⟨_, token_append hc x, ?_⟩
  simp only at hread ⊢
  by_cases hquote : c = 0x22
  · rw [if_pos hquote] at hread ⊢
    simp only [Option.bind_eq_some_iff] at hread ⊢
    obtain ⟨⟨k, r₂⟩, hk, ⟨d, r₃⟩, hd, hread⟩ := hread
    refine ⟨_, readString_append hk x, _, token_append hd x, ?_⟩
    simp only at hread ⊢
    by_cases hcolon : d = 0x3A
    · rw [if_pos hcolon] at hread ⊢
      simp only [Option.bind_eq_some_iff] at hread ⊢
      obtain ⟨⟨v, r₄⟩, hv, ⟨e, r₅⟩, he, hread⟩ := hread
      refine ⟨_, h.value _ _ _ hv (Or.inl (ne_nil_of_token he)) fuel' hfuel, _,
        token_append he x, ?_⟩
      simp only at hread ⊢
      by_cases hcomma : e = 0x2C
      · rw [if_pos hcomma, Option.map_eq_some_iff] at hread ⊢
        obtain ⟨⟨l', r₆⟩, hl, heq⟩ := hread
        cases heq
        exact ⟨_, h.members _ _ _ hl fuel' hfuel, rfl⟩
      by_cases hclose : e = 0x7D
      · rw [if_neg hcomma, if_pos hclose] at hread ⊢
        cases hread
        rfl
      · rw [if_neg hcomma, if_neg hclose] at hread
        cases hread
    · rw [if_neg hcolon] at hread
      cases hread
  · rw [if_neg hquote] at hread
    cases hread

end ReadsInFront

theorem readsInFront (x : Bytes) (fuel : ℕ) : ReadsInFront x fuel := by
  induction fuel with
  | zero =>
    refine ⟨fun t v r h => ?_, fun t l r h => ?_, fun t l r h => ?_⟩
    · rw [readValue] at h
      cases h
    · rw [readElements] at h
      cases h
    · rw [readMembers] at h
      cases h
  | succ fuel ih =>
    exact ⟨fun t v r h hr fuel' => ih.readValue_append h hr,
      fun t l r h fuel' => ih.readElements_append h, fun t l r h fuel' => ih.readMembers_append h⟩

end Json

/-- **The library without doubles rejects an object that is cut off.** -/
theorem Nlohmann.rejectsCut_integral : Nlohmann.integral.RejectsCut := by
  intro fields t n hvalid hdump hn
  obtain ⟨-, rfl⟩ := dump_integral.mp hdump
  cases hparse : integral.parse ((Json.object fields).text.take n) with
  | error e => exact ⟨e, rfl⟩
  | ok w =>
    obtain ⟨r, hread, -⟩ := parse_integral.mp hparse
    obtain ⟨u, hu⟩ : ∃ u, (Json.object fields).text = 0x7B :: u := ⟨_, by rw [Json.text]⟩
    have hhead : ((Json.object fields).text.take n).head? = some 0x7B := by
      cases n with
      | zero =>
        rw [List.take_zero] at hread
        cases hread
      | succ n =>
        rw [hu]
        rfl
    -- read in front of what was cut off, it would be read from the whole text
    have hwhole := (Json.readsInFront ((Json.object fields).text.drop n) _).value _ _ _ hread
      (Or.inr hhead) (Json.object fields).text.length (List.length_take_le' n _)
    have hread := Json.readValue_text hvalid (Json.object fields).text.length [] (le_refl _)
      Json.ends_nil
    rw [List.append_nil] at hread
    rw [List.take_append_drop, hread, Option.some_inj, Prod.mk.injEq] at hwhole
    have hnone : (Json.object fields).text.drop n = [] :=
      (List.append_eq_nil_iff.mp hwhole.2.symm).2
    rw [List.drop_eq_nil_iff] at hnone
    omega

/-- `parse` throws a `parse_error` on the text of an object that has been cut off. -/
def Nlohmann.ThrowsOnCut (json : Nlohmann) : Prop :=
  ∀ fields t n, (Json.object fields).Valid json.double → json.dump (.object fields) = .ok t →
    n < t.length → ∃ e, json.parse (t.take n) = .error e ∧ e.kind = .parseError

/-- The library without doubles throws nothing else. -/
theorem Nlohmann.throwsOnCut_integral : Nlohmann.integral.ThrowsOnCut := by
  intro fields t n hvalid hdump hn
  obtain ⟨e, herror⟩ := rejectsCut_integral fields t n hvalid hdump hn
  refine ⟨e, herror, ?_⟩
  simp only [integral] at herror
  cases hread : Json.readValue (t.take n).length (t.take n) with
  | none =>
    rw [hread] at herror
    exact Except.error.inj herror ▸ rfl
  | some x =>
    rw [hread] at herror
    by_cases hspace : x.2.dropWhile Json.isSpace = []
    · simp only [if_pos hspace] at herror
      cases herror
    · simp only [if_neg hspace] at herror
      exact Except.error.inj herror ▸ rfl

/-
JSON values and the library that reads and writes them.

`Json` is the value type of nlohmann::json as far as programs can tell its values
apart: the two integer types compare equal and convert alike, so one constructor
stands for both.  Objects are `std::map`s, so their fields are kept in key order.

The text format is not fixed here.  `Nlohmann` is what a program uses of the
library (`parse`, `dump`, the conversion of a double), and `Nlohmann.Lawful`
collects what the library documents about them: what `parse` returns is `Valid`,
`dump` succeeds on valid values and on no value with a string that is not UTF-8,
and `parse` undoes `dump`.
-/
import SocketChat.Lib.Bytes
import Mathlib.Data.Rat.Defs
import Mathlib.Algebra.Group.Int.Defs
import Mathlib.Data.Int.Order.Basic

/-- A JSON value.  A `numberFloat` is a finite double, given by its value. -/
inductive Json where
  | null
  | boolean (b : Bool)
  | numberInteger (n : ℤ)
  | numberFloat (q : ℚ)
  | string (s : Bytes)
  | array (l : List Json)
  | object (fields : List (Bytes × Json))

namespace Json

/-- The classes of `nlohmann::json::exception` the programs tell apart. -/
inductive ErrorClass where
  | parseError
  | typeError
  | outOfRange
  deriving DecidableEq

/-- An exception of the library, with its `what()`. -/
structure Error where
  kind : ErrorClass
  what : Bytes

theorem ok_of_toOption {α : Type} {x : Except Error α} {a : α} (h : x.toOption = some a) :
    x = .ok a := by
  cases x with
  | error e => cases h
  | ok b => exact congrArg Except.ok (Option.some_inj.mp h)

/-- `type_name()`. -/
def typeName : Json → Bytes
  | null => str "null"
  | boolean _ => str "boolean"
  | numberInteger _ => str "number"
  | numberFloat _ => str "number"
  | string _ => str "string"
  | array _ => str "array"
  | object _ => str "object"

/-- The `type_error` with the given number and text. -/
def typeError (id text : Bytes) : Error :=
  ⟨.typeError, str "[json.exception.type_error." ++ id ++ str "] " ++ text⟩

/-! ### Fields of an object -/

/-- The field `key`, when the value is an object that contains it. -/
def field? : Json → Bytes → Option Json
  | object fields, key => fields.lookup key
  | _, _ => none

/-- The text of a value that `is_string()`. -/
def string? : Json → Option Bytes
  | string s => some s
  | _ => none

/-- `v[key]` on a value that is not `const`: a missing key of an object reads as
`null`, so does any key of `null` itself; no other value has keys. -/
def index (v : Json) (key : Bytes) : Except Error Json :=
  match v with
  | object fields => .ok ((fields.lookup key).getD null)
  | null => .ok null
  | v => .error (typeError (str "305")
      (str "cannot use operator[] with a string argument with " ++ v.typeName))

theorem index_eq_ok {v w : Json} {key : Bytes} (h : v.index key = .ok w) :
    w = (v.field? key).getD null := by
  cases v with
  | object fields => exact (Except.ok.inj h).symm
  | null => exact (Except.ok.inj h).symm
  | _ => cases h

/-- Fields kept in key order, with `v` at `key`. -/
def setField (key : Bytes) (v : Json) : List (Bytes × Json) → List (Bytes × Json)
  | [] => [(key, v)]
  | (k, w) :: rest =>
    if key = k then (key, v) :: rest
    else if Bytes.lt key k then (key, v) :: (k, w) :: rest
    else (k, w) :: setField key v rest

/-- An object built by the assignments `v[key] = value`, in order, on a `null`. -/
def ofFields (assignments : List (Bytes × Json)) : Json :=
  object (assignments.foldl (fun fields a => setField a.1 a.2 fields) [])

theorem lookup_setField (key key' : Bytes) (v : Json) (fields : List (Bytes × Json)) :
    (setField key v fields).lookup key' =
      if key' = key then some v else fields.lookup key' := by
  induction fields with
  | nil =>
    by_cases h : key' = key
    · simp [setField, h]
    · simp [setField, List.lookup_cons, h, beq_false_of_ne h]
  | cons f rest ih =>
    obtain ⟨k, w⟩ := f
    rw [setField]
    by_cases hk : key = k
    · subst hk
      by_cases h : key' = key
      · simp [h]
      · simp [List.lookup_cons, h, beq_false_of_ne h]
    · rw [if_neg hk]
      by_cases hlt : Bytes.lt key k = true
      · rw [if_pos hlt]
        by_cases h : key' = key
        · simp [h]
        · simp [List.lookup_cons, h, beq_false_of_ne h]
      · rw [if_neg hlt]
        by_cases h' : key' = k
        · have hne : ¬ key' = key := fun e => hk (e ▸ h')
          simp [h', if_neg (Ne.symm hk)]
        · simp only [List.lookup_cons, beq_false_of_ne h', ih]

/-- Of several assignments to one key the last one counts. -/
theorem lookup_foldl_setField (assignments fields : List (Bytes × Json)) (key : Bytes) :
    (assignments.foldl (fun fields a => setField a.1 a.2 fields) fields).lookup key =
      (assignments.reverse.lookup key).or (fields.lookup key) := by
  induction assignments generalizing fields with
  | nil => simp
  | cons a assignments ih =>
    obtain ⟨k, v⟩ := a
    rw [List.foldl_cons, ih, lookup_setField, List.reverse_cons, List.lookup_append]
    by_cases h : key = k
    · subst h
      simp
    · simp [List.lookup_cons, h, beq_false_of_ne h]

theorem field?_ofFields (assignments : List (Bytes × Json)) (key : Bytes) :
    (ofFields assignments).field? key = assignments.reverse.lookup key := by
  rw [ofFields, field?, lookup_foldl_setField, List.lookup_nil, Option.or_none]

/-- The key order: every key is below the keys after it. -/
def SortedKeys (fields : List (Bytes × Json)) : Prop :=
  fields.Pairwise fun f g => Bytes.lt f.1 g.1 = true

theorem mem_setField {key : Bytes} {v : Json} {fields : List (Bytes × Json)}
    {f : Bytes × Json} (h : f ∈ setField key v fields) : f = (key, v) ∨ f ∈ fields := by
  induction fields with
  | nil =>
    rw [setField, List.mem_singleton] at h
    exact Or.inl h
  | cons g rest ih =>
    obtain ⟨k, w⟩ := g
    rw [setField] at h
    by_cases hk : key = k
    · rw [if_pos hk] at h
      exact (List.mem_cons.mp h).imp_right (List.mem_cons_of_mem _)
    · rw [if_neg hk] at h
      by_cases hlt : Bytes.lt key k = true
      · rw [if_pos hlt] at h
        exact List.mem_cons.mp h
      · rw [if_neg hlt] at h
        rcases List.mem_cons.mp h with rfl | h
        · exact Or.inr List.mem_cons_self
        · exact (ih h).imp_right (List.mem_cons_of_mem _)

theorem SortedKeys.setField {fields : List (Bytes × Json)} (h : SortedKeys fields)
    (key : Bytes) (v : Json) : SortedKeys (setField key v fields) := by
  induction fields with
  | nil => exact List.pairwise_singleton _ _
  | cons g rest ih =>
    obtain ⟨k, w⟩ := g
    obtain ⟨hhead, hrest⟩ := List.pairwise_cons.mp h
    rw [Json.setField]
    by_cases hk : key = k
    · rw [if_pos hk]
      exact List.pairwise_cons.mpr ⟨fun f hf => hk ▸ hhead f hf, hrest⟩
    · rw [if_neg hk]
      by_cases hlt : Bytes.lt key k = true
      · rw [if_pos hlt]
        refine List.pairwise_cons.mpr ⟨fun f hf => ?_, h⟩
        rcases List.mem_cons.mp hf with rfl | hf
        · exact hlt
        · exact Bytes.lt_trans hlt (hhead f hf)
      · rw [if_neg hlt]
        refine List.pairwise_cons.mpr ⟨fun f hf => ?_, ih hrest⟩
        rcases mem_setField hf with rfl | hf
        · -- neither equal nor below, so above
          by_contra hgt
          exact hk (Bytes.eq_of_not_lt (by simpa using hlt) (by simpa using hgt))
        · exact hhead f hf

/-! ### Valid values -/

/-- A value the library can hold and write: integers that fit 64 bits, doubles
among `double`, strings and keys in UTF-8, fields in key order. -/
inductive Valid (double : ℚ → Prop) : Json → Prop
  | null : Valid double null
  | boolean (b : Bool) : Valid double (boolean b)
  | numberInteger {n : ℤ} (hlo : -2 ^ 63 ≤ n) (hhi : n < 2 ^ 64) : Valid double (numberInteger n)
  | numberFloat {q : ℚ} (h : double q) : Valid double (numberFloat q)
  | string {s : Bytes} (h : s.utf8 = true) : Valid double (string s)
  | array {l : List Json} (h : ∀ v ∈ l, Valid double v) : Valid double (array l)
  | object {fields : List (Bytes × Json)} (hsorted : SortedKeys fields)
      (hkeys : ∀ f ∈ fields, Bytes.utf8 f.1 = true) (hvals : ∀ f ∈ fields, Valid double f.2) :
      Valid double (object fields)

theorem Valid.field {double : ℚ → Prop} {v w : Json} {key : Bytes} (hv : v.Valid double)
    (h : v.field? key = some w) : w.Valid double := by
  cases hv with
  | object hsorted hkeys hvals =>
    rw [field?] at h
    obtain ⟨l₁, l₂, heq, -⟩ := List.lookup_eq_some_iff.mp h
    exact hvals (key, w) (by simp [heq])
  | _ => simp [field?] at h

theorem Valid.index {double : ℚ → Prop} {v w : Json} {key : Bytes} (hv : v.Valid double)
    (h : v.index key = .ok w) : w.Valid double := by
  rw [index_eq_ok h]
  cases hfield : v.field? key with
  | none => exact Valid.null
  | some w => exact hv.field hfield

theorem Valid.setField {double : ℚ → Prop} {fields : List (Bytes × Json)} {key : Bytes} {v : Json}
    (hfields : (Json.object fields).Valid double) (hkey : key.utf8 = true) (hv : v.Valid double) :
    (Json.object (Json.setField key v fields)).Valid double := by
  cases hfields with
  | object hsorted hkeys hvals =>
    refine Valid.object (hsorted.setField key v) (fun f hf => ?_) (fun f hf => ?_)
    · rcases mem_setField hf with rfl | hf
      · exact hkey
      · exact hkeys f hf
    · rcases mem_setField hf with rfl | hf
      · exact hv
      · exact hvals f hf

theorem Valid.ofFields {double : ℚ → Prop} {assignments : List (Bytes × Json)}
    (hkeys : ∀ a ∈ assignments, Bytes.utf8 a.1 = true)
    (hvals : ∀ a ∈ assignments, a.2.Valid double) : (Json.ofFields assignments).Valid double := by
  suffices H : ∀ (as : List (Bytes × Json)) (fields : List (Bytes × Json)),
      (∀ a ∈ as, Bytes.utf8 a.1 = true) → (∀ a ∈ as, a.2.Valid double) →
      (Json.object fields).Valid double →
      (Json.object (as.foldl (fun fields a => Json.setField a.1 a.2 fields) fields)).Valid
        double by
    exact H assignments [] hkeys hvals (Valid.object List.Pairwise.nil (by simp) (by simp))
  intro as
  induction as with
  | nil => exact fun fields _ _ h => h
  | cons a as ih =>
    intro fields hk hv h
    exact ih _ (fun b hb => hk b (List.mem_cons_of_mem a hb))
      (fun b hb => hv b (List.mem_cons_of_mem a hb))
      (h.setField (hk a List.mem_cons_self) (hv a List.mem_cons_self))

end Json

/-! ### The library -/

/-- What a program uses of nlohmann::json besides the value type. -/
structure Nlohmann where
  /-- `json::parse`. -/
  parse : Bytes → Except Json.Error Json
  /-- `dump()` with the default arguments. -/
  dump : Json → Except Json.Error Bytes
  /-- The values of the finite doubles. -/
  double : ℚ → Prop
  /-- `static_cast<int>` of a double. -/
  doubleToInt : ℚ → Int32

namespace Nlohmann

variable (json : Nlohmann)

/-- Conversion to `int` of a value that `is_number()`: integers keep their low 32
bits. -/
def numberToInt? : Json → Option Int32
  | .numberInteger n => some (Int32.ofInt n)
  | .numberFloat q => some (json.doubleToInt q)
  | _ => none

/-- `v.value(key, default)` at `std::string`. -/
def valueString (v : Json) (key default : Bytes) : Except Json.Error Bytes :=
  match v with
  | .object fields =>
    match fields.lookup key with
    | none => .ok default
    | some (.string s) => .ok s
    | some w => .error (Json.typeError (str "302")
        (str "type must be string, but is " ++ w.typeName))
  | v => .error (Json.typeError (str "306") (str "cannot use value() with " ++ v.typeName))

/-- `v.value(key, default)` at `int`: a boolean converts too. -/
def valueInt (v : Json) (key : Bytes) (default : Int32) : Except Json.Error Int32 :=
  match v with
  | .object fields =>
    match fields.lookup key with
    | none => .ok default
    | some (.boolean b) => .ok (if b then 1 else 0)
    | some w =>
      match json.numberToInt? w with
      | some n => .ok n
      | none => .error (Json.typeError (str "302")
          (str "type must be number, but is " ++ w.typeName))
  | v => .error (Json.typeError (str "306") (str "cannot use value() with " ++ v.typeName))

theorem valueString_of_field {v : Json} {key default s : Bytes}
    (h : v.field? key = some (.string s)) : valueString v key default = .ok s := by
  cases v with
  | object fields =>
    have hlookup : fields.lookup key = some (.string s) := h
    simp only [valueString, hlookup]
  | _ => cases h

/-- A field of another type is not replaced by the default. -/
theorem valueString_of_other {v w : Json} {key default : Bytes} (h : v.field? key = some w)
    (hw : w.string? = none) : ∃ text, valueString v key default = .error ⟨.typeError, text⟩ := by
  cases v with
  | object fields =>
    have hlookup : fields.lookup key = some w := h
    rw [valueString, hlookup]
    cases w with
    | string s => cases hw
    | _ => exact ⟨_, rfl⟩
  | _ => cases h

theorem valueInt_of_field {v : Json} {key : Bytes} {default : Int32} {n : ℤ}
    (h : v.field? key = some (.numberInteger n)) :
    json.valueInt v key default = .ok (Int32.ofInt n) := by
  cases v with
  | object fields =>
    have hlookup : fields.lookup key = some (.numberInteger n) := h
    simp only [valueInt, hlookup, numberToInt?]
  | _ => cases h

/-- What the library documents about `parse` and `dump`. -/
structure Lawful : Prop where
  /-- `parse` returns values the library can hold. -/
  parse_valid : ∀ {t v}, json.parse t = .ok v → v.Valid json.double
  /-- `dump` writes every such value. -/
  dump_valid : ∀ {v}, v.Valid json.double → ∃ t, json.dump v = .ok t
  /-- The default error handler is `strict`: no string that is not UTF-8 is
  written as a field of an object. -/
  dump_utf8 : ∀ {fields t key s}, json.dump (.object fields) = .ok t →
    (key, .string s) ∈ fields → Bytes.utf8 s = true
  /-- `parse` undoes `dump`. -/
  parse_dump : ∀ {v t}, v.Valid json.double → json.dump v = .ok t → json.parse t = .ok v

end Nlohmann

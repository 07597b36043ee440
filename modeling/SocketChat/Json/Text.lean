/-
A reader and a writer of JSON text.

`Nlohmann.integral` is an implementation of the library without doubles: it writes what
nlohmann::json writes, and reads what that reads except for numbers that would become
doubles and for `\u` escapes beyond ASCII, which it refuses.  It also refuses a byte order
mark before the value, which the library skips, and a zero byte after the value, where the
library takes the text to end.  The reader descends recursively, its fuel bounding the
depth; the length of the text is always enough.
-/
import SocketChat.Json.Value

namespace Json

/-! ### Writing -/

/-- The lower-case hexadecimal digit of a number below 16. -/
def hexDigit (n : UInt8) : UInt8 := if n < 10 then 0x30 + n else 0x57 + n

/-- A byte of a string as it is written. -/
def escape (b : UInt8) : Bytes :=
  if b = 0x22 then [0x5C, 0x22]
  else if b = 0x5C then [0x5C, 0x5C]
  else if b = 0x08 then [0x5C, 0x62]
  else if b = 0x09 then [0x5C, 0x74]
  else if b = 0x0A then [0x5C, 0x6E]
  else if b = 0x0C then [0x5C, 0x66]
  else if b = 0x0D then [0x5C, 0x72]
  else if b < 0x20 then [0x5C, 0x75, 0x30, 0x30, hexDigit (b / 16), hexDigit (b % 16)]
  else [b]

/-- A string without its opening quotation mark. -/
def stringTail (s : Bytes) : Bytes := s.flatMap escape ++ [0x22]

def integerText (n : ℤ) : Bytes :=
  if n < 0 then 0x2D :: decimal n.natAbs else decimal n.natAbs

mutual

def text : Json → Bytes
  | null => str "null"
  | boolean b => if b then str "true" else str "false"
  | numberInteger n => integerText n
  | numberFloat _ => str "null"
  | string s => 0x22 :: stringTail s
  | array l => 0x5B :: elementsText l
  | object fields => 0x7B :: membersText fields

/-- The elements of an array and the closing bracket. -/
def elementsText : List Json → Bytes
  | [] => [0x5D]
  | [v] => text v ++ [0x5D]
  | v :: w :: l => text v ++ 0x2C :: elementsText (w :: l)

/-- The members of an object and the closing brace. -/
def membersText : List (Bytes × Json) → Bytes
  | [] => [0x7D]
  | [(k, v)] => 0x22 :: stringTail k ++ 0x3A :: (text v ++ [0x7D])
  | (k, v) :: f :: l => 0x22 :: stringTail k ++ 0x3A :: (text v ++ 0x2C :: membersText (f :: l))

end

mutual

/-- Every string and key is UTF-8. -/
def writable : Json → Bool
  | string s => s.utf8
  | array l => elementsWritable l
  | object fields => membersWritable fields
  | _ => true

def elementsWritable : List Json → Bool
  | [] => true
  | v :: l => writable v && elementsWritable l

def membersWritable : List (Bytes × Json) → Bool
  | [] => true
  | (k, v) :: l => k.utf8 && writable v && membersWritable l

end

/-! ### Reading -/

def isSpace (b : UInt8) : Bool := b = 0x20 || b = 0x09 || b = 0x0A || b = 0x0D

def isDigit (b : UInt8) : Bool := Bytes.inRange 0x30 0x39 b

/-- The next byte that is not white space, and what follows it. -/
def token (t : Bytes) : Option (UInt8 × Bytes) :=
  match t.dropWhile isSpace with
  | [] => none
  | c :: r => some (c, r)

/-- The number a hexadecimal digit stands for. -/
def hexValue (c : UInt8) : Option UInt8 :=
  if isDigit c then some (c - 0x30)
  else if Bytes.inRange 0x61 0x66 c then some (c - 0x57)
  else if Bytes.inRange 0x41 0x46 c then some (c - 0x37)
  else none

/-- The ASCII character with the given four hexadecimal digits. -/
def hexByte (h₁ h₂ h₃ h₄ : UInt8) : Option UInt8 := do
  let a ← hexValue h₃
  let b ← hexValue h₄
  if h₁ = 0x30 ∧ h₂ = 0x30 ∧ a < 8 then pure (16 * a + b) else none

/-- What a backslash and `c` stand for. -/
def unescape (c : UInt8) : Option UInt8 :=
  if c = 0x22 ∨ c = 0x5C ∨ c = 0x2F then some c
  else if c = 0x62 then some 0x08
  else if c = 0x74 then some 0x09
  else if c = 0x6E then some 0x0A
  else if c = 0x66 then some 0x0C
  else if c = 0x72 then some 0x0D
  else none

/-- A string after its opening quotation mark, and what follows it. -/
def scanString : Bytes → Option (Bytes × Bytes)
  | [] => none
  | b :: t =>
    if b = 0x22 then some ([], t)
    else if b = 0x5C then
      match t with
      | [] => none
      | c :: t =>
        if c = 0x75 then
          match t with
          | h₁ :: h₂ :: h₃ :: h₄ :: t =>
            (hexByte h₁ h₂ h₃ h₄).bind fun d => (scanString t).map fun s => (d :: s.1, s.2)
          | _ => none
        else (unescape c).bind fun d => (scanString t).map fun s => (d :: s.1, s.2)
    else if b < 0x20 then none
    else (scanString t).map fun s => (b :: s.1, s.2)

/-- The same, accepted only if it is UTF-8. -/
def readString (t : Bytes) : Option (Bytes × Bytes) :=
  (scanString t).filter fun s => s.1.utf8

/-- The number with the given decimal digits. -/
def ofDecimal (ds : Bytes) : ℕ := ds.foldl (fun n d => 10 * n + (d.toNat - 48)) 0

/-- The digits at the front of `t`, written without superfluous zeros, when no fraction
or exponent follows; and what follows them. -/
def readNat (t : Bytes) : Option (ℕ × Bytes) :=
  let n := ofDecimal (t.takeWhile isDigit)
  let r := t.dropWhile isDigit
  if t.takeWhile isDigit = decimal n ∧ r.head? ∉ [some 0x2E, some 0x65, some 0x45] then
    some (n, r)
  else none

def integer (n : ℤ) (r : Bytes) : Option (Json × Bytes) :=
  if -2 ^ 63 ≤ n ∧ n < 2 ^ 64 then some (numberInteger n, r) else none

/-- A literal name or an integer. -/
def readScalar (t : Bytes) : Option (Json × Bytes) :=
  if str "null" <+: t then some (null, t.drop 4)
  else if str "true" <+: t then some (boolean true, t.drop 4)
  else if str "false" <+: t then some (boolean false, t.drop 5)
  else if t.head? = some 0x2D then (readNat t.tail).bind fun n => integer (-n.1) n.2
  else (readNat t).bind fun n => integer n.1 n.2

mutual

/-- A value at the front of the text, and what follows it. -/
def readValue : ℕ → Bytes → Option (Json × Bytes)
  | 0, _ => none
  | fuel + 1, t => do
    let (c, r) ← token t
    if c = 0x22 then (readString r).map fun s => (string s.1, s.2)
    else if c = 0x5B then do
      let (d, r') ← token r
      if d = 0x5D then pure (array [], r')
      else (readElements fuel r).map fun l => (array l.1, l.2)
    else if c = 0x7B then do
      let (d, r') ← token r
      if d = 0x7D then pure (object [], r')
      else (readMembers fuel r).map fun m => (ofFields m.1, m.2)
    else readScalar (c :: r)

/-- The elements of an array that has some, with the closing bracket. -/
def readElements : ℕ → Bytes → Option (List Json × Bytes)
  | 0, _ => none
  | fuel + 1, t => do
    let (v, r) ← readValue fuel t
    let (d, r) ← token r
    if d = 0x2C then (readElements fuel r).map fun l => (v :: l.1, l.2)
    else if d = 0x5D then pure ([v], r)
    else none

/-- The members of an object that has some, with the closing brace. -/
def readMembers : ℕ → Bytes → Option (List (Bytes × Json) × Bytes)
  | 0, _ => none
  | fuel + 1, t => do
    let (c, r) ← token t
    if c = 0x22 then do
      let (k, r) ← readString r
      let (d, r) ← token r
      if d = 0x3A then do
        let (v, r) ← readValue fuel r
        let (d, r) ← token r
        if d = 0x2C then (readMembers fuel r).map fun l => ((k, v) :: l.1, l.2)
        else if d = 0x7D then pure ([(k, v)], r)
        else none
      else none
    else none

end

end Json

/-- A JSON library without doubles. -/
def Nlohmann.integral : Nlohmann where
  parse t :=
    match Json.readValue t.length t with
    | some (v, r) =>
      if r.dropWhile Json.isSpace = [] then .ok v
      else .error ⟨.parseError, str "[json.exception.parse_error.101] parse error"⟩
    | none => .error ⟨.parseError, str "[json.exception.parse_error.101] parse error"⟩
  dump v :=
    if v.writable then .ok v.text
    else .error ⟨.typeError, str "[json.exception.type_error.316] invalid UTF-8 byte"⟩
  double _ := False
  doubleToInt _ := 0

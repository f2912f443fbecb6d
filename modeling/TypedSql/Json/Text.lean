import TypedSql.Number.Numeral

/-!
# Reading JSON

A reader for JSON text. It keeps of a text what a description of a table
can need: integers, texts, truth values, and lists and objects of them. Of
other numbers it only keeps that they are numbers, and of a text with an
unpaired surrogate that it is none. The members of an object keep their
order, and repeated names stay repeated.
-/

namespace TypedSql

/-- **A JSON value.** -/
inductive Json where
  /-- No value. -/
  | null
  /-- A truth value. -/
  | bool (b : Bool)
  /-- A number that is written as an integer, minus zero apart. -/
  | integer (n : Int)
  /-- Any other number. -/
  | decimal
  /-- A text, unless its escapes leave a surrogate alone. -/
  | string (s? : Option String)
  /-- A list. -/
  | array (items : List Json)
  /-- Members with their names. -/
  | object (members : List (Option String × Json))

namespace Json

/-- A text as a value. -/
def text (s : String) : Json := .string (some s)

/-- Members as a value. -/
def ofMembers (members : List (String × Json)) : Json :=
  .object (members.map fun m => (some m.1, m.2))

/-! ## Tokens -/

/-- The blanks between tokens. -/
def isBlank (c : Char) : Bool := c == ' ' || c == '\t' || c == '\n' || c == '\r'

/-- The text without the blanks it begins with. -/
def skip (cs : List Char) : List Char := cs.dropWhile isBlank

/-- The value of a hexadecimal digit of either case. -/
def hexValue? (c : Char) : Option Nat :=
  if c.isDigit then some (c.toNat - 48)
  else if 'a' ≤ c ∧ c ≤ 'f' then some (c.toNat - 87)
  else if 'A' ≤ c ∧ c ≤ 'F' then some (c.toNat - 55)
  else none

/-- The character that a short escape stands for. -/
def escape? (c : Char) : Option Char :=
  if c = '"' ∨ c = '\\' ∨ c = '/' then some c
  else if c = 'b' then some '\x08'
  else if c = 'f' then some '\x0c'
  else if c = 'n' then some '\n'
  else if c = 'r' then some '\r'
  else if c = 't' then some '\t'
  else none

/-- Puts a code in front of what was read behind it. -/
def andThen (code? : Option Nat) (rest? : Option (List Nat × List Char)) :
    Option (List Nat × List Char) :=
  match code?, rest? with
  | some code, some (codes, rest) => some (code :: codes, rest)
  | _, _ => none

/-- The number of four hexadecimal digits. -/
def hexCode? (a b c d : Char) : Option Nat := do
  return (((← hexValue? a) * 16 + (← hexValue? b)) * 16 + (← hexValue? c)) * 16 + (← hexValue? d)

/-- Reads the codes of a text up to its closing quote. -/
def readCodes : List Char → Option (List Nat × List Char)
  | [] => none
  | '"' :: cs => some ([], cs)
  | '\\' :: 'u' :: a :: b :: c :: d :: cs => andThen (hexCode? a b c d) (readCodes cs)
  | '\\' :: c :: cs => andThen ((escape? c).map Char.toNat) (readCodes cs)
  | c :: cs => if c.toNat < 0x20 then none else andThen (some c.toNat) (readCodes cs)

/-- **The characters of a sequence of codes.** Two surrogates that belong
together are one character; one that stands alone is none. -/
def charsOfCodes : List Nat → Option (List Char)
  | [] => some []
  | [a] => if 0xD800 ≤ a ∧ a ≤ 0xDFFF then none else some [Char.ofNat a]
  | a :: b :: rest =>
    if 0xD800 ≤ a ∧ a ≤ 0xDBFF then
      if 0xDC00 ≤ b ∧ b ≤ 0xDFFF then
        (charsOfCodes rest).map
          (Char.ofNat (0x10000 + (a - 0xD800) * 0x400 + (b - 0xDC00)) :: ·)
      else none
    else if 0xDC00 ≤ a ∧ a ≤ 0xDFFF then none
    else (charsOfCodes (b :: rest)).map (Char.ofNat a :: ·)

/-- Reads a text behind its opening quote. -/
def readText (cs : List Char) : Option (Option String × List Char) :=
  (readCodes cs).map fun r => ((charsOfCodes r.1).map String.ofList, r.2)

/-- Reads digits, at least one. -/
def readDigits (cs : List Char) : Option (List Char × List Char) :=
  let digits := cs.takeWhile Char.isDigit
  if digits = [] then none else some (digits, cs.dropWhile Char.isDigit)

/-- Reads the digits behind a point, if there is a point. -/
def readFraction : List Char → Option (Bool × List Char)
  | '.' :: cs => (readDigits cs).map fun r => (true, r.2)
  | cs => some (false, cs)

/-- Reads an exponent, if there is one. -/
def readExponent : List Char → Option (Bool × List Char)
  | c :: cs =>
    if c = 'e' ∨ c = 'E' then
      let digits := match cs with
        | '+' :: rest => rest
        | '-' :: rest => rest
        | rest => rest
      (readDigits digits).map fun r => (true, r.2)
    else some (false, c :: cs)
  | [] => some (false, [])

/-- Reads a number. Zero is the only integer part that begins with a
zero. -/
def readNumber (cs : List Char) : Option (Json × List Char) := do
  let (negative, cs) := match cs with
    | '-' :: rest => (true, rest)
    | rest => (false, rest)
  let (digits, cs) ← readDigits cs
  if digits.head? = some '0' ∧ digits.length ≠ 1 then none
  else
    let (hasFraction, cs) ← readFraction cs
    let (hasExponent, cs) ← readExponent cs
    let n := Nat.ofDigitChars 10 digits 0
    if hasFraction || hasExponent || (negative && n == 0) then return (.decimal, cs)
    else return (.integer (signed negative n), cs)

/-! ## Values -/

mutual

/-- Reads a value. The number bounds how deep values may nest and how many
may follow each other. -/
def readValue : Nat → List Char → Option (Json × List Char)
  | 0, _ => none
  | fuel + 1, cs =>
    match skip cs with
    | 'n' :: 'u' :: 'l' :: 'l' :: rest => some (.null, rest)
    | 't' :: 'r' :: 'u' :: 'e' :: rest => some (.bool true, rest)
    | 'f' :: 'a' :: 'l' :: 's' :: 'e' :: rest => some (.bool false, rest)
    | '"' :: rest => (readText rest).map fun r => (.string r.1, r.2)
    | '[' :: rest =>
      match skip rest with
      | ']' :: rest => some (.array [], rest)
      | rest => (readItems fuel rest).map fun r => (.array r.1, r.2)
    | '{' :: rest =>
      match skip rest with
      | '}' :: rest => some (.object [], rest)
      | rest => (readMembers fuel rest).map fun r => (.object r.1, r.2)
    | rest => readNumber rest

/-- Reads the items of a list up to its end. -/
def readItems : Nat → List Char → Option (List Json × List Char)
  | 0, _ => none
  | fuel + 1, cs =>
    match readValue fuel cs with
    | none => none
    | some (v, rest) =>
      match skip rest with
      | ']' :: rest => some ([v], rest)
      | ',' :: rest => (readItems fuel rest).map fun r => (v :: r.1, r.2)
      | _ => none

/-- Reads the members of an object up to its end. -/
def readMembers : Nat → List Char → Option (List (Option String × Json) × List Char)
  | 0, _ => none
  | fuel + 1, cs =>
    match skip cs with
    | '"' :: rest =>
      match readText rest with
      | none => none
      | some (name?, rest) =>
        match skip rest with
        | ':' :: rest =>
          match readValue fuel rest with
          | none => none
          | some (v, rest) =>
            match skip rest with
            | '}' :: rest => some ([(name?, v)], rest)
            | ',' :: rest =>
              (readMembers fuel rest).map fun r => ((name?, v) :: r.1, r.2)
            | _ => none
        | _ => none
    | _ => none

end

/-- **Reads a JSON text.** Every step takes at least one character and goes
down at most twice for it. -/
def read? (s : String) : Option Json :=
  let cs := s.toList
  match readValue (2 * cs.length + 2) cs with
  | some (v, rest) => if skip rest = [] then some v else none
  | none => none

/-! ## Reading values -/

/-- A truth value. -/
def bool? : Json → Option Bool
  | .bool b => some b
  | _ => none

/-- A text. -/
def string? : Json → Option String
  | .string s? => s?
  | _ => none

/-- An integer that fits 64 bits. -/
def int64? : Json → Option Int64
  | .integer n => TypedSql.int64? n
  | _ => none

/-- A list of values of one kind. -/
def list? {α : Type} (read : Json → Option α) : Json → Option (List α)
  | .array items => items.mapM read
  | _ => none

/-- A value that may be missing. -/
def optional? {α : Type} (read : Json → Option α) : Json → Option (Option α)
  | .null => some none
  | v => (read v).map some

/-- A name out of a list of names: the name as a text, or as the only member
of an object, without a value. -/
def variant? {α : Type} (names : List (String × α)) : Json → Option α
  | .string s? => s?.bind fun s => List.lookup s names
  | .object [(name?, .null)] => name?.bind fun s => List.lookup s names
  | _ => none

/-- **The fields of a record**, in the order of their names: those of an
object, where each may stand once and others do not count, or the items of a
list from the first on. A field that is not there is missing. -/
def fields? (names : List String) : Json → Option (List (Option Json))
  | .array items =>
    if items.length ≤ names.length then
      some (items.map some ++ List.replicate (names.length - items.length) none)
    else none
  | .object members => do
    let named ← members.mapM fun m => m.1.map fun name => (name, m.2)
    names.mapM fun name =>
      match named.filter fun m => m.1 == name with
      | [] => some none
      | [m] => some (some m.2)
      | _ => none
  | _ => none

/-- Whether a record is written as a list, in which no field may be left
out. -/
def isArray : Json → Bool
  | .array _ => true
  | _ => false

end Json

end TypedSql

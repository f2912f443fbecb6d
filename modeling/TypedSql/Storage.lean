import TypedSql.Number.Numeral
import TypedSql.Number.Shortest
import TypedSql.Text.Hex
import TypedSql.Text.Quoted

/-!
# Stored values

The values on the way into a database and out of it. A `HostValue` is what
a caller supplies for a placeholder, an `Argument` is what is handed to the
engine for it – text, bytes or nothing – and a `Cell` is what a row holds
when it is read. Every one of them has a storage class.

Numbers travel to the engine as text. `Cell.store` is the way back: what a
column of a given affinity makes of an argument.
-/

namespace TypedSql

/-! ## Storage classes -/

/-- **The storage classes** of the engine. -/
inductive StorageClass where
  /-- Nothing is stored. -/
  | null
  /-- A 64-bit signed integer. -/
  | integer
  /-- A double. -/
  | real
  /-- Text. -/
  | text
  /-- Bytes. -/
  | blob
deriving DecidableEq, Repr

/-- The type name in a column definition. -/
def StorageClass.sql : StorageClass → String
  | .null => "NULL"
  | .integer => "INTEGER"
  | .real => "REAL"
  | .text => "TEXT"
  | .blob => "BLOB"

/-! ## The three kinds of values -/

/-- **What a caller supplies** for a placeholder. -/
inductive HostValue where
  /-- No value. -/
  | null
  /-- A truth value. -/
  | bool (b : Bool)
  /-- An integer. -/
  | int (n : Int64)
  /-- A double. -/
  | float (x : Float)
  /-- Text. -/
  | text (s : String)
  /-- Bytes. -/
  | blob (bytes : List UInt8)
deriving DecidableEq

/-- The storage class that a supplied value asks for. -/
def HostValue.storageClass : HostValue → StorageClass
  | .null => .null
  | .bool _ | .int _ => .integer
  | .float _ => .real
  | .text _ => .text
  | .blob _ => .blob

/-- **What the engine is handed** for a placeholder. -/
inductive Argument where
  /-- No value. -/
  | null
  /-- Text, which numbers are written as too. -/
  | text (s : String)
  /-- Bytes. -/
  | blob (bytes : List UInt8)
deriving DecidableEq, Repr

/-- The text of an argument that is one. -/
def Argument.text? : Argument → Option String
  | .text s => some s
  | _ => none

/-- **What a row holds** in one place. -/
inductive Cell where
  /-- No value. -/
  | null
  /-- An integer. -/
  | integer (n : Int64)
  /-- A double. -/
  | real (x : Float)
  /-- Text. -/
  | text (s : String)
  /-- Bytes. -/
  | blob (bytes : List UInt8)
deriving DecidableEq

namespace Cell

/-- The storage class of a cell. -/
def storageClass : Cell → StorageClass
  | .null => .null
  | .integer _ => .integer
  | .real _ => .real
  | .text _ => .text
  | .blob _ => .blob

/-- Whether a cell holds nothing. -/
def isNull : Cell → Bool
  | .null => true
  | _ => false

@[simp] theorem isNull_iff (c : Cell) : c.isNull = true ↔ c = .null := by
  cases c <;> simp [isNull]

end Cell

/-! ## Literals -/

/-- Bytes as a literal: hexadecimal digits between single quotes, with the
letter `X` in front. -/
def blobLiteral (bytes : List UInt8) : String :=
  String.ofList ('X' :: '\'' :: Text.hex bytes ++ ['\''])

/-- Text as a literal, between single quotes. -/
def textLiteral (s : String) : String := Text.quoted '\'' s

/-- **An argument as a literal.** The text of a number stands as it is, any
other text between quotes; which of the two it is, the storage class
says. -/
def literalText (c : StorageClass) : Argument → String
  | .null => "NULL"
  | .text s => if c = .integer ∨ c = .real then s else textLiteral s
  | .blob bytes => blobLiteral bytes

/-- A cell as it is shown to a reader: text as it is, everything else as a
literal would be written. -/
def Cell.shown : Cell → String
  | .null => "NULL"
  | .integer n => integerText n.toInt
  | .real x => Double.text x
  | .text s => s
  | .blob bytes => blobLiteral bytes

/-! ## Affinity -/

/-- Whether a text is made of the characters of numbers and has a digit. -/
def looksNumeric (cs : List Char) : Bool :=
  cs.any Char.isDigit &&
    cs.all fun c => c.isDigit || c == '+' || c == '-' || c == '.' || c == 'e' || c == 'E'

/-- The magnitude from which on a whole double is not stored as an
integer. -/
def wholeLimit : Nat := 9200000000000000000

/-- A number as a column of integers stores it: as an integer if it is a
whole number below `wholeLimit`, as a double otherwise. -/
def Cell.ofNumeral (n : Numeral) : Cell :=
  let x := n.toDouble
  match Double.toInt? x with
  | some whole => if whole.natAbs < wholeLimit then .integer (Int64.ofInt whole) else .real x
  | none => .real x

/-- Text in a column of integers. -/
def Cell.ofIntegerText (s : String) : Cell :=
  let cs := s.toList
  if looksNumeric cs then
    match (readInteger? cs).bind int64? with
    | some n => .integer n
    | none =>
      match Numeral.read? cs with
      | some n => .ofNumeral n
      | none => .text s
  else .text s

/-- Text in a column of doubles. -/
def Cell.ofRealText (s : String) : Cell :=
  let cs := s.toList
  if looksNumeric cs then
    match Numeral.read? cs with
    | some n => .real n.toDouble
    | none => .text s
  else .text s

/-- **What a column makes of an argument.** A column of integers turns the
text of a number into an integer, or into a double when it is not whole; a
column of doubles turns it into a double; every other column keeps text as
text. -/
def Cell.store (affinity : StorageClass) : Argument → Cell
  | .null => .null
  | .blob bytes => .blob bytes
  | .text s =>
    match affinity with
    | .integer => .ofIntegerText s
    | .real => .ofRealText s
    | _ => .text s

@[simp] theorem Cell.store_null (c : StorageClass) : Cell.store c .null = .null := rfl

@[simp] theorem Cell.store_blob (c : StorageClass) (bytes : List UInt8) :
    Cell.store c (.blob bytes) = .blob bytes := rfl

end TypedSql

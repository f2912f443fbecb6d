import TypedSql.Fault

/-!
# Codecs

A codec ties a type of values to a storage class: `Codec.encode` writes a
value as an argument, `Codec.decode` reads one off a cell, and
`Codec.accept` takes what a caller supplies for a placeholder.

There is a fixed stock of scalar types, and two things can be put around
one. `nullable` adds the missing value. `shared` adds nothing: it stands
for a codec that is reached through a handle, and is told apart from the
codec itself only where two columns are compared.
-/

namespace TypedSql

/-! ## Enumerations -/

/-- **An enumeration** stored by name. The names differ from each other, so
a stored name is one value. -/
structure Enumeration where
  /-- What the type is called when a name is refused. -/
  typeName : String
  /-- The names of the values. -/
  names : List String
  /-- No two values share a name. -/
  nodup : names.Nodup
deriving DecidableEq

namespace Enumeration

/-- The values of an enumeration: places in the list of names. -/
abbrev Value (e : Enumeration) : Type := Fin e.names.length

/-- The value of a given name. -/
def ofName? (e : Enumeration) (name : String) : Option e.Value :=
  e.names.finIdxOf? name

/-- The name of a value. -/
def nameOf (e : Enumeration) (v : e.Value) : String := e.names.get v

/-- A stored name is read back as the value it was written for. -/
@[simp] theorem ofName?_nameOf (e : Enumeration) (v : e.Value) :
    e.ofName? (e.nameOf v) = some v := by
  rw [ofName?, nameOf, List.finIdxOf?_eq_some_iff]
  refine ⟨rfl, fun j hj h => ?_⟩
  have same : e.names[j.val] = e.names[v.val] := h
  exact Nat.ne_of_lt hj ((List.getElem_inj e.nodup).mp same)

end Enumeration

/-! ## Scalar types -/

/-- **The scalar types.** -/
inductive Scalar where
  /-- 64-bit integers. -/
  | long
  /-- 32-bit integers. -/
  | int
  /-- Doubles. -/
  | real
  /-- Text. -/
  | text
  /-- Bytes. -/
  | blob
  /-- Truth values, stored as one and zero. -/
  | bool
  /-- Moments, stored as text. -/
  | timestamp
  /-- Dates, stored as text. -/
  | date
  /-- Enumerations, stored by name. -/
  | enumeration (e : Enumeration)
deriving DecidableEq

namespace Scalar

/-- The values of a scalar type. -/
@[reducible] def Value : Scalar → Type
  | .long => Int64
  | .int => Int32
  | .real => Float
  | .text => String
  | .blob => List UInt8
  | .bool => Bool
  | .timestamp => Timestamp
  | .date => Date
  | .enumeration e => e.Value

/-- The storage class of a scalar type. -/
def storageClass : Scalar → StorageClass
  | .long | .int | .bool => .integer
  | .real => .real
  | .blob => .blob
  | .text | .timestamp | .date | .enumeration _ => .text

/-- A double as an argument: infinities as numerals beyond the range of
doubles, and no value for what is no number. -/
def encodeReal (x : Float) : Argument :=
  match Double.meaning x with
  | .nan => .null
  | .infinite negative => .text (if negative then "-9e999" else "9e999")
  | .finite negative significand exponent =>
    .text (Double.finiteText negative significand exponent)

/-- **A value as an argument.** -/
def encode : (s : Scalar) → s.Value → Argument
  | .long, n => .text (integerText n.toInt)
  | .int, n => .text (integerText n.toInt)
  | .real, x => encodeReal x
  | .text, s => .text s
  | .blob, bytes => .blob bytes
  | .bool, b => .text (if b then "1" else "0")
  | .timestamp, t => .text t.text
  | .date, d => .text d.text
  | .enumeration e, v => .text (e.nameOf v)

/-! ### Reading within a storage class -/

/-- A 32-bit integer, if an integer is one. -/
def narrow (n : Int64) : Except ValueError Int32 :=
  match int32? n.toInt with
  | some m => .ok m
  | none => .error (.invalidValue (.tooWide n))

/-- The moment that a text denotes. -/
def timestampOfText (s : String) : Except ValueError Timestamp :=
  (Calendar.readTimestamp s).mapError fun fault => .invalidValue (.notTimestamp s fault)

/-- The date that a text denotes. -/
def dateOfText (s : String) : Except ValueError Date :=
  (Calendar.readDate s).mapError fun fault => .invalidValue (.notDate s fault)

/-- The value of an enumeration that a text names. -/
def variantOfText (e : Enumeration) (s : String) : Except ValueError e.Value :=
  match e.ofName? s with
  | some v => .ok v
  | none => .error (.invalidValue (.notVariant s e.typeName))

/-- An integer as a value of a type that is stored as one. -/
def ofInteger : (s : Scalar) → Int64 → Except ValueError s.Value
  | .long, n => .ok n
  | .int, n => narrow n
  | .bool, n => .ok (n != 0)
  | .real, n => .ok (Double.ofInt n.toInt)
  | .text, _ | .timestamp, _ | .date, _ | .enumeration _, _ =>
    .error (.wrongClass .text .integer)
  | .blob, _ => .error (.wrongClass .blob .integer)

/-- A double as a value of a type that is stored as one. -/
def ofReal : (s : Scalar) → Float → Except ValueError s.Value
  | .real, x => .ok x
  | s, _ => .error (.wrongClass s.storageClass .real)

/-- A text as a value of a type that is stored as one. -/
def ofText : (s : Scalar) → String → Except ValueError s.Value
  | .text, t => .ok t
  | .timestamp, t => timestampOfText t
  | .date, t => dateOfText t
  | .enumeration e, t => variantOfText e t
  | s, _ => .error (.wrongClass s.storageClass .text)

/-- Bytes as a value of the type that is stored as them. -/
def ofBlob : (s : Scalar) → List UInt8 → Except ValueError s.Value
  | .blob, bytes => .ok bytes
  | s, _ => .error (.wrongClass s.storageClass .blob)

/-- **Reads a value off a cell.** -/
def decode (s : Scalar) : Cell → Except ValueError s.Value
  | .null => .error .unexpectedNull
  | .integer n => s.ofInteger n
  | .real x => s.ofReal x
  | .text t => s.ofText t
  | .blob bytes => s.ofBlob bytes

/-- A truth value where the type is one or holds integers. -/
def ofBool : (s : Scalar) → Bool → Except ValueError s.Value
  | .bool, b => .ok b
  | .long, b => .ok (if b then 1 else 0)
  | .int, b => .ok (if b then 1 else 0)
  | s, _ => .error (.wrongClass s.storageClass .integer)

/-- An integer that a caller supplied. For a truth value only one and zero
will do. -/
def ofInt : (s : Scalar) → Int64 → Except ValueError s.Value
  | .bool, n =>
    if n = 0 then .ok false else if n = 1 then .ok true
    else .error (.invalidValue (.notBoolean n))
  | s, n => s.ofInteger n

/-- **Takes a value that a caller supplied.** -/
def accept (s : Scalar) : HostValue → Except ValueError s.Value
  | .null => .error .unexpectedNull
  | .bool b => s.ofBool b
  | .int n => s.ofInt n
  | .float x => s.ofReal x
  | .text t => s.ofText t
  | .blob bytes => s.ofBlob bytes

end Scalar

/-! ## Codecs -/

/-- **A codec**: a scalar type with any number of wrappers around it. -/
inductive Codec where
  /-- A scalar type. -/
  | scalar (s : Scalar)
  /-- A codec that also carries the missing value. -/
  | nullable (c : Codec)
  /-- A codec behind a handle. -/
  | shared (c : Codec)
deriving DecidableEq

namespace Codec

/-- The values that a codec carries. -/
@[reducible] def Value : Codec → Type
  | .scalar s => s.Value
  | .nullable c => Option c.Value
  | .shared c => c.Value

/-- The storage class that a column of the codec declares. -/
def storageClass : Codec → StorageClass
  | .scalar s => s.storageClass
  | .nullable c => c.storageClass
  | .shared c => c.storageClass

/-- Whether the codec carries the missing value. -/
def isNullable : Codec → Bool
  | .scalar _ => false
  | .nullable _ => true
  | .shared c => c.isNullable

/-- Whether a column of the codec is declared to hold integers. -/
def isInteger (c : Codec) : Bool := decide (c.storageClass = .integer)

/-- **A value as an argument.** -/
def encode : (c : Codec) → c.Value → Argument
  | .scalar s, v => s.encode v
  | .nullable _, none => .null
  | .nullable c, some v => c.encode v
  | .shared c, v => c.encode v

/-- **Reads a value off a cell.** -/
def decode : (c : Codec) → Cell → Except ValueError c.Value
  | .scalar s, cell => s.decode cell
  | .nullable _, .null => .ok none
  | .nullable c, cell => (c.decode cell).map some
  | .shared c, cell => c.decode cell

/-- **Takes a value that a caller supplied.** -/
def accept : (c : Codec) → HostValue → Except ValueError c.Value
  | .scalar s, v => s.accept v
  | .nullable _, .null => .ok none
  | .nullable c, v => (c.accept v).map some
  | .shared c, v => c.accept v

/-- What is handed to the engine for a value that a caller supplied. -/
def bind (c : Codec) (v : HostValue) : Except ValueError Argument :=
  (c.accept v).map c.encode

/-- A value as a literal: the text of its argument. -/
def literal (c : Codec) (v : c.Value) : String := literalText c.storageClass (c.encode v)

/-- The scalar type inside all wrappers. -/
def scalarType : Codec → Scalar
  | .scalar s => s
  | .nullable c => c.scalarType
  | .shared c => c.scalarType

/-- The codec with all handles taken away, which determines its values. -/
def unshared : Codec → Codec
  | .scalar s => .scalar s
  | .nullable c => .nullable c.unshared
  | .shared c => c.unshared

/-- **What identifies a codec** where columns are compared: its shape down
to the first handle, and only the type of values behind that. -/
def identity : Codec → Codec
  | .scalar s => .scalar s
  | .nullable c => .nullable c.identity
  | .shared c => .shared c.unshared

/-- The codec that carries the missing value as well. -/
def toNullable (c : Codec) : Codec := .nullable (.shared c)

/-! ### Scalars as codecs -/

/-- 64-bit integers. -/
abbrev long : Codec := .scalar .long

/-- Truth values. -/
abbrev bool : Codec := .scalar .bool

/-- Text. -/
abbrev text : Codec := .scalar .text

/-- Doubles. -/
abbrev real : Codec := .scalar .real

end Codec

/-! ## Supplied values of host types -/

namespace HostValue

/-- A moment as a supplied value. -/
def ofTimestamp (t : Timestamp) : HostValue := .text t.text

/-- A date as a supplied value. -/
def ofDate (d : Date) : HostValue := .text d.text

/-- A single precision number as a supplied value. -/
def ofFloat32 (x : Float32) : HostValue := .float x.toFloat

/-- An optional value as a supplied value. -/
def ofOption {α : Type} (f : α → HostValue) : Option α → HostValue
  | some a => f a
  | none => .null

end HostValue

/-- **How the values of a scalar type are supplied**, if they are. An
enumeration is not: a caller supplies names, and names are text. -/
def Scalar.toHost? : (s : Scalar) → Option (s.Value → HostValue)
  | .long => some .int
  | .int => some fun n => .int n.toInt64
  | .real => some .float
  | .text => some .text
  | .blob => some .blob
  | .bool => some .bool
  | .timestamp => some .ofTimestamp
  | .date => some .ofDate
  | .enumeration _ => none

/-- **How the values of a codec are supplied**, if they are. -/
def Codec.toHost? : (c : Codec) → Option (c.Value → HostValue)
  | .scalar s => s.toHost?
  | .nullable c => c.toHost?.map HostValue.ofOption
  | .shared c => c.toHost?

end TypedSql

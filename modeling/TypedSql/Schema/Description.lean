import TypedSql.Json.Text
import TypedSql.Schema.Object

/-!
# Descriptions of tables

What the engine says about a table: its columns with their declared types,
defaults and places in the primary key. A description is plain data. It is
read off the rows of the engine's own listing, and it can be written as
JSON and read back.
-/

namespace TypedSql

/-! ## Declared types -/

/-- **The kind of a declared type**, by the engine's rules. -/
inductive FieldType where
  /-- Integers. -/
  | integer
  /-- Doubles. -/
  | real
  /-- Text. -/
  | text
  /-- Bytes, or anything when no type is declared. -/
  | blob
  /-- Whatever a number fits best. -/
  | numeric
deriving DecidableEq, Repr

namespace FieldType

/-- Whether a word occurs in a text. -/
def mentions : List Char → String → Bool
  | [], word => word.isEmpty
  | c :: cs, word => word.toList.isPrefixOf (c :: cs) || mentions cs word

/-- **The kind of a declared type**: the first word of the rules that the type
mentions, in any case of its ASCII letters. -/
def ofDeclared (declared : String) : FieldType :=
  let upper := declared.toUpper.toList
  if mentions upper "INT" then .integer
  else if mentions upper "CHAR" || mentions upper "CLOB" || mentions upper "TEXT" then .text
  else if upper.isEmpty || mentions upper "BLOB" then .blob
  else if mentions upper "REAL" || mentions upper "FLOA" || mentions upper "DOUB" then .real
  else .numeric

/-- The storage class of the kind, if it is a single one. -/
def storageClass? : FieldType → Option StorageClass
  | .integer => some .integer
  | .real => some .real
  | .text => some .text
  | .blob => some .blob
  | .numeric => none

/-- The names of the kinds. -/
def names : List (String × FieldType) :=
  [("Integer", .integer), ("Real", .real), ("Text", .text), ("Blob", .blob),
    ("Numeric", .numeric)]

/-- The name of a kind. -/
def name : FieldType → String
  | .integer => "Integer"
  | .real => "Real"
  | .text => "Text"
  | .blob => "Blob"
  | .numeric => "Numeric"

end FieldType

/-! ## Descriptions -/

/-- **What the engine says about a column.** -/
structure ColumnDescription where
  /-- Its place among the columns. -/
  ordinal : Int64
  /-- Its name. -/
  name : String
  /-- The kind of its declared type. -/
  fieldType : FieldType
  /-- Whether it always has a value. -/
  notNull : Bool
  /-- The text of its default, if it has one. -/
  default? : Option String
  /-- Its place in the primary key from one on, or zero. -/
  keyIndex : Int64
deriving DecidableEq

/-- **What the engine says about a table.** -/
structure TableDescription where
  /-- The name of the table. -/
  name : String
  /-- Its columns; none if there is no such table. -/
  columns : List ColumnDescription
deriving DecidableEq

namespace TableDescription

/-- Whether there is such a table. -/
def tableExists (d : TableDescription) : Bool := !d.columns.isEmpty

/-- The column of a name. -/
def column? (d : TableDescription) (name : String) : Option ColumnDescription :=
  d.columns.find? fun c => c.name == name

end TableDescription

/-! ## Asking the engine -/

namespace Row

/-- An integer in a place. -/
def integer (r : Row) (index : Nat) : Except ValueError Int64 := do
  match ← r.cell index with
  | .integer n => return n
  | other => throw (.typeMismatch .integer other.storageClass)

/-- A text in a place, which may be missing; any other value as it is
shown. -/
def optionalText (r : Row) (index : Nat) : Except ValueError (Option String) := do
  match ← r.cell index with
  | .null => return none
  | other => return some other.shown

end Row

/-- Reads a column off a row of the engine's listing. -/
def ColumnDescription.ofRow (r : Row) : Except ValueError ColumnDescription := do
  return {
    ordinal := ← r.integer 0
    name := (← r.optionalText 1).getD ""
    fieldType := .ofDeclared ((← r.optionalText 2).getD "")
    notNull := (← r.integer 3) != 0
    default? := ← r.optionalText 4
    keyIndex := ← r.integer 5 }

/-- **Asks the engine about a table.** -/
def Engine.describe (e : Engine) (table : String) : Run TableDescription := do
  let query := Query.raw (Sql.words "PRAGMA table_info" ++ Sql.parenthesized (Sql.name ⟨table⟩))
  let columns ← query.collect e .none fun c =>
    (ColumnDescription.ofRow c.row).mapError Error.value
  return { name := table, columns }

/-! ## Descriptions as JSON -/

/-- The names of the storage classes. -/
def StorageClass.names : List (String × StorageClass) :=
  [("Null", .null), ("Integer", .integer), ("Real", .real), ("Text", .text), ("Blob", .blob)]

/-- The name of a storage class. -/
def StorageClass.name : StorageClass → String
  | .null => "Null"
  | .integer => "Integer"
  | .real => "Real"
  | .text => "Text"
  | .blob => "Blob"

namespace ColumnDescription

/-- A column as JSON. -/
def toJson (c : ColumnDescription) : Json :=
  .ofMembers [("ordinal", .integer c.ordinal.toInt), ("name", .text c.name),
    ("field_type", .text c.fieldType.name), ("not_null", .bool c.notNull),
    ("default_value", c.default?.elim .null .text), ("pk_index", .integer c.keyIndex.toInt)]

/-- **Reads a column off JSON.** Only the default may be left out, and only
of an object. -/
def ofJson? (v : Json) : Option ColumnDescription := do
  match ← v.fields? ["ordinal", "name", "field_type", "not_null", "default_value",
      "pk_index"] with
  | [some ordinal, some name, some fieldType, some notNull, default?, some keyIndex] =>
    let value? ← match default? with
      | some value => value.optional? Json.string?
      | none => if v.isArray then none else some none
    return {
      ordinal := ← ordinal.int64?
      name := ← name.string?
      fieldType := ← fieldType.variant? FieldType.names
      notNull := ← notNull.bool?
      default? := value?
      keyIndex := ← keyIndex.int64? }
  | _ => none

end ColumnDescription

namespace TableDescription

/-- A table as JSON. -/
def toJson (d : TableDescription) : Json :=
  .ofMembers [("name", .text d.name), ("columns", .array (d.columns.map (·.toJson)))]

/-- **Reads a table off JSON.** -/
def ofJson? (v : Json) : Option TableDescription := do
  match ← v.fields? ["name", "columns"] with
  | [some name, some columns] =>
    return {
      name := ← name.string?
      columns := ← columns.list? ColumnDescription.ofJson? }
  | _ => none

end TableDescription

namespace EngineConfig

/-- A configuration as JSON. -/
def toJson (c : EngineConfig) : Json := .ofMembers [("log_query_plans", .bool c.logQueryPlans)]

/-- **Reads a configuration off JSON.** What is left out is as usual. -/
def ofJson? (v : Json) : Option EngineConfig := do
  match ← v.fields? ["log_query_plans"] with
  | [some plans] => return { logQueryPlans := ← plans.bool? }
  | _ => return {}

end EngineConfig

end TypedSql

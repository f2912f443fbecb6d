import TypedSql.Schema.Table
import TypedSql.Text.Uppercase

/-!
# Tables of records

A record type describes a table: its fields are the columns, and attributes
on the type and on the fields say what else is to be said. `Record.plan?`
reads the attributes and gives the plan of the table – its name and, for
every field, the column with its settings – or the first attribute that
cannot be read.

The settings of a column stand in a fixed order, whatever the order of the
attributes. A table that is given no name takes that of the type, with its
words set apart and in small letters.
-/

namespace TypedSql

/-! ## Records -/

/-- **An item of an attribute.** -/
inductive AttributeItem where
  /-- A word alone. -/
  | flag (key : String)
  /-- A word with a value, which is a text or something else. -/
  | assignment (key : String) (text? : Option String)
deriving DecidableEq, Repr

/-- **An attribute**: its items, or nothing when it has no parentheses. -/
abbrev Attribute := Option (List AttributeItem)

/-- **The shapes of a type.** -/
inductive RecordShape where
  /-- Fields with names. -/
  | named
  /-- Fields without names, or none at all. -/
  | unnamed
  /-- No record. -/
  | other
deriving DecidableEq, Repr

/-- A field of a record. -/
structure RecordField where
  /-- Its name. -/
  name : String
  /-- Its attributes. -/
  attributes : List Attribute
deriving DecidableEq, Repr

/-- **A record type.** -/
structure Record where
  /-- Its name. -/
  name : String
  /-- Its shape. -/
  shape : RecordShape
  /-- The attributes about the table. -/
  attributes : List Attribute
  /-- Its fields. -/
  fields : List RecordField
deriving DecidableEq, Repr

/-! ## Refusals -/

/-- **Why a record describes no table.** -/
inductive RecordError where
  /-- There is no such attribute of a table. -/
  | unsupportedTableAttribute
  /-- There is no such attribute of a column. -/
  | unsupportedColumnAttribute
  /-- An attribute of a table without parentheses. -/
  | missingParentheses
  /-- A word that needs a value has none. -/
  | missingValue
  /-- A word that takes no value has one. -/
  | unexpectedValue
  /-- A value is no text. -/
  | notText
  /-- The fields have no names. -/
  | unnamedFields
  /-- The type is no record. -/
  | notRecord
deriving DecidableEq, Repr

/-- The cause in words. -/
def RecordError.message : RecordError → String
  | .unsupportedTableAttribute => "unsupported table attribute"
  | .unsupportedColumnAttribute => "unsupported column attribute"
  | .missingParentheses =>
    "expected attribute arguments in parentheses: #[table(...)]"
  | .missingValue => "expected `=`"
  | .unexpectedValue => "expected `,`"
  | .notText => "expected a string literal"
  | .unnamedFields => "Table derive only supports structs with named fields"
  | .notRecord => "Table derive only supports structs"

/-! ## Reading attributes -/

/-- The word of an item. -/
def AttributeItem.key : AttributeItem → String
  | .flag key => key
  | .assignment key _ => key

/-- The text that an item assigns. -/
def AttributeItem.text : AttributeItem → Except RecordError String
  | .flag _ => .error .missingValue
  | .assignment _ (some text) => .ok text
  | .assignment _ none => .error .notText

/-- The name that the items of a table attribute give, the last one if there
are several. -/
def itemsName (name? : Option String) : List AttributeItem → Except RecordError (Option String)
  | [] => .ok name?
  | i :: is =>
    if i.key = "name" then do itemsName (some (← i.text)) is
    else .error .unsupportedTableAttribute

/-- **The name that the attributes of a table give.** The first attribute
that gives one ends the reading. -/
def attributesName : List Attribute → Except RecordError (Option String)
  | [] => .ok none
  | none :: _ => .error .missingParentheses
  | some items :: as => do
    match ← itemsName none items with
    | some name => return some name
    | none => attributesName as

/-- **What the attributes of a field say.** -/
structure FieldSettings where
  /-- The name of the column. -/
  name? : Option String := none
  /-- The column is the primary key. -/
  primaryKey : Bool := false
  /-- The key is descending. -/
  desc : Bool := false
  /-- Keys are never used again. -/
  autoIncrement : Bool := false
  /-- No two rows have the same value. -/
  unique : Bool := false
  /-- How texts are compared. -/
  collation? : Option String := none
  /-- The value of a row that is given none. -/
  default? : Option String := none
  /-- There is an index. -/
  index : Bool := false
  /-- There is an index that holds no value twice. -/
  uniqueIndex : Bool := false
deriving DecidableEq, Repr

namespace FieldSettings

/-- The change that a word makes which takes no value. -/
def flag? (s : FieldSettings) (key : String) : Option FieldSettings :=
  if key = "primary_key" then some { s with primaryKey := true }
  else if key = "desc" then some { s with desc := true }
  else if key = "autoincrement" then some { s with autoIncrement := true }
  else if key = "unique" then some { s with unique := true }
  else if key = "index" then some { s with index := true }
  else if key = "unique_index" then some { s with uniqueIndex := true }
  else none

/-- The change that a word makes which takes a text. -/
def assignment? (s : FieldSettings) (key : String) : Option (String → FieldSettings) :=
  if key = "name" then some fun text => { s with name? := some text }
  else if key = "collate" then some fun text => { s with collation? := some text }
  else if key = "default" then some fun text => { s with default? := some text }
  else none

/-- **Reads an item of a field's attribute.** -/
def read (s : FieldSettings) (i : AttributeItem) : Except RecordError FieldSettings :=
  match s.flag? i.key with
  | some changed =>
    match i with
    | .flag _ => .ok changed
    | .assignment _ _ => .error .unexpectedValue
  | none =>
    match s.assignment? i.key with
    | some change => i.text.map change
    | none => .error .unsupportedColumnAttribute

/-- **Reads all attributes of a field**, item by item. One without
parentheses says nothing. -/
def ofAttributes (as : List Attribute) : Except RecordError FieldSettings :=
  (as.flatMap fun a => a.getD []).foldlM read {}

end FieldSettings

/-! ## Plans -/

/-- **A setting of a planned column.** -/
inductive ColumnSetting where
  /-- The column is the primary key. -/
  | primaryKey
  /-- The key is descending. -/
  | desc
  /-- Keys are never used again. -/
  | autoIncrement
  /-- No two rows have the same value. -/
  | unique
  /-- How texts are compared, by name. -/
  | collate (name : String)
  /-- The value of a row that is given none, as text of the language. -/
  | defaultText (sql : String)
  /-- There is an index that holds no value twice. -/
  | uniqueIndex
  /-- There is an index. -/
  | index
deriving DecidableEq, Repr

/-- The setting as a clause of a declaration. -/
def ColumnSetting.clause {c : Codec} : ColumnSetting → ColumnClause c
  | .primaryKey => .primaryKey
  | .desc => .desc
  | .autoIncrement => .autoIncrement
  | .unique => .unique
  | .collate name => .collate (.ofName name)
  | .defaultText sql => .defaultText sql
  | .uniqueIndex => .uniqueIndex
  | .index => .index

/-- **The settings in their order.** An index that is asked for in both ways
is a unique one. -/
def FieldSettings.settings (s : FieldSettings) : List ColumnSetting :=
  (if s.primaryKey then [.primaryKey] else []) ++
    (if s.desc then [.desc] else []) ++
    (if s.autoIncrement then [.autoIncrement] else []) ++
    (if s.unique then [.unique] else []) ++
    s.collation?.toList.map .collate ++
    s.default?.toList.map .defaultText ++
    (if s.uniqueIndex then [.uniqueIndex] else if s.index then [.index] else [])

/-- **A planned column.** -/
structure PlannedColumn where
  /-- The field it is for. -/
  field : String
  /-- Its name. -/
  name : String
  /-- Its settings. -/
  settings : List ColumnSetting
deriving DecidableEq, Repr

/-- **The plan of a table.** -/
structure TablePlan where
  /-- The name of the table. -/
  name : String
  /-- The name of the type that holds the table with its columns. -/
  typeName : String
  /-- The columns. -/
  columns : List PlannedColumn
deriving DecidableEq, Repr

/-- A name with its words set apart: an underscore in front of every capital
but the first character, and small letters for those of ASCII. -/
def wordsApart (name : String) : String :=
  let spell (c : Char) : List Char := if Text.isUppercase c then [c.toLower] else [c]
  String.ofList <|
    match name.toList with
    | [] => []
    | c :: cs =>
      spell c ++ cs.flatMap fun c => if Text.isUppercase c then '_' :: spell c else spell c

/-- A name without the mark that lets a keyword be a name. -/
def withoutRawMark (name : String) : String :=
  match name.toList with
  | 'r' :: '#' :: cs => String.ofList cs
  | _ => name

/-- The column that is planned for a field. -/
def RecordField.plan? (f : RecordField) : Except RecordError PlannedColumn := do
  let settings ← FieldSettings.ofAttributes f.attributes
  return { field := f.name, name := settings.name?.getD f.name, settings := settings.settings }

namespace Record

/-- **The plan of the table that a record describes.** The attributes about
the table are read first, then the shape is looked at, then the fields are
read in order. -/
def plan? (r : Record) : Except RecordError TablePlan := do
  let name? ← attributesName r.attributes
  match r.shape with
  | .unnamed => throw .unnamedFields
  | .other => throw .notRecord
  | .named =>
    let columns ← r.fields.mapM RecordField.plan?
    return {
      name := name?.getD (wordsApart r.name)
      typeName := withoutRawMark r.name ++ "Table"
      columns }

end Record

namespace TablePlan

/-- Declares planned columns one after the other, each of its codec. -/
def declareColumns (d : TableDraft) :
    List (PlannedColumn × Codec) → ExceptT ConstructionError Fresh (TableDraft × List Column)
  | [] => return (d, [])
  | (p, c) :: ps => do
    let (d, column) ← d.declareColumn p.name c (p.settings.map ColumnSetting.clause)
    let (d, columns) ← declareColumns d ps
    return (d, column :: columns)

/-- **The planned table** with its columns, whose codecs are given. -/
def declare (p : TablePlan) (codecs : List Codec) :
    ExceptT ConstructionError Fresh (Table × List Column) := do
  let (d, columns) ← declareColumns { name := ⟨p.name⟩ } (p.columns.zip codecs)
  let table ← ExceptT.mk (pure d.build)
  return (table, columns)

end TablePlan

end TypedSql

import TypedSql.Expr
import TypedSql.Text.Blank

/-!
# Columns

A column is declared by a list of clauses. `ColumnDraft` is a column on the
way: each clause changes it, a clause that makes no sense is noted and the
first such note decides, and `ColumnDraft.finish?` gives the column or that
refusal. What the clauses say beyond the column itself – a foreign key, an
index, checks – is kept in the draft for the table.

A column is an expression as well, the one with the column's own identity.
-/

namespace TypedSql

/-! ## Constraints -/

/-- **A primary key on one column.** -/
structure KeyClause where
  /-- The direction, if one was given; `true` is descending. -/
  descending? : Option Bool := none
  /-- What to do when a key is taken. -/
  onConflict : OnConflict := .unspecified
  /-- Whether keys are never used again. -/
  autoIncrement : Bool := false
deriving DecidableEq, Repr

/-- **A constraint of a column**, in the order of the definition. -/
inductive ColumnConstraint where
  /-- The column is the primary key. -/
  | primaryKey (key : KeyClause)
  /-- No two rows have the same value. -/
  | unique (onConflict : OnConflict)
  /-- How its texts are compared. -/
  | collate (collation : Collation)
deriving DecidableEq, Repr

namespace ColumnConstraint

/-- The key clause of a constraint that is one. -/
def key? : ColumnConstraint → Option KeyClause
  | .primaryKey key => some key
  | _ => none

/-- Whether the constraint is a primary key. -/
def isPrimaryKey (c : ColumnConstraint) : Bool := c.key?.isSome

/-- Whether the constraint is UNIQUE. -/
def isUnique : ColumnConstraint → Bool
  | .unique _ => true
  | _ => false

/-- The collation of a constraint that gives one. -/
def collation? : ColumnConstraint → Option Collation
  | .collate c => some c
  | _ => none

/-- The constraint as written behind the column. -/
def sql : ColumnConstraint → Sql
  | .primaryKey key =>
    Sql.words " PRIMARY KEY" ++
      Sql.words (match key.descending? with
        | none => ""
        | some true => " DESC"
        | some false => " ASC") ++
      Sql.words key.onConflict.clause ++
      Sql.words (if key.autoIncrement then " AUTOINCREMENT" else "")
  | .unique onConflict => Sql.words " UNIQUE" ++ Sql.words onConflict.clause
  | .collate (.custom name) => Sql.words " COLLATE " ++ Sql.verbatim name
  | .collate collation => Sql.words " COLLATE " ++ Sql.words collation.sql

end ColumnConstraint

/-! ## Columns -/

/-- **A column of a table.** -/
structure Column where
  /-- Its identity as an expression. -/
  id : ExprId
  /-- The table it was declared in. -/
  table : Identifier
  /-- Its name. -/
  name : Identifier
  /-- The codec of its values. -/
  codec : Codec
  /-- Its constraints. -/
  constraints : List ColumnConstraint
  /-- The value that a row has when none is given. -/
  default? : Option Sql

namespace Column

/-- The term of a column. -/
def term (c : Column) : Term := .column c.table c.name

/-- **A column as an expression.** -/
def expr (c : Column) : Expr :=
  { id := c.id, term := c.term, offered := c.codec, codec := c.codec }

/-- Table and column with a point between them, without quotes. -/
def qualifiedName (c : Column) : String := c.table.name ++ "." ++ c.name.name

/-- The primary key clause of the column. -/
def key? (c : Column) : Option KeyClause := c.constraints.findSome? ColumnConstraint.key?

/-- Whether the column is declared to be the primary key. -/
def isPrimaryKey (c : Column) : Bool := c.constraints.any ColumnConstraint.isPrimaryKey

/-- Whether the column is declared UNIQUE. -/
def isUnique (c : Column) : Bool := c.constraints.any ColumnConstraint.isUnique

/-- The collation of the column. -/
def collation? (c : Column) : Option Collation :=
  c.constraints.findSome? ColumnConstraint.collation?

/-- Whether the column stands for the row number: an integer that is
declared to be the primary key and not to be descending. -/
def isRowidAlias (c : Column) : Bool :=
  c.codec.isInteger && c.key?.any fun key => key.descending? != some true

/-- Whether the column can be left without a value. One that stands for the
row number is filled in. -/
def isNullable (c : Column) : Bool := c.codec.isNullable || c.isRowidAlias

/-- **Whether two columns are the same**: table, name and codec agree. -/
def same (a b : Column) : Bool :=
  a.table == b.table && a.name == b.name && a.codec.identity == b.codec.identity

/-- The column as written in the definition of its table. -/
def sql (c : Column) : Sql :=
  Sql.name c.name ++ Sql.words (" " ++ c.codec.storageClass.sql) ++
    Sql.words (if c.codec.isNullable then "" else " NOT NULL") ++
    c.constraints.flatMap ColumnConstraint.sql ++
    (match c.default? with
      | none => []
      | some value => Sql.words " DEFAULT " ++ value)

end Column

/-! ## Checks -/

/-- **A condition that every row meets.** Its text is stored with the table,
so it holds no placeholders. -/
structure Check where
  /-- The name of the condition. -/
  name : Identifier
  /-- Its text. -/
  condition : Sql
  /-- There is nothing to bind in it. -/
  slots_nil : condition.slots = []

namespace Check

/-- A check of the given name, unless its condition has placeholders. -/
def of? (name : String) (condition : Term) : Except ConstructionError Check :=
  if h : condition.sql.slots = [] then .ok ⟨⟨name⟩, condition.sql, h⟩
  else .error (.unexpectedBindArgument .check name condition.sql.text)

/-- The check as written in the definition of its table. -/
def sql (c : Check) : Sql :=
  Sql.words "CONSTRAINT " ++ Sql.name c.name ++ Sql.words " CHECK " ++
    Sql.parenthesized c.condition

end Check

/-! ## Declaring a column -/

/-- **A reference to a column of a table.** -/
structure Reference where
  /-- The column that is referred to. -/
  column : Column
  /-- The name of the foreign key, if it has one of its own. -/
  name? : Option String := none
  /-- What happens when the row referred to is deleted. -/
  onDelete : ForeignKeyAction := .noAction
  /-- What happens when it changes. -/
  onUpdate : ForeignKeyAction := .noAction

/-- **A clause of a column declaration**, for a column of the codec `c`. -/
inductive ColumnClause (c : Codec) where
  /-- The column is the primary key. -/
  | primaryKey
  /-- It is the primary key, in ascending order. -/
  | asc
  /-- It is the primary key, in descending order. -/
  | desc
  /-- It is the primary key, and keys are never used again. -/
  | autoIncrement
  /-- No two rows have the same value. -/
  | unique
  /-- What to do when the key before it is violated. -/
  | onConflict (choice : OnConflict)
  /-- How texts are compared. -/
  | collate (collation : Collation)
  /-- The value that a row has when none is given. -/
  | defaultValue (v : c.Value)
  /-- The same, as text of the language. -/
  | defaultText (sql : String)
  /-- The value is that of a column of another row. -/
  | references (column : Column)
  /-- What happens when the row referred to is deleted. -/
  | onDelete (action : ForeignKeyAction)
  /-- What happens when it changes. -/
  | onUpdate (action : ForeignKeyAction)
  /-- The name of the foreign key. -/
  | foreignKeyName (name : String)
  /-- There is an index on the column. -/
  | index
  /-- There is an index on the column that holds no value twice. -/
  | uniqueIndex
  /-- A condition that every row meets. -/
  | check (name : String) (condition : Term)

/-- Whether a raw default may stand without parentheses: letters, digits,
underscores, points and hyphens of ASCII only. -/
def isBareDefault (text : String) : Bool :=
  text.toList.all fun c => c.isAlphanum || c == '_' || c == '.' || c == '-'

/-- A raw default as it is written: without the blanks around it, and in
parentheses unless it may stand bare. -/
def rawDefault (sql : String) : Sql :=
  let trimmed := Text.trim sql
  if isBareDefault trimmed then Sql.verbatim trimmed
  else Sql.parenthesized (Sql.verbatim trimmed)

/-- **A column on the way**, of the codec `c`. -/
structure ColumnDraft (c : Codec) where
  /-- Its identity as an expression. -/
  id : ExprId
  /-- The table it is declared in. -/
  table : Identifier
  /-- Its name. -/
  name : Identifier
  /-- The constraints so far. -/
  constraints : List ColumnConstraint := []
  /-- The default so far. -/
  default? : Option Sql := none
  /-- The reference so far. -/
  reference? : Option Reference := none
  /-- Whether there is an index, and whether it is a unique one. -/
  index? : Option Bool := none
  /-- The checks so far. -/
  checks : List Check := []
  /-- The first clause that made no sense. -/
  error? : Option ConstructionError := none

namespace ColumnDraft

variable {c : Codec}

/-- The column as an expression, for its own checks. -/
def expr (d : ColumnDraft c) : Expr :=
  { id := d.id, term := .column d.table d.name, offered := c, codec := c }

/-- Notes a refusal, unless there is one already. -/
def refuse (d : ColumnDraft c) (e : ConstructionError) : ColumnDraft c :=
  { d with error? := d.error?.or (some e) }

/-- Notes that a constraint makes no sense. -/
def misuse (d : ColumnDraft c) (fault : ConstraintFault) : ColumnDraft c :=
  d.refuse (.invalidConstraint d.name.name fault)

/-- Applies a change to the first element that has a property, or puts a new
element at the end. -/
def updateFirst {α : Type} (change : α → Option α) (new : α) : List α → List α
  | [] => [new]
  | a :: as =>
    match change a with
    | some b => b :: as
    | none => a :: updateFirst change new as

/-- Changes the primary key clause, which is added if it is not there. -/
def changeKey (d : ColumnDraft c) (change : KeyClause → KeyClause) : ColumnDraft c :=
  { d with
    constraints := updateFirst (fun other => other.key?.map (.primaryKey ∘ change))
      (.primaryKey (change {})) d.constraints }

/-- Gives a choice to a constraint that can be violated by a taken value. -/
def withConflict (choice : OnConflict) : ColumnConstraint → Option ColumnConstraint
  | .primaryKey key => some (.primaryKey { key with onConflict := choice })
  | .unique _ => some (.unique choice)
  | .collate _ => none

/-- Applies a change to the first element that admits it, if there is one. -/
def changeFirst? {α : Type} (change : α → Option α) : List α → Option (List α)
  | [] => none
  | a :: as =>
    match change a with
    | some b => some (b :: as)
    | none => (changeFirst? change as).map (a :: ·)

/-- Changes the reference, which has to be there. -/
def changeReference (d : ColumnDraft c) (fault : ConstraintFault)
    (change : Reference → Reference) : ColumnDraft c :=
  match d.reference? with
  | none => d.misuse fault
  | some r => { d with reference? := some (change r) }

/-- **Applies a clause.** The conflict clause belongs to the last key or
UNIQUE before it; a collation takes the place of an earlier one, at the
end. -/
def apply (d : ColumnDraft c) : ColumnClause c → ColumnDraft c
  | .primaryKey => d.changeKey fun key => key
  | .asc => d.changeKey fun key => { key with descending? := some false }
  | .desc => d.changeKey fun key => { key with descending? := some true }
  | .autoIncrement =>
    if c.isInteger then d.changeKey fun key => { key with autoIncrement := true }
    else d.misuse .autoIncrementClass
  | .unique =>
    if d.constraints.any ColumnConstraint.isUnique then d
    else { d with constraints := d.constraints ++ [.unique .unspecified] }
  | .onConflict choice =>
    match changeFirst? (withConflict choice) d.constraints.reverse with
    | some constraints => { d with constraints := constraints.reverse }
    | none => d.misuse .conflictWithoutKey
  | .collate collation =>
    { d with
      constraints := d.constraints.filter (fun other => other.collation?.isNone) ++
        [.collate collation] }
  | .defaultValue v => { d with default? := some [.literal c v] }
  | .defaultText sql => { d with default? := some (rawDefault sql) }
  | .references column => { d with reference? := some { column } }
  | .onDelete action =>
    d.changeReference .deleteWithoutReference fun r => { r with onDelete := action }
  | .onUpdate action =>
    d.changeReference .updateWithoutReference fun r => { r with onUpdate := action }
  | .foreignKeyName name =>
    d.changeReference .nameWithoutReference fun r => { r with name? := some name }
  | .index => { d with index? := some (d.index?.getD false) }
  | .uniqueIndex => { d with index? := some true }
  | .check name condition =>
    match Check.of? name condition with
    | .ok check => { d with checks := d.checks ++ [check] }
    | .error e => d.refuse e

/-- The column that the draft has become. -/
def column (d : ColumnDraft c) : Column :=
  { id := d.id, table := d.table, name := d.name, codec := c,
    constraints := d.constraints, default? := d.default? }

/-- **The column, or why there is none**: the first clause that made no
sense, and only then a key that counts up and is sorted downwards. -/
def finish? (d : ColumnDraft c) : Except ConstructionError Column :=
  match d.error? with
  | some e => .error e
  | none =>
    if d.column.key?.any fun key => key.autoIncrement && key.descending? == some true then
      .error (.invalidConstraint d.name.name .autoIncrementDescending)
    else .ok d.column

end ColumnDraft

end TypedSql

import TypedSql.Schema.Column

/-!
# Tables

A table is declared column by column in a `TableDraft`. Every declaration
either goes through or is refused at once and leaves the draft as it was;
`TableDraft.build` looks at the table as a whole and gives the `Table`,
which does not change any more.

Columns belong to a table by its name. Two tables are the same when their
names are.
-/

namespace TypedSql

/-! ## Foreign keys and indices -/

/-- **A foreign key**: the values of a column are those of another one. -/
structure ForeignKey where
  /-- The name of the constraint. -/
  name : Identifier
  /-- The column that refers. -/
  column : Column
  /-- The column that is referred to. -/
  target : Column
  /-- What happens when the row referred to is deleted. -/
  onDelete : ForeignKeyAction
  /-- What happens when it changes. -/
  onUpdate : ForeignKeyAction

namespace ForeignKey

/-- The name of a foreign key that was given none. -/
def defaultName (column target : Column) : Identifier :=
  ⟨"fk_" ++ column.table.name ++ "_" ++ column.name.name ++ "_" ++ target.name.name⟩

/-- An action behind its event, unless it is to do nothing. -/
def actionSql (event : String) (action : ForeignKeyAction) : Sql :=
  if action = .noAction then [] else Sql.words (event ++ action.sql)

/-- The foreign key as written in the definition of its table. -/
def sql (k : ForeignKey) : Sql :=
  Sql.words "CONSTRAINT " ++ Sql.name k.name ++ Sql.words " FOREIGN KEY " ++
    Sql.parenthesized (Sql.name k.column.name) ++ Sql.words " REFERENCES " ++
    Sql.name k.target.table ++ Sql.parenthesized (Sql.name k.target.name) ++
    actionSql " ON DELETE " k.onDelete ++ actionSql " ON UPDATE " k.onUpdate

end ForeignKey

/-- **An index** on columns of a table. -/
structure Index where
  /-- Its name. -/
  name : Identifier
  /-- The table. -/
  table : Identifier
  /-- The columns, in the order in which they count. -/
  columns : List Identifier
  /-- Whether no two rows have the same values. -/
  unique : Bool
deriving DecidableEq

namespace Index

/-- The name of an index that was given none: table, columns and a word if
it is unique, with underscores between them. -/
def defaultName (table : Identifier) (columns : List Identifier) (unique : Bool) :
    Identifier :=
  ⟨table.name ++ String.join (columns.map fun c => "_" ++ c.name) ++
    (if unique then "_unique" else "")⟩

/-- The statement that makes the index. -/
def sql (i : Index) : Sql :=
  Sql.words (if i.unique then "CREATE UNIQUE INDEX IF NOT EXISTS "
    else "CREATE INDEX IF NOT EXISTS ") ++
    Sql.name i.name ++ Sql.words " ON " ++ Sql.name i.table ++
    Sql.parenthesized (Sql.names i.columns)

end Index

/-! ## Tables -/

/-- **A table.** -/
structure Table where
  /-- Its name. -/
  name : Identifier
  /-- Its columns in the order of their declaration. -/
  columns : List Column
  /-- The columns of a primary key that was declared for the table as a
  whole; none if a column is the key or there is no key. -/
  compositeKey : List Column
  /-- The foreign keys. -/
  foreignKeys : List ForeignKey
  /-- The indices. -/
  indices : List Index
  /-- The checks. -/
  checks : List Check
  /-- Whether rows are found by the key alone. -/
  withoutRowid : Bool

namespace Table

/-- Whether two tables are the same: their names are. -/
def same (s t : Table) : Bool := s.name == t.name

/-- The columns that are declared to be the key. -/
def columnKey (t : Table) : List Column := t.columns.filter Column.isPrimaryKey

/-- **The primary key**, in key order. -/
def primaryKey (t : Table) : List Column :=
  if t.columnKey.isEmpty then t.compositeKey else t.columnKey

/-- The column of a name. -/
def column? (t : Table) (name : String) : Option Column :=
  t.columns.find? fun c => c.name.name == name

/-- The place of a column in the primary key, counted from one. -/
def indexInKey? (t : Table) (c : Column) : Option Nat :=
  (t.primaryKey.findIdx? fun k => k.same c).map (· + 1)

/-- The tables that the foreign keys refer to, without the table itself, each
of them once and in the order of their names. -/
def dependsOn (t : Table) : List Identifier :=
  ((t.foreignKeys.map fun k => k.target.table).filter (· != t.name)).eraseDups.mergeSort
    fun a b => (compare a b).isLE

/-- The primary key as written in the definition of the table, if it is not
written with a column. -/
def keySql (t : Table) : List Sql :=
  if t.columnKey.isEmpty ∧ t.compositeKey ≠ [] then
    [Sql.words "CONSTRAINT " ++ Sql.name ⟨"pk_" ++ t.name.name⟩ ++
      Sql.words " PRIMARY KEY " ++
      Sql.parenthesized (Sql.names (t.compositeKey.map Column.name))]
  else []

/-- The table as it is written behind the words that make one. -/
def body (t : Table) : Sql :=
  Sql.name t.name ++ Sql.words " " ++
    Sql.parenthesized (Sql.commaList (t.columns.map Column.sql ++ t.keySql ++
      t.foreignKeys.map ForeignKey.sql ++ t.checks.map Check.sql)) ++
    Sql.words (if t.withoutRowid then " WITHOUT ROWID" else "")

/-- **The statement that makes the table.** -/
def sql (t : Table) (temporary : Bool) : Sql :=
  Sql.words (if temporary then "CREATE TEMP TABLE IF NOT EXISTS "
    else "CREATE TABLE IF NOT EXISTS ") ++ t.body

/-- The statement under which the engine keeps the table. -/
def schemaSql (t : Table) : Sql := Sql.words "CREATE TABLE " ++ t.body

end Table

/-! ## Declaring a table -/

/-- An index that may still lack a name. -/
structure IndexSpec where
  /-- The name, if one was given. -/
  name? : Option String
  /-- The columns. -/
  columns : List Identifier
  /-- Whether it is unique. -/
  unique : Bool
deriving DecidableEq

/-- The index on a table. -/
def IndexSpec.index (s : IndexSpec) (table : Identifier) : Index where
  name := (s.name?.map Identifier.mk).getD (Index.defaultName table s.columns s.unique)
  table := table
  columns := s.columns
  unique := s.unique

/-- **A table on the way.** -/
structure TableDraft where
  /-- Its name. -/
  name : Identifier
  /-- The columns so far. -/
  columns : List Column := []
  /-- The key of several columns, if one was declared. -/
  compositeKey : List Column := []
  /-- The foreign keys so far. -/
  foreignKeys : List ForeignKey := []
  /-- The indices so far. -/
  indices : List IndexSpec := []
  /-- The checks so far. -/
  checks : List Check := []
  /-- Whether rows are found by the key alone. -/
  withoutRowid : Bool := false

namespace TableDraft

/-- Whether a primary key was declared, on a column or for the table. -/
def hasKey (d : TableDraft) : Bool :=
  d.columns.any Column.isPrimaryKey || !d.compositeKey.isEmpty

/-- Whether there is a column of a name. -/
def hasColumn (d : TableDraft) (name : Identifier) : Bool :=
  d.columns.any fun c => c.name == name

/-- **Opens a column**: takes an identity for it, unless its name is
taken. -/
def openColumn (d : TableDraft) (name : String) (c : Codec) :
    ExceptT ConstructionError Fresh (ColumnDraft c) :=
  if d.hasColumn ⟨name⟩ then throw (.duplicateColumn d.name.name name)
  else do return { id := ← fresh, table := d.name, name := ⟨name⟩ }

/-- The foreign key that a column declares. -/
def foreignKey (column : Column) (r : Reference) : ForeignKey where
  name := (r.name?.map Identifier.mk).getD (ForeignKey.defaultName column r.column)
  column := column
  target := r.column
  onDelete := r.onDelete
  onUpdate := r.onUpdate

/-- **Closes a column**: adds it with all that its clauses say about the
table, unless they make no sense or declare a second primary key. -/
def closeColumn (d : TableDraft) {c : Codec} (draft : ColumnDraft c) :
    Except ConstructionError (TableDraft × Column) := do
  let column ← draft.finish?
  if column.isPrimaryKey && d.hasKey then throw (.duplicatePrimaryKey d.name.name)
  return ({ d with
    columns := d.columns ++ [column]
    foreignKeys := d.foreignKeys ++ (draft.reference?.map (foreignKey column)).toList
    indices := d.indices ++
      (draft.index?.map fun unique => IndexSpec.mk none [column.name] unique).toList
    checks := d.checks ++ draft.checks }, column)

/-- **Declares a column** with a list of clauses. -/
def declareColumn (d : TableDraft) (name : String) (c : Codec)
    (clauses : List (ColumnClause c)) :
    ExceptT ConstructionError Fresh (TableDraft × Column) := do
  let draft ← d.openColumn name c
  ExceptT.mk (pure (d.closeColumn (clauses.foldl ColumnDraft.apply draft)))

/-- A column that was declared under the table's name. -/
def ownColumn (d : TableDraft) (c : Column) : Except ConstructionError Column :=
  if c.table = d.name then .ok c else .error (.foreignColumn d.name.name c.qualifiedName)

/-- Reads the columns of a key one after the other. -/
def readKey (d : TableDraft) : List Column → List Column →
    Except ConstructionError (List Column)
  | key, [] => .ok key
  | key, c :: cs => do
    let own ← d.ownColumn c
    if key.any fun k => k.name == own.name then
      throw (.alreadyInPrimaryKey d.name.name own.name.name)
    d.readKey (key ++ [own]) cs

/-- **Declares a primary key over several columns.** -/
def declareKey (d : TableDraft) (columns : List Column) :
    Except ConstructionError TableDraft := do
  if d.hasKey then throw (.duplicatePrimaryKey d.name.name)
  let key ← d.readKey [] columns
  if key.isEmpty then throw (.invalidConstraint d.name.name .emptyKey)
  return { d with compositeKey := key }

/-- **Declares an index.** -/
def declareIndex (d : TableDraft) (name? : Option String) (columns : List Column)
    (unique : Bool) : Except ConstructionError TableDraft := do
  let own ← columns.mapM d.ownColumn
  if own.isEmpty then throw (.emptyIndex (name?.getD (d.name.name ++ "_")))
  return { d with indices := d.indices ++ [⟨name?, own.map Column.name, unique⟩] }

/-- **Declares a condition that every row meets.** -/
def declareCheck (d : TableDraft) (name : String) (condition : Term) :
    Except ConstructionError TableDraft := do
  return { d with checks := d.checks ++ [← Check.of? name condition] }

/-- Lets rows be found by the key alone. -/
def declareWithoutRowid (d : TableDraft) : TableDraft := { d with withoutRowid := true }

/-- **The table**, unless it has no columns, or lacks the key by which alone
its rows would be found. -/
def build (d : TableDraft) : Except ConstructionError Table := do
  if d.columns.isEmpty then throw (.emptyTable d.name.name)
  if d.withoutRowid && !d.hasKey then
    throw (.invalidConstraint d.name.name .rowidWithoutKey)
  return {
    name := d.name
    columns := d.columns
    compositeKey := d.compositeKey
    foreignKeys := d.foreignKeys
    indices := d.indices.map fun s => s.index d.name
    checks := d.checks
    withoutRowid := d.withoutRowid }

end TableDraft

end TypedSql

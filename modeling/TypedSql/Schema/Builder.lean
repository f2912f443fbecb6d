import TypedSql.Schema.Table

/-!
# Building a table in place

A `TableDraft` is a value, and a declaration gives another one or a refusal.
A program that declares a table has one `TableBuilder` in its hands instead.
A declaration changes it bit by bit and may be refused after any of these
changes, so that a refusal leaves what has been written by then. The builder
also keeps a mark of whether a column is the key, beside the constraints
that say so.

A program goes on after a refusal. `TableCall.runAll` is what it comes to
with a list of calls, whichever of them are refused.
-/

namespace TypedSql

/-- **A table that is built in place.** -/
structure TableBuilder where
  /-- Its name. -/
  name : Identifier
  /-- The columns so far. -/
  columns : List Column := []
  /-- Whether a column was declared to be the key. -/
  hasColumnKey : Bool := false
  /-- The key of several columns, if one was declared. -/
  compositeKey : List Column := []
  /-- The foreign keys so far. -/
  foreignKeys : List ForeignKey := []
  /-- The indices so far. -/
  indices : List IndexSpec := []
  /-- The checks so far. -/
  checks : List Check := []
  /-- Whether rows are found by the key alone. -/
  withoutRowid : Bool := false

namespace TableBuilder

/-- Whether a primary key was declared, by the mark or for the table. -/
def hasKey (b : TableBuilder) : Bool := b.hasColumnKey || !b.compositeKey.isEmpty

/-- A column that was declared under the table's name. -/
def ownColumn (b : TableBuilder) (c : Column) : Except ConstructionError Column :=
  if c.table = b.name then .ok c else .error (.foreignColumn b.name.name c.qualifiedName)

/-- The primary key that the table gets: the mark decides which. -/
def key (b : TableBuilder) : List Column :=
  if b.hasColumnKey then b.columns.filter Column.isPrimaryKey else b.compositeKey

/-- **The table**, unless it has no columns, or lacks the key by which alone
its rows would be found. -/
def build (b : TableBuilder) : Except ConstructionError Table := do
  if b.columns.isEmpty then throw (.emptyTable b.name.name)
  if b.withoutRowid && !b.hasKey then
    throw (.invalidConstraint b.name.name .rowidWithoutKey)
  return {
    name := b.name
    columns := b.columns
    compositeKey := if b.hasColumnKey then [] else b.key
    foreignKeys := b.foreignKeys
    indices := b.indices.map fun s => s.index b.name
    checks := b.checks
    withoutRowid := b.withoutRowid }

end TableBuilder

/-! ## Declarations -/

/-- **A computation that changes a builder**, takes identities from the
supply beside it, and may be refused at any point. -/
abbrev Building := ExceptT ConstructionError (StateM (TableBuilder × ExprId))

namespace Building

/-- The builder as it is. -/
def builder : Building TableBuilder := return (← get).1

/-- Changes the builder. -/
def change (f : TableBuilder → TableBuilder) : Building Unit := modify fun (b, n) => (f b, n)

/-- Takes a new identity. -/
def identity : Building ExprId := modifyGet fun (b, n) => (n, b, n + 1)

/-- What is refused by itself is refused here. -/
def accept {α : Type} : Except ConstructionError α → Building α
  | .ok a => pure a
  | .error e => throw e

/-- Refuses what the builder as it is does not admit. -/
def refuseIf (condition : TableBuilder → Bool) (cause : TableBuilder → ConstructionError) :
    Building Unit := do
  let b ← builder
  accept (if condition b then .error (cause b) else .ok ())

/-- Opens a column, for which an identity is taken. -/
def openColumn (name : String) (c : Codec) : Building (ColumnDraft c) := do
  return { id := ← identity, table := (← builder).name, name := ⟨name⟩ }

/-- Marks that a column is the key, which has to be the first one. -/
def markKey (column : Column) : Building Unit :=
  if column.isPrimaryKey then do
    refuseIf TableBuilder.hasKey fun b => .duplicatePrimaryKey b.name.name
    change fun b => { b with hasColumnKey := true }
  else pure ()

/-- **Closes a column.** The key is marked first, then what the clauses say
about the table is added, and the column last. -/
def closeColumn {c : Codec} (draft : ColumnDraft c) : Building Column := do
  let column ← accept draft.finish?
  markKey column
  change fun b => { b with foreignKeys :=
    b.foreignKeys ++ (draft.reference?.map (TableDraft.foreignKey column)).toList }
  change fun b => { b with indices :=
    b.indices ++ (draft.index?.map fun unique => IndexSpec.mk none [column.name] unique).toList }
  change fun b => { b with checks := b.checks ++ draft.checks }
  change fun b => { b with columns := b.columns ++ [column] }
  return column

/-- **Declares a column** with a list of clauses. -/
def column (name : String) (c : Codec) (clauses : List (ColumnClause c)) : Building Column := do
  refuseIf (fun b => b.columns.any fun other => other.name == ⟨name⟩)
    fun b => .duplicateColumn b.name.name name
  closeColumn (clauses.foldl ColumnDraft.apply (← openColumn name c))

/-- Reads the columns of a key one after the other. -/
def readKey : List Column → List Column → Building (List Column)
  | key, [] => pure key
  | key, c :: cs => do
    let own ← accept ((← builder).ownColumn c)
    refuseIf (fun _ => key.any fun k => k.name == own.name)
      fun b => .alreadyInPrimaryKey b.name.name own.name.name
    readKey (key ++ [own]) cs

/-- **Declares a primary key over several columns.** -/
def primaryKey (columns : List Column) : Building Unit := do
  refuseIf TableBuilder.hasKey fun b => .duplicatePrimaryKey b.name.name
  let key ← readKey [] columns
  refuseIf (fun _ => key.isEmpty) fun b => .invalidConstraint b.name.name .emptyKey
  change fun b => { b with compositeKey := key }

/-- **Declares an index**, with a name or without. -/
def index (name? : Option String) (columns : List Column) (unique : Bool) : Building Unit := do
  let own ← accept (columns.mapM (← builder).ownColumn)
  refuseIf (fun _ => own.isEmpty) fun b => .emptyIndex (name?.getD (b.name.name ++ "_"))
  change fun b => { b with indices := b.indices ++ [⟨name?, own.map Column.name, unique⟩] }

/-- **Declares a condition that every row meets.** -/
def condition (name : String) (condition : Term) : Building Unit := do
  let check ← accept (Check.of? name condition)
  change fun b => { b with checks := b.checks ++ [check] }

/-- Lets rows be found by the key alone. -/
def withoutRowid : Building Unit := change fun b => { b with withoutRowid := true }

end Building

/-! ## Runs -/

/-- **A call of a builder.** -/
inductive TableCall where
  /-- A column. -/
  | column (name : String) (c : Codec) (clauses : List (ColumnClause c))
  /-- A primary key over several columns. -/
  | primaryKey (columns : List Column)
  /-- An index, with a name or without. -/
  | index (name? : Option String) (columns : List Column) (unique : Bool)
  /-- A condition that every row meets. -/
  | check (name : String) (condition : Term)
  /-- Rows are found by the key alone. -/
  | withoutRowid

namespace TableCall

/-- **What a call does**, as far as the program can go on with it. -/
def perform : TableCall → Building Unit
  | column name c clauses => discard (Building.column name c clauses)
  | primaryKey columns => Building.primaryKey columns
  | index name? columns unique => Building.index name? columns unique
  | check name condition => Building.condition name condition
  | withoutRowid => Building.withoutRowid

/-- **A call on a builder**: what it gives, and the builder and the next
identity afterwards. -/
def call (s : TableBuilder × ExprId) (c : TableCall) :
    Except ConstructionError Unit × TableBuilder × ExprId :=
  c.perform.run.run s

/-- **What a program comes to** that makes calls one after the other, whether
they are refused or not. -/
def runAll (calls : List TableCall) (s : TableBuilder × ExprId) : TableBuilder × ExprId :=
  calls.foldl (fun s c => (call s c).2) s

end TableCall

end TypedSql

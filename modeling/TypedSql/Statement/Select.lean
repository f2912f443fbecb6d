import TypedSql.Schema.Table

/-!
# Queries

A query reads from a `Source`. A source is what it is written as behind
FROM, what is selected from it when nothing else is said, and – where it is
simply a table – that table.

A `Select` is refined clause by clause. Conditions that are given one after
the other have to hold together. Its items are what its rows are read by,
each of them once: an item that is selected a second time is still the one
selected first.

A query with a name is a source itself. Its columns are those items of the
query that have a name, and `QueryAlias.get` finds the column that an
expression of the query has become.
-/

namespace TypedSql

/-! ## Sources -/

/-- **What a query can read from.** -/
structure Source where
  /-- What is written behind FROM. -/
  tree : FromTerm
  /-- What is selected when nothing else is said. -/
  items : List Item
  /-- The table, if the source is one. -/
  table? : Option Table := none

/-- A table as a source. -/
def Table.source (t : Table) : Source where
  tree := .named t.name
  items := t.columns.map fun c => .plain c.expr
  table? := some t

/-- The items without those whose key came before, and without those whose
key is in `seen`. -/
def distinctItems (seen : List ExprId) : List Item → List Item
  | [] => []
  | i :: is =>
    if seen.contains i.key.id then distinctItems seen is
    else i :: distinctItems (i.key.id :: seen) is

/-! ## Queries -/

/-- **A query.** -/
structure Select where
  /-- What it reads from. -/
  source : FromTerm
  /-- What it selects. -/
  items : List Item
  /-- Whether equal rows are given once. -/
  isDistinct : Bool := false
  /-- The condition on rows. -/
  filter? : Option Term := none
  /-- What rows are grouped by. -/
  grouping : List Term := []
  /-- The condition on groups. -/
  having? : Option Term := none
  /-- What rows are sorted by. -/
  order : List (Term × SortOrder) := []
  /-- How many rows at most. -/
  limit? : Option UInt64 := none
  /-- How many rows are left out first. -/
  offset? : Option UInt64 := none

namespace Select

/-- **The query of some items**, or of all that a source has when there are
none. -/
def of (source : Source) (items : List Item) : Select where
  source := source.tree
  items := distinctItems [] (if items.isEmpty then source.items else items)

/-- Equal rows are given once. -/
def distinct (s : Select) : Select := { s with isDistinct := true }

/-- A condition that rows have to meet too. -/
def restrict (s : Select) (condition : Term) : Select :=
  { s with filter? := some (Term.conjoin s.filter? condition) }

/-- More that rows are grouped by. -/
def groupBy (s : Select) (terms : List Term) : Select :=
  { s with grouping := s.grouping ++ terms }

/-- A condition that groups have to meet too. -/
def having (s : Select) (condition : Term) : Select :=
  { s with having? := some (Term.conjoin s.having? condition) }

/-- One more term that rows are sorted by. -/
def orderBy (s : Select) (term : Term) (order : SortOrder) : Select :=
  { s with order := s.order ++ [(term, order)] }

/-- How many rows at most. -/
def limit (s : Select) (n : UInt64) : Select := { s with limit? := some n }

/-- How many rows are left out first. -/
def offset (s : Select) (n : UInt64) : Select := { s with offset? := some n }

/-- The query as a tree. -/
def tree (s : Select) : SelectTerm :=
  .mk s.isDistinct (s.items.map Item.entry) s.source s.filter? s.grouping s.having? s.order
    s.limit? s.offset?

/-- **The text of the query.** -/
def sql (s : Select) : Sql := s.tree.sql

end Select

/-! ## Other names for sources -/

/-- **A column under which a source offers an expression** of something
else. -/
structure OfferedColumn where
  /-- The expression it stands for. -/
  origin : ExprId
  /-- The column. -/
  expr : Expr

namespace OfferedColumn

/-- Makes a column of a source for an expression. -/
def of (source name : Identifier) (origin : ExprId) (c : Codec) : Fresh OfferedColumn := do
  return { origin, expr := ← Expr.ofTerm (.column source name) c }

/-- The columns for those items that have a name. -/
def ofItems (source : Identifier) (items : List Item) : Fresh (List OfferedColumn) :=
  (items.filterMap fun i => i.exposedName?.map fun name => (i, name)).mapM fun p =>
    of source p.2 p.1.key.id p.1.expr.offered

/-- The column for an expression, read as that expression is. -/
def find? (columns : List OfferedColumn) (e : Expr) : Option Expr :=
  (columns.find? fun c => c.origin == e.id).map fun c => { c.expr with codec := e.codec }

/-- The columns as items. -/
def items (columns : List OfferedColumn) : List Item := columns.map fun c => .plain c.expr

end OfferedColumn

/-- **A table under another name.** -/
structure TableAlias where
  /-- The table. -/
  table : Table
  /-- The other name. -/
  name : Identifier
  /-- The columns of the table under that name. -/
  columns : List (Column × Expr)

/-- Gives a table another name. -/
def Table.as (t : Table) (name : Identifier) : Fresh TableAlias := do
  let columns ← t.columns.mapM fun c => do
    return (c, ← Expr.ofTerm (.column name c.name) c.codec)
  return { table := t, name, columns }

namespace TableAlias

/-- A column of the table under its other name. -/
def get (a : TableAlias) (c : Column) : Except ConstructionError Expr :=
  match a.columns.find? fun p => p.1.same c with
  | some p => .ok { p.2 with codec := c.codec }
  | none => .error (.foreignColumn a.table.name.name c.qualifiedName)

/-- The table under its other name as a source. -/
def source (a : TableAlias) : Source where
  tree := .aliased a.table.name a.name
  items := a.columns.map fun p => .plain p.2

end TableAlias

/-- **A query with a name.** -/
structure QueryAlias where
  /-- The name. -/
  name : Identifier
  /-- The query. -/
  query : SelectTerm
  /-- The columns that the query offers under the name. -/
  columns : List OfferedColumn

/-- Gives a query a name. -/
def Select.as (s : Select) (name : Identifier) : Fresh QueryAlias := do
  return { name, query := s.tree, columns := ← OfferedColumn.ofItems name s.items }

namespace QueryAlias

/-- The column that an expression of the query has become. -/
def get (a : QueryAlias) (e : Expr) : Except ConstructionError Expr :=
  match OfferedColumn.find? a.columns e with
  | some column => .ok column
  | none => .error (.notInQueryAlias a.name.name e.sql.text)

/-- The query with its name as a source. -/
def source (a : QueryAlias) : Source where
  tree := .query a.query a.name
  items := OfferedColumn.items a.columns

end QueryAlias

end TypedSql

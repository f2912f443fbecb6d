import TypedSql.Statement.Select

/-!
# Statements that change rows

INSERT, UPDATE and DELETE. The first two take their values from
`Assignments`: a column is assigned at the place where it was named first
and has the value that it was given last. A column of another table is
refused, and the first such column decides.
-/

namespace TypedSql

/-! ## Assignments -/

/-- **The values that a statement assigns** to columns of a table. -/
structure Assignments where
  /-- The table. -/
  table : Identifier
  /-- The columns with their values. -/
  entries : List (Identifier × Term) := []
  /-- The first column that belongs to another table. -/
  error? : Option ConstructionError := none

namespace Assignments

/-- Gives a name a new value where it stands, or adds it at the end. -/
def put (name : Identifier) (value : Term) :
    List (Identifier × Term) → List (Identifier × Term)
  | [] => [(name, value)]
  | entry :: entries =>
    if entry.1 = name then (name, value) :: entries else entry :: put name value entries

/-- **Assigns a term to a column.** -/
def assign (a : Assignments) (column : Column) (value : Term) : Assignments :=
  if column.table = a.table then { a with entries := put column.name value a.entries }
  else
    { a with
      error? := a.error?.or
        (some (.foreignColumnAssignment a.table.name column.qualifiedName)) }

/-- Assigns an operand of the column's codec. -/
def set (a : Assignments) (column : Column) (value : Operand column.codec) : Assignments :=
  a.assign column value.term

/-- The assigned columns with their values, unless one was refused. -/
def finish? (a : Assignments) : Except ConstructionError (List (Identifier × Term)) :=
  match a.error? with
  | some e => .error e
  | none => .ok a.entries

end Assignments

/-! ## Statements -/

/-- **A statement that adds a row.** -/
structure Insert where
  /-- The table. -/
  table : Identifier
  /-- What to do when the row violates a constraint. -/
  onConflict : OnConflict
  /-- The columns with their values. -/
  entries : List (Identifier × Term)

namespace Insert

/-- The statement of some assignments. -/
def of? (onConflict : OnConflict) (a : Assignments) : Except ConstructionError Insert :=
  a.finish?.map fun entries => { table := a.table, onConflict, entries }

/-- **The text of the statement.** A row without values takes all its
defaults. -/
def sql (s : Insert) : Sql :=
  Sql.words (s.onConflict.insertKeyword ++ " INTO ") ++ Sql.name s.table ++
    (if s.entries.isEmpty then Sql.words " DEFAULT VALUES"
      else
        Sql.words " " ++ Sql.parenthesized (Sql.names (s.entries.map Prod.fst)) ++
          Sql.words " VALUES " ++
          Sql.parenthesized (Sql.commaList (s.entries.map fun e => e.2.sql)))

end Insert

/-- **A statement that changes rows.** -/
structure Update where
  /-- The table. -/
  table : Identifier
  /-- What to do when a row violates a constraint. -/
  onConflict : OnConflict
  /-- The columns with their values. -/
  entries : List (Identifier × Term)
  /-- Where values may come from. -/
  source? : Option FromTerm := none
  /-- The condition on the rows that are changed. -/
  filter? : Option Term := none

namespace Update

/-- The statement of some assignments, of which there has to be one. -/
def of? (onConflict : OnConflict) (a : Assignments) : Except ConstructionError Update := do
  let entries ← a.finish?
  if entries.isEmpty then throw (.noAssignments a.table.name)
  return { table := a.table, onConflict, entries }

/-- Lets values come from a source. -/
def «from» (s : Update) (source : Source) : Update := { s with source? := some source.tree }

/-- A condition that the rows have to meet too. -/
def restrict (s : Update) (condition : Term) : Update :=
  { s with filter? := some (Term.conjoin s.filter? condition) }

/-- **The text of the statement.** -/
def sql (s : Update) : Sql :=
  Sql.words (s.onConflict.updateKeyword ++ " ") ++ Sql.name s.table ++ Sql.words " SET " ++
    Sql.commaList (s.entries.map fun e => Sql.name e.1 ++ Sql.words " = " ++ e.2.sql) ++
    (match s.source? with
      | none => []
      | some source => Sql.words " FROM " ++ source.sql) ++
    Term.sqlClause " WHERE " s.filter?

end Update

/-- **A statement that deletes rows.** -/
structure Delete where
  /-- The table. -/
  table : Identifier
  /-- The condition on the rows that are deleted. -/
  filter? : Option Term := none

namespace Delete

/-- A condition that the rows have to meet too. -/
def restrict (s : Delete) (condition : Term) : Delete :=
  { s with filter? := some (Term.conjoin s.filter? condition) }

/-- **The text of the statement.** -/
def sql (s : Delete) : Sql :=
  Sql.words "DELETE FROM " ++ Sql.name s.table ++ Term.sqlClause " WHERE " s.filter?

end Delete

end TypedSql

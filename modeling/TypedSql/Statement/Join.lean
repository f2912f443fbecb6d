import TypedSql.Statement.Select

/-!
# Joins

A join starts with a source and grows by one source at a time. The
condition is given, or it is inferred: between a table and the tables that
have been joined before there has to be exactly one foreign key, in either
direction.

A query that is joined gets a name of the join's own making, counted from
zero in every join.
-/

namespace TypedSql

/-- **A link of a join.** -/
structure JoinPart where
  /-- How the source is joined. -/
  type : JoinType
  /-- What is joined. -/
  source : Source
  /-- On which condition. -/
  condition? : Option Term

/-- The link as a tree. -/
def JoinPart.tree (p : JoinPart) : JoinTerm := .mk p.type p.source.tree p.condition?

/-- **A chain of joined sources.** -/
structure Join where
  /-- The source it starts with. -/
  first : Source
  /-- What is joined to it, in order. -/
  parts : List JoinPart := []
  /-- How many queries were given names. -/
  nextAlias : Nat := 0
  /-- The query that was joined last. -/
  lastQuery? : Option QueryAlias := none

namespace Join

/-- The chain of a single source. -/
def of (source : Source) : Join := { first := source }

/-- Every table that was joined as such, as often as it was. -/
def tables (j : Join) : List Table :=
  j.first.table?.toList ++ j.parts.filterMap fun p => p.source.table?

/-- Joins a source, perhaps on a condition. -/
def push (j : Join) (type : JoinType) (source : Source) (condition? : Option Term) : Join :=
  { j with parts := j.parts ++ [{ type, source, condition? }] }

/-- **Joins a source on a condition.** -/
def on (j : Join) (source : Source) (type : JoinType) (condition : Term) : Join :=
  j.push type source (some condition)

/-- **Joins a source where two expressions are equal.** -/
def onEqual (j : Join) (source : Source) (type : JoinType) (left right : Expr) : Join :=
  j.on source type (.binary .eq left.term right.term)

/-- **Joins every row of a source.** -/
def cross (j : Join) (source : Source) : Join := j.push .cross source none

/-- The conditions under which foreign keys join two tables, the columns of
`joined` on the left. -/
def keyConditions (joined table : Table) : List Term :=
  (table.foreignKeys.filter fun k => k.target.table == joined.name).map
      (fun k => .binary .eq k.target.term k.column.term) ++
    (joined.foreignKeys.filter fun k => k.target.table == table.name).map
      fun k => .binary .eq k.column.term k.target.term

/-- The conditions under which foreign keys join a table to those joined
before, itself apart. -/
def candidates (j : Join) (table : Table) : List Term :=
  (j.tables.filter fun joined => !joined.same table).flatMap fun joined =>
    keyConditions joined table

/-- **Joins a table by its foreign key**, if there is exactly one. -/
def byForeignKey (j : Join) (type : JoinType) (table : Table) :
    Except ConstructionError Join :=
  let left := ", ".intercalate (j.tables.map fun t => t.name.name)
  match j.candidates table with
  | [] => .error (.noJoinCondition left table.name.name)
  | [condition] => .ok (j.on table.source type condition)
  | _ => .error (.ambiguousJoinCondition left table.name.name)

/-- The name of the next query that is joined. -/
def nextName (j : Join) : Identifier := ⟨"q" ++ integerText j.nextAlias⟩

/-- **Joins a query under its new name**, on a condition that may speak of
its columns. -/
def onQuery (j : Join) (type : JoinType) (query : QueryAlias) (condition : Term) : Join :=
  { j.on query.source type condition with
    nextAlias := j.nextAlias + 1
    lastQuery? := some query }

/-- Adds to the condition of the last link. -/
def andOn (j : Join) (condition : Term) : Join :=
  match j.parts.getLast? with
  | none => j
  | some last =>
    { j with
      parts := j.parts.dropLast ++
        [{ last with condition? := some (Term.conjoin last.condition? condition) }] }

/-- The chain as a tree. -/
def tree (j : Join) : FromTerm := .join j.first.tree (j.parts.map JoinPart.tree)

/-- The chain as a source: all items of its sources in order. -/
def source (j : Join) : Source where
  tree := j.tree
  items := j.first.items ++ j.parts.flatMap fun p => p.source.items

end Join

end TypedSql

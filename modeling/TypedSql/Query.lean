import TypedSql.Engine
import TypedSql.Statement.Select

/-!
# Queries and their rows

A `Query` is the text of a query with the items it selects. Its rows are
read by expression: `Query.ordinalOf?` says in which place of a row the value
of an expression stands, and a `Cursor` reads that place with the
expression's codec. An expression that was selected under a name is found by
the name and by itself; one that is found by itself is never hidden by the
other way.

When the engine is used with plans, the plan of a query is read in full
before the query is sent.
-/

namespace TypedSql

/-- **A query that can be sent.** -/
structure Query where
  /-- Its text. -/
  sql : Sql
  /-- The items it selects, none if they are not known. -/
  items : List Item

/-- The query with its text written out. -/
def Select.toQuery (s : Select) : Query := { sql := s.sql, items := s.items }

/-- The number of the last element with a property. -/
def lastIdx? {α : Type} (p : α → Bool) : List α → Option Nat
  | [] => none
  | a :: as => ((lastIdx? p as).map (· + 1)).or (if p a then some 0 else none)

namespace Query

/-- A query of which only the text is known. -/
def raw (sql : Sql) : Query := { sql, items := [] }

/-- **The place of an expression in a row.** -/
def ordinalOf? (q : Query) (e : Expr) : Option Nat :=
  (lastIdx? (fun i => i.key.id == e.id) q.items).or
    (q.items.findIdx? fun i => i.expr.id == e.id)

end Query

/-! ## Reading a row -/

/-- **A row of a query** that is being read. -/
structure Cursor where
  /-- The query. -/
  query : Query
  /-- The row. -/
  row : Row

namespace Cursor

/-- The cell of an expression. -/
def cell (c : Cursor) (e : Expr) : Except ValueError Cell :=
  match c.query.ordinalOf? e with
  | none => .error .columnNotMapped
  | some index => c.row.cell index

/-- **The value of an expression.** -/
def get (c : Cursor) (e : Expr) : Except ValueError e.codec.Value := do
  e.codec.decode (← c.cell e)

/-- The value of an expression, if it is there. -/
def getOptional (c : Cursor) (e : Expr) : Except ValueError (Option e.codec.Value) := do
  match ← c.cell e with
  | .null => return none
  | cell => return some (← e.codec.decode cell)

/-- Whether the value of an expression is missing. -/
def isNull (c : Cursor) (e : Expr) : Except ValueError Bool := return (← c.cell e).isNull

end Cursor

/-! ## Running a query -/

/-- **What is done with a row.** A reader may keep a state, and it may refuse
a row. -/
abbrev RowReader (σ β : Type) := Cursor → ExceptT Error (StateM σ) β

namespace RowReader

/-- A function as a reader, which keeps no state. -/
def ofFunction {σ β : Type} (read : Cursor → Except Error β) : RowReader σ β :=
  fun c => .mk fun state => (read c, state)

/-- A reader that puts what another one reads behind what was read before. -/
def collecting {σ β : Type} (map : RowReader σ β) : RowReader (σ × List β) Unit :=
  fun c => .mk fun (state, values) =>
    match (map c).run.run state with
    | (.ok b, state) => (.ok (), state, values ++ [b])
    | (.error cause, state) => (.error cause, state, values)

end RowReader

namespace Query

/-- **Reads the plan of a query** to its end. -/
def readPlan (q : Query) (e : Engine) (arguments : List Argument) : Run Unit := do
  let plan ← e.sendQuery ("EXPLAIN QUERY PLAN " ++ q.sql.text) arguments
  Engine.handOver (fun _ => pure ()) plan

/-- **Sends the query** with the arguments that a binder gives it. -/
def send (q : Query) (e : Engine) (binder : Binder) : Run Rows := do
  let arguments ← Engine.bound (q.sql.bind binder)
  if e.config.logQueryPlans then q.readPlan e arguments
  e.sendQuery q.sql.text arguments

/-- **Hands every row to a reader**, in order, up to the first that it
refuses. -/
def visit {σ : Type} (q : Query) (e : Engine) (binder : Binder) (act : RowReader σ Unit)
    (state : σ) : StateM (List Call) (Except Error Unit × σ) := do
  match ← (q.send e binder).run with
  | .error cause => return (.error cause, state)
  | .ok rows => return (Engine.handOver (fun row => act ⟨q, row⟩) rows).run.run state

/-- **Collects what a reader makes of all rows**, each of which has to be
read. -/
def collectWith {σ β : Type} (q : Query) (e : Engine) (binder : Binder) (map : RowReader σ β)
    (state : σ) : StateM (List Call) (Except Error (List β) × σ) := do
  let (result, state, values) ← q.visit e binder map.collecting (state, [])
  return (result.map fun _ => values, state)

/-- **Hands the first row to a reader**, if there is one. No other row is
read. -/
def firstWith {σ β : Type} (q : Query) (e : Engine) (binder : Binder) (map : RowReader σ β)
    (state : σ) : StateM (List Call) (Except Error (Option β) × σ) := do
  match ← (q.send e binder).run with
  | .error cause => return (.error cause, state)
  | .ok rows =>
    match rows.next with
    | .error text => return (.error (.executor text), state)
    | .ok none => return (.ok none, state)
    | .ok (some (row, _)) =>
      let (result, state) := (map ⟨q, row⟩).run.run state
      return (result.map some, state)

/-- Reads rows by a function up to the first that is refused; what was read,
and the error that ended the reading if there was one. -/
def forEach {β : Type} (q : Query) (e : Engine) (binder : Binder)
    (read : Cursor → Except Error β) : StateM (List Call) (List β × Option Error) := do
  let map : RowReader Unit β := .ofFunction read
  let (result, _, values) ← q.visit e binder map.collecting ((), [])
  match result with
  | .ok () => return (values, none)
  | .error cause => return (values, some cause)

/-- All rows, read by a function. -/
def collect {β : Type} (q : Query) (e : Engine) (binder : Binder)
    (read : Cursor → Except Error β) : Run (List β) := .mk do
  let (result, ()) ← q.collectWith e binder (.ofFunction read) ()
  return result

/-- The first row, read by a function. -/
def first {β : Type} (q : Query) (e : Engine) (binder : Binder)
    (read : Cursor → Except Error β) : Run (Option β) := .mk do
  let (result, ()) ← q.firstWith e binder (.ofFunction read) ()
  return result

/-- An integer in the first place of a row. -/
def firstInteger (c : Cursor) : Except Error Int64 :=
  match c.row.cell 0 with
  | .ok (.integer n) => .ok n
  | .ok other => .error (.value (.typeMismatch .integer other.storageClass))
  | .error cause => .error (.value cause)

/-- **The integer that the query gives**, in the first place of its first
row. -/
def integer (q : Query) (e : Engine) (binder : Binder) : Run Int64 := do
  match ← q.first e binder firstInteger with
  | some n => return n
  | none => throw (.noRows q.sql.text)

/-! ## Counting -/

/-- What a query that counts begins with. -/
def countHead : String := "SELECT COUNT(*)"

/-- Whether the text of a query begins with a count, blanks and the case of
letters aside. -/
def beginsWithCount (text : String) : Bool :=
  let cs := Text.dropBlanks text.toList
  let head := countHead.toList
  (cs.take head.length).map Char.toUpper == head

/-- **The query that counts the rows of a query.** One that begins with a
count is taken for it. -/
def countSql (q : Query) : Sql :=
  if beginsWithCount q.sql.text then q.sql
  else Sql.words (countHead ++ " FROM ( ") ++ q.sql ++ Sql.words " )"

/-- **Counts the rows.** -/
def count (q : Query) (e : Engine) (binder : Binder) : Run Int64 :=
  (raw q.countSql).integer e binder

end Query

end TypedSql

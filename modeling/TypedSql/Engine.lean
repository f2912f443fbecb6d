import TypedSql.Statement.Bindings

/-!
# The engine

The library sends text and arguments to an engine and gets counts and rows
back. An `Engine` is what answers: it may keep whatever state it likes, and
since its state can only come from what it was asked, its answers are
functions of the calls so far, the present one included.

A computation that uses an engine is a `Run`: it extends the list of calls,
and it may fail; the calls that it made before it failed stay on the list.
-/

namespace TypedSql

/-! ## Rows -/

/-- **A row** of a result. Its columns may have names. -/
structure Row where
  /-- The names of the columns, as far as they have some. -/
  names : List String
  /-- The cells. -/
  cells : List Cell
deriving DecidableEq

namespace Row

/-- How many cells the row has. -/
def width (r : Row) : Nat := r.cells.length

/-- The name of a column. -/
def name? (r : Row) (index : Nat) : Option String := r.names[index]?

/-- The cell in a place. -/
def cell? (r : Row) (index : Nat) : Option Cell := r.cells[index]?

/-- The cell in a place, which has to be there. -/
def cell (r : Row) (index : Nat) : Except ValueError Cell :=
  match r.cell? index with
  | some c => .ok c
  | none => .error (.missingColumn index)

end Row

/-- **The rows of a result** as they are read one after the other, and
whether reading on fails after the last of them. -/
structure Rows where
  /-- The rows. -/
  rows : List Row
  /-- What goes wrong behind the last row, if something does. -/
  failure? : Option String := none
deriving DecidableEq

namespace Rows

/-- **Reads the next row**: the row with what is left to read, nothing at the
end, or a failure. -/
def next (r : Rows) : Except String (Option (Row × Rows)) :=
  match r.rows, r.failure? with
  | row :: rows, _ => .ok (some (row, { r with rows }))
  | [], none => .ok none
  | [], some text => .error text

/-- Reading a row leaves one less. -/
theorem length_of_next {r rest : Rows} {row : Row} (h : r.next = .ok (some (row, rest))) :
    rest.rows.length < r.rows.length := by
  rcases r with ⟨rows, failure⟩
  cases rows <;> cases failure <;> simp [next] at h ⊢ <;> simp [← h.2]

end Rows

/-- **Rows kept in memory**, of which some have been read. -/
structure MemoryRows where
  /-- The rows that are left. -/
  left : List Row
deriving DecidableEq

namespace MemoryRows

/-- Rows of cells under common column names. -/
def ofCells (names : List String) (rows : List (List Cell)) : MemoryRows :=
  ⟨rows.map fun cells => { names, cells }⟩

/-- Reads the next row, if there is one. -/
def next (m : MemoryRows) : Option Row × MemoryRows :=
  match m.left with
  | [] => (none, m)
  | r :: rs => (some r, ⟨rs⟩)

/-- How many rows are left. -/
def remaining (m : MemoryRows) : Nat := m.left.length

end MemoryRows

/-! ## Calls -/

/-- **The two kinds of calls.** -/
inductive CallKind where
  /-- A statement that gives a count. -/
  | exec
  /-- A query that gives rows. -/
  | query
deriving DecidableEq, Repr

/-- **A call of the engine.** -/
structure Call where
  /-- Its kind. -/
  kind : CallKind
  /-- The text. -/
  sql : String
  /-- The arguments. -/
  arguments : List Argument
deriving DecidableEq

/-- **How an engine is used.** -/
structure EngineConfig where
  /-- Whether the engine is asked for its plan before every query. -/
  logQueryPlans : Bool := false
deriving DecidableEq, Repr

/-- The configuration with plans asked for or not. -/
def EngineConfig.withQueryPlans (_ : EngineConfig) (enabled : Bool) : EngineConfig :=
  { logQueryPlans := enabled }

/-- **An engine**: what it answers to the last call of a list, given all the
calls before. -/
structure Engine where
  /-- The answer to a statement: how many rows it changed, or a failure. -/
  exec : List Call → Except String UInt64
  /-- The answer to a query: its rows, or a failure. -/
  query : List Call → Except String Rows
  /-- How it is used. -/
  config : EngineConfig := {}

/-- **A computation that uses an engine.** -/
abbrev Run := ExceptT Error (StateM (List Call))

namespace Engine

/-- Puts a call on the list and gives the list. -/
def record (kind : CallKind) (sql : String) (arguments : List Argument) : Run (List Call) :=
  modifyGet fun calls =>
    let calls := calls ++ [{ kind, sql, arguments }]
    (calls, calls)

/-- The answer of an engine, its failure as an error. -/
def answer {α : Type} : Except String α → Run α
  | .ok a => pure a
  | .error text => throw (.executor text)

/-- Sends a statement. -/
def sendExec (e : Engine) (sql : String) (arguments : List Argument) : Run UInt64 := do
  answer (e.exec (← record .exec sql arguments))

/-- Sends a query. -/
def sendQuery (e : Engine) (sql : String) (arguments : List Argument) : Run Rows := do
  answer (e.query (← record .query sql arguments))

/-- **Hands the rows of a result over**, one after the other to the end. An
action may keep a state of its own; the first row that it refuses, or a row
that cannot be read, ends the reading. -/
def handOver {σ : Type} (act : Row → ExceptT Error (StateM σ) Unit) (rows : Rows) :
    ExceptT Error (StateM σ) Unit :=
  match _h : rows.next with
  | .error text => throw (.executor text)
  | .ok none => pure ()
  | .ok (some (row, rest)) => do
    act row
    handOver act rest
termination_by rows.rows.length
decreasing_by exact Rows.length_of_next _h

/-- An error in the binding as an error of the whole. -/
def bound {α : Type} : Except BindingError α → Run α
  | .ok a => pure a
  | .error cause => throw (.binding cause)

/-- **Runs a statement** with the arguments that a binder gives it. -/
def execute (e : Engine) (statement : Sql) (binder : Binder) : Run UInt64 := do
  let arguments ← bound (statement.bind binder)
  e.sendExec statement.text arguments

/-- Runs a statement without arguments. -/
def run (e : Engine) (statement : Sql) : Run UInt64 := e.execute statement .none

/-- Runs statements one after the other, up to the first that fails. -/
def runAll (e : Engine) (statements : List Sql) : Run Unit :=
  statements.forM fun s => do
    let _ ← e.run s

end Engine

end TypedSql

import TypedSql.Schema.Trigger

/-!
# Filling a trigger in place

A `TriggerDraft` is a value, and a statement more gives another one or a
refusal. A program that declares a trigger has one body in its hands instead.
What it does to the body is looked at first and written last, and may be
refused in between. It also gets expressions from the body, for the columns
of the changed row, and may put them wherever it likes.

A program goes on after a refusal. `TriggerCall.runAll` is what it comes to
with a list of calls, whichever of them are refused.
-/

namespace TypedSql

/-- **A computation that fills a trigger**, takes identities from the supply
beside it, and may be refused at any point. -/
abbrev Filling := ExceptT ConstructionError (StateM (TriggerDraft × ExprId))

namespace Filling

/-- The trigger as it is. -/
def draft : Filling TriggerDraft := return (← get).1

/-- Changes the trigger. -/
def change (f : TriggerDraft → TriggerDraft) : Filling Unit := modify fun (d, n) => (f d, n)

/-- What is refused by itself is refused here. -/
def accept {α : Type} : Except ConstructionError α → Filling α
  | .ok a => pure a
  | .error e => throw e

/-- What takes identities by itself takes them here. -/
def supplied {α : Type} (m : ExceptT ConstructionError Fresh α) : Filling α :=
  ExceptT.mk (StateT.mk fun (d, n) => let (result, n') := m.run.run n; (result, d, n'))

/-- **Refers to a column of the changed row.** -/
def reference (scope : RowScope) (column : Column) : Filling Expr := do
  supplied ((← draft).head.reference scope column)

/-- Text for the trigger, unless it has placeholders. -/
def stored (sql : Sql) : Filling StoredSql := do
  accept ((← draft).stored sql)

/-- **Sets the condition** under which the trigger fires. -/
def onlyWhen (condition : Term) : Filling Unit := do
  let text ← stored condition.sql
  change fun d => { d with when? := some text }

/-- **Adds a statement.** -/
def push (statement : Sql) : Filling Unit := do
  let text ← stored statement
  change fun d => { d with body := d.body ++ [text] }

/-- Adds a row, unless its assignments are refused. -/
def insert (onConflict : OnConflict) (a : Assignments) : Filling Unit := do
  let s ← accept (Insert.of? onConflict a)
  push s.sql

end Filling

/-! ## Runs -/

/-- **A call of the body of a trigger.** -/
inductive TriggerCall where
  /-- A reference to a column of the changed row. -/
  | reference (scope : RowScope) (column : Column)
  /-- The condition under which the trigger fires. -/
  | onlyWhen (condition : Term)
  /-- A statement that adds a row. -/
  | insert (onConflict : OnConflict) (a : Assignments)
  /-- A statement that changes rows. -/
  | update (s : Update)
  /-- A statement that deletes rows. -/
  | delete (s : Delete)
  /-- A query. -/
  | select (s : Select)

namespace TriggerCall

/-- **What a call does**: it may give an expression. -/
def perform : TriggerCall → Filling (Option Expr)
  | reference scope column => return some (← Filling.reference scope column)
  | onlyWhen condition => do Filling.onlyWhen condition; return none
  | insert onConflict a => do Filling.insert onConflict a; return none
  | update s => do Filling.push s.sql; return none
  | delete s => do Filling.push s.sql; return none
  | select s => do Filling.push s.sql; return none

/-- **A call on a body**: what it gives, and the body and the next identity
afterwards. -/
def call (s : TriggerDraft × ExprId) (c : TriggerCall) :
    Except ConstructionError (Option Expr) × TriggerDraft × ExprId :=
  c.perform.run.run s

/-- **What a program comes to** that makes calls one after the other, whether
they are refused or not. -/
def runAll (calls : List TriggerCall) (s : TriggerDraft × ExprId) : TriggerDraft × ExprId :=
  calls.foldl (fun s c => (call s c).2) s

end TriggerCall

end TypedSql

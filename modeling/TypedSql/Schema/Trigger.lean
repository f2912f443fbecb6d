import TypedSql.Statement.Change

/-!
# Triggers

A trigger runs statements when the rows of a table change. Its statements
may refer to the changed row before and after, as far as the event has
both, and only to columns of the trigger's own table.

The statements are stored as text, so they hold no placeholders. They are
given one by one to a `TriggerDraft`; a refused one leaves the draft as it
was.
-/

namespace TypedSql

/-- **When a trigger fires.** -/
structure TriggerHead where
  /-- The name of the trigger. -/
  name : Identifier
  /-- The table. -/
  table : Table
  /-- Before or after the change. -/
  timing : TriggerTiming
  /-- The change. -/
  event : TriggerEvent
  /-- For a change of rows, the columns that have to be named in it. -/
  updateOf : List Identifier := []
  /-- Whether the trigger goes with the connection. -/
  temporary : Bool := false
  /-- The first declaration that made no sense. -/
  error? : Option ConstructionError := none

namespace TriggerHead

/-- Lets the trigger go with the connection. -/
def makeTemporary (h : TriggerHead) : TriggerHead := { h with temporary := true }

/-- Notes a refusal, unless there is one already. -/
def refuse (h : TriggerHead) (e : ConstructionError) : TriggerHead :=
  { h with error? := h.error?.or (some e) }

/-- Adds columns up to the first that is not one of the table's. -/
def addColumns (h : TriggerHead) : List Column → TriggerHead
  | [] => h
  | c :: cs =>
    if c.table = h.table.name then
      addColumns { h with updateOf := h.updateOf ++ [c.name] } cs
    else h.refuse (.foreignColumn h.table.name.name c.qualifiedName)

/-- **Names columns that have to be changed** for the trigger to fire. -/
def onUpdateOf (h : TriggerHead) (columns : List Column) : TriggerHead :=
  if h.event = .update then h.addColumns columns
  else h.refuse (.updateOfOtherEvent h.name.name h.event.sql)

/-- **Refers to a column of the changed row.** -/
def reference (h : TriggerHead) (scope : RowScope) (column : Column) :
    ExceptT ConstructionError Fresh Expr :=
  let refuse (fault : ReferenceFault) : ExceptT ConstructionError Fresh Expr :=
    throw (.invalidTriggerReference h.name.name (scope.sql ++ "." ++ column.name.name) fault)
  if !scope.existsIn h.event then refuse (.unavailable scope.sql h.event.sql)
  else if column.table ≠ h.table.name then
    refuse (.otherTable column.table.name h.table.name.name)
  else Expr.ofTerm (.rowColumn scope column.name) column.codec

end TriggerHead

/-- **A statement or a condition that is stored**: text without
placeholders. -/
structure StoredSql where
  /-- The text. -/
  sql : Sql
  /-- There is nothing to bind in it. -/
  slots_nil : sql.slots = []

/-- **A trigger on the way.** -/
structure TriggerDraft where
  /-- When it fires. -/
  head : TriggerHead
  /-- The condition under which it does. -/
  when? : Option StoredSql := none
  /-- What it does. -/
  body : List StoredSql := []

namespace TriggerDraft

/-- Text for the trigger, unless it has placeholders. -/
def stored (d : TriggerDraft) (sql : Sql) : Except ConstructionError StoredSql :=
  if h : sql.slots = [] then .ok ⟨sql, h⟩
  else .error (.unexpectedBindArgument .trigger d.head.name.name sql.text)

/-- **Sets the condition** under which the trigger fires. -/
def onlyWhen (d : TriggerDraft) (condition : Term) : Except ConstructionError TriggerDraft :=
  return { d with when? := some (← d.stored condition.sql) }

/-- **Adds a statement.** -/
def push (d : TriggerDraft) (statement : Sql) : Except ConstructionError TriggerDraft :=
  return { d with body := d.body ++ [← d.stored statement] }

end TriggerDraft

/-- **A trigger.** -/
structure Trigger where
  /-- When it fires. -/
  head : TriggerHead
  /-- The condition under which it does. -/
  when? : Option StoredSql
  /-- What it does. -/
  body : List StoredSql

namespace Trigger

/-- Opens the body of a trigger, unless its head makes no sense. -/
def start (h : TriggerHead) : Except ConstructionError TriggerDraft :=
  match h.error? with
  | some e => .error e
  | none => .ok { head := h }

/-- **The trigger**, unless it does nothing. -/
def finish? (d : TriggerDraft) : Except ConstructionError Trigger :=
  if d.body.isEmpty then .error (.emptyTriggerBody d.head.name.name)
  else .ok { head := d.head, when? := d.when?, body := d.body }

/-- The name of the trigger. -/
def name (t : Trigger) : Identifier := t.head.name

/-- **The statement that makes the trigger.** -/
def sql (t : Trigger) (temporary : Bool) : Sql :=
  Sql.words (if temporary || t.head.temporary then "CREATE TEMP TRIGGER IF NOT EXISTS "
    else "CREATE TRIGGER IF NOT EXISTS ") ++ Sql.name t.name ++
    Sql.words (" " ++ t.head.timing.sql ++ " " ++ t.head.event.sql) ++
    (if t.head.updateOf.isEmpty then []
      else Sql.words " OF " ++ Sql.names t.head.updateOf) ++
    Sql.words " ON " ++ Sql.name t.head.table.name ++
    (match t.when? with
      | none => []
      | some condition => Sql.words " WHEN " ++ condition.sql) ++
    Sql.words " BEGIN " ++ t.body.flatMap (fun s => s.sql ++ Sql.words "; ") ++
    Sql.words "END"

end Trigger

end TypedSql

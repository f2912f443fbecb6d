import TypedSql.Engine

/-!
# Scripted engines

An engine that answers from a script, for trying out what a computation
sends. The calls are numbered from zero. Those with certain numbers fail;
the others take their answers from two queues, one for statements and one
for queries.
-/

namespace TypedSql

/-- **The answers of a scripted engine.** -/
structure Script where
  /-- The answers to queries, in order. When there are none left, a query has
  no rows. -/
  results : List Rows := []
  /-- The answers to statements, in order. When there are none left, one row
  is changed. -/
  affected : List UInt64 := []
  /-- The numbers of the calls that fail. -/
  failing : List Nat := []
  /-- How the engine is used. -/
  config : EngineConfig := {}

namespace Script

/-- How many calls of a kind went through, of a list of calls whose first has
the number `index`. -/
def answered (s : Script) (kind : CallKind) (index : Nat) : List Call → Nat
  | [] => 0
  | c :: cs =>
    (if c.kind = kind ∧ index ∉ s.failing then 1 else 0) + s.answered kind (index + 1) cs

/-- The answer to the last call, from a queue, if the call goes through. -/
def answer {α : Type} (s : Script) (kind : CallKind) (queue : List α) (default : α)
    (calls : List Call) : Except String α :=
  let number := calls.length - 1
  if number ∈ s.failing then .error ("call " ++ integerText number ++ " failed")
  else .ok (queue[s.answered kind 0 calls.dropLast]?.getD default)

/-- **The engine of a script.** -/
def engine (s : Script) : Engine where
  exec := s.answer .exec s.affected 1
  query := s.answer .query s.results { rows := [] }
  config := s.config

end Script

/-- Rows under common names of which reading fails in front of the row with
the number `failAt`. -/
def Rows.scripted (names : List String) (rows : List (List Cell)) (failAt? : Option Nat) :
    Rows :=
  let all := rows.map fun cells => { names, cells : Row }
  match failAt? with
  | some k =>
    if k ≤ all.length then
      { rows := all.take k, failure? := some ("row " ++ integerText k ++ " failed") }
    else { rows := all }
  | none => { rows := all }

end TypedSql

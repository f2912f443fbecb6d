import TypedSql.Proofs.Statement.Placeholders
import TypedSql.Proofs.Steps
import TypedSql.Schema.TriggerBody

/-!
# A trigger through every run

What a call does to the body of a trigger is said once, by
`TriggerCall.Fills`: it gives a reference, sets the condition, adds a
statement, or is refused, and a refusal leaves the body as it is. Whatever
else is to be said about triggers follows call by call, and for every list
of calls by induction (`TriggerDraft.Reached`).
-/

namespace TypedSql

/-! ## One call

The entries of `Fills` are exclusive and complete: for each call with the
conditions under which it goes through there is one, and one for each reason to
refuse it, with the message. Behind `fills` no proof runs a call again. -/

/-- **The statement that a call adds.** -/
inductive TriggerCall.Adds : TriggerCall → Statement → Prop
  /-- A statement that adds a row, if its assignments are accepted. -/
  | insert {onConflict : OnConflict} {a : Assignments} {s : Insert} :
    Insert.of? onConflict a = .ok s → Adds (.insert onConflict a) (.insert s)
  /-- A statement that changes rows. -/
  | update (s : Update) : Adds (.update s) (.update s)
  /-- A statement that deletes rows. -/
  | delete (s : Delete) : Adds (.delete s) (.delete s)
  /-- A query. -/
  | select (s : Select) : Adds (.select s) (.select s)

namespace TriggerDraft

/-- What is said against text with placeholders. -/
def unbound (d : TriggerDraft) (sql : Sql) : ConstructionError :=
  .unexpectedBindArgument .trigger d.head.name.name sql.text

/-- What is said against a reference. -/
def unreferable (d : TriggerDraft) (scope : RowScope) (column : Column) (fault : ReferenceFault) :
    ConstructionError :=
  .invalidTriggerReference d.head.name.name (scope.sql ++ "." ++ column.name.name) fault

end TriggerDraft

/-- **What a call does** to the body of a trigger, with the next identity. -/
inductive TriggerCall.Fills (d : TriggerDraft) (n : ExprId) :
    TriggerCall → Except ConstructionError (Option Expr) × TriggerDraft × ExprId → Prop
  /-- A reference to a column of the trigger's table, in a row that its event
  has. -/
  | referred {scope : RowScope} {column : Column} : scope.existsIn d.head.event = true →
    column.table = d.head.table.name → Fills d n (.reference scope column)
      (.ok (some ⟨n, .rowColumn scope column.name, column.codec, column.codec⟩), d, n + 1)
  /-- The event has no such row. -/
  | unavailable {scope : RowScope} {column : Column} : scope.existsIn d.head.event = false →
    Fills d n (.reference scope column)
      (.error (d.unreferable scope column (.unavailable scope.sql d.head.event.sql)), d, n)
  /-- The column is another table's. -/
  | otherTable {scope : RowScope} {column : Column} : scope.existsIn d.head.event = true →
    column.table ≠ d.head.table.name → Fills d n (.reference scope column)
      (.error (d.unreferable scope column
        (.otherTable column.table.name d.head.table.name.name)), d, n)
  /-- The condition is set. -/
  | condition {t : Term} (slots_nil : t.sql.slots = []) :
    Fills d n (.onlyWhen t) (.ok none, { d with when? := some ⟨t.sql, slots_nil⟩ }, n)
  /-- The condition has placeholders. -/
  | unboundCondition {t : Term} : t.sql.slots ≠ [] →
    Fills d n (.onlyWhen t) (.error (d.unbound t.sql), d, n)
  /-- A statement is added. -/
  | statement {c : TriggerCall} {s : Statement} (slots_nil : s.sql.slots = []) : c.Adds s →
    Fills d n c (.ok none, { d with body := d.body ++ [⟨s.sql, slots_nil⟩] }, n)
  /-- The statement has placeholders. -/
  | unboundStatement {c : TriggerCall} {s : Statement} : s.sql.slots ≠ [] → c.Adds s →
    Fills d n c (.error (d.unbound s.sql), d, n)
  /-- Assignments are refused. -/
  | unassigned {onConflict : OnConflict} {a : Assignments} {e : ConstructionError} :
    Insert.of? onConflict a = .error e → Fills d n (.insert onConflict a) (.error e, d, n)

namespace Filling

variable {d : TriggerDraft} {n : ExprId}

theorem run_draft : draft.run.run (d, n) = (.ok d, d, n) := rfl

theorem run_accept_ok {α : Type} (a : α) (s : TriggerDraft × ExprId) :
    (accept (.ok a)).run.run s = (.ok a, s) := rfl

theorem run_accept_error {α : Type} (e : ConstructionError) (s : TriggerDraft × ExprId) :
    (accept (.error e : Except ConstructionError α)).run.run s = (.error e, s) := rfl

theorem run_stored {sql : Sql} (h : sql.slots = []) :
    (stored sql).run.run (d, n) = (.ok ⟨sql, h⟩, d, n) := by
  rw [stored, run_bind_of_ok run_draft, TriggerDraft.stored, dif_pos h]
  rfl

theorem run_stored_of_slots {sql : Sql} (h : sql.slots ≠ []) :
    (stored sql).run.run (d, n) = (.error (d.unbound sql), d, n) := by
  rw [stored, run_bind_of_ok run_draft, TriggerDraft.stored, dif_neg h]
  rfl

theorem run_push {sql : Sql} (h : sql.slots = []) :
    (push sql).run.run (d, n) = (.ok (), { d with body := d.body ++ [⟨sql, h⟩] }, n) := by
  rw [push, run_bind_of_ok (run_stored h)]
  rfl

theorem run_push_of_slots {sql : Sql} (h : sql.slots ≠ []) :
    (push sql).run.run (d, n) = (.error (d.unbound sql), d, n) := by
  rw [push, run_bind_of_error (run_stored_of_slots h)]

theorem run_reference (scope : RowScope) (column : Column) :
    (reference scope column).run.run (d, n) =
      (((d.head.reference scope column).run.run n).1, d,
        ((d.head.reference scope column).run.run n).2) := by
  rw [reference, run_bind_of_ok run_draft]
  rfl

end Filling

namespace TriggerCall

variable {d : TriggerDraft} {n : ExprId}

/-- A reference to a column of the trigger's table, in a row that its event
has. -/
theorem call_reference {scope : RowScope} {column : Column}
    (hrow : scope.existsIn d.head.event = true) (htable : column.table = d.head.table.name) :
    call (d, n) (.reference scope column) =
      (.ok (some ⟨n, .rowColumn scope column.name, column.codec, column.codec⟩), d, n + 1) := by
  have hreference : (d.head.reference scope column).run.run n =
      (.ok ⟨n, .rowColumn scope column.name, column.codec, column.codec⟩, n + 1) := by
    simp only [TriggerHead.reference, hrow, ne_eq, htable, not_true_eq_false, if_false]
    rfl
  have hrun := Filling.run_reference (d := d) (n := n) scope column
  rw [hreference] at hrun
  rw [call, perform, run_bind_of_ok hrun]
  rfl

/-- A reference to a row that the event does not have. -/
theorem call_reference_of_unavailable {scope : RowScope} {column : Column}
    (hrow : scope.existsIn d.head.event = false) :
    call (d, n) (.reference scope column) =
      (.error (d.unreferable scope column (.unavailable scope.sql d.head.event.sql)), d, n) := by
  have hreference : (d.head.reference scope column).run.run n =
      (.error (d.unreferable scope column (.unavailable scope.sql d.head.event.sql)), n) := by
    rw [TriggerHead.reference, hrow]
    rfl
  have hrun := Filling.run_reference (d := d) (n := n) scope column
  rw [hreference] at hrun
  rw [call, perform, run_bind_of_error hrun]

/-- A reference to another table's column. -/
theorem call_reference_of_otherTable {scope : RowScope} {column : Column}
    (hrow : scope.existsIn d.head.event = true) (htable : column.table ≠ d.head.table.name) :
    call (d, n) (.reference scope column) =
      (.error (d.unreferable scope column
        (.otherTable column.table.name d.head.table.name.name)), d, n) := by
  have hreference : (d.head.reference scope column).run.run n =
      (.error (d.unreferable scope column
        (.otherTable column.table.name d.head.table.name.name)), n) := by
    simp only [TriggerHead.reference, hrow, ne_eq, htable, not_false_eq_true, if_true]
    rfl
  have hrun := Filling.run_reference (d := d) (n := n) scope column
  rw [hreference] at hrun
  rw [call, perform, run_bind_of_error hrun]

theorem call_onlyWhen {t : Term} (h : t.sql.slots = []) :
    call (d, n) (.onlyWhen t) = (.ok none, { d with when? := some ⟨t.sql, h⟩ }, n) := by
  rw [call, perform, Filling.onlyWhen, bind_assoc, run_bind_of_ok (Filling.run_stored h)]
  rfl

theorem call_onlyWhen_of_slots {t : Term} (h : t.sql.slots ≠ []) :
    call (d, n) (.onlyWhen t) = (.error (d.unbound t.sql), d, n) := by
  rw [call, perform, Filling.onlyWhen, bind_assoc,
    run_bind_of_error (Filling.run_stored_of_slots h)]

/-- A call that adds a statement pushes its text. -/
theorem call_of_adds {c : TriggerCall} {s : Statement} (hadds : c.Adds s) :
    call (d, n) c =
      (do Filling.push s.sql; return none : Filling (Option Expr)).run.run (d, n) := by
  cases hadds with
  | insert hinsert =>
    rw [call, perform, Filling.insert, hinsert, bind_assoc,
      run_bind_of_ok (Filling.run_accept_ok _ _)]
    rfl
  | update | delete | select => rfl

theorem call_statement {c : TriggerCall} {s : Statement} (hadds : c.Adds s)
    (h : s.sql.slots = []) :
    call (d, n) c = (.ok none, { d with body := d.body ++ [⟨s.sql, h⟩] }, n) := by
  rw [call_of_adds hadds, run_bind_of_ok (Filling.run_push h)]
  rfl

theorem call_statement_of_slots {c : TriggerCall} {s : Statement} (hadds : c.Adds s)
    (h : s.sql.slots ≠ []) : call (d, n) c = (.error (d.unbound s.sql), d, n) := by
  rw [call_of_adds hadds, run_bind_of_error (Filling.run_push_of_slots h)]

/-- Assignments that are refused add no row. -/
theorem call_insert_of_error {onConflict : OnConflict} {a : Assignments} {e : ConstructionError}
    (h : Insert.of? onConflict a = .error e) :
    call (d, n) (.insert onConflict a) = (.error e, d, n) := by
  rw [call, perform, Filling.insert, h, bind_assoc,
    run_bind_of_error (Filling.run_accept_error e (d, n))]

theorem Adds.fills {c : TriggerCall} {s : Statement} (hadds : c.Adds s) :
    Fills d n c (call (d, n) c) := by
  by_cases hslots : s.sql.slots = []
  · rw [call_statement hadds hslots]
    exact .statement hslots hadds
  · rw [call_statement_of_slots hadds hslots]
    exact .unboundStatement hslots hadds

/-- **Every call does one of these things.** -/
theorem fills (d : TriggerDraft) (n : ExprId) (c : TriggerCall) : Fills d n c (call (d, n) c) := by
  cases c with
  | reference scope column =>
    cases hrow : scope.existsIn d.head.event with
    | false =>
      rw [call_reference_of_unavailable hrow]
      exact .unavailable hrow
    | true =>
      by_cases htable : column.table = d.head.table.name
      · rw [call_reference hrow htable]
        exact .referred hrow htable
      · rw [call_reference_of_otherTable hrow htable]
        exact .otherTable hrow htable
  | onlyWhen t =>
    by_cases hslots : t.sql.slots = []
    · rw [call_onlyWhen hslots]
      exact .condition hslots
    · rw [call_onlyWhen_of_slots hslots]
      exact .unboundCondition hslots
  | insert onConflict a =>
    cases hinsert : Insert.of? onConflict a with
    | error e =>
      rw [call_insert_of_error hinsert]
      exact .unassigned hinsert
    | ok s => exact (Adds.insert hinsert).fills
  | update s => exact (Adds.update s).fills
  | delete s => exact (Adds.delete s).fills
  | select s => exact (Adds.select s).fills

end TriggerCall

/-! ## Runs

Other things happen between the calls of a program, identities are taken and
other bodies are filled, and none of it touches this body. So a body that is
reached comes with any identity in each step. -/

namespace TriggerDraft

/-- **The bodies that programs come to**, when anything else is done between
the calls. -/
inductive Reached : TriggerDraft → Prop
  /-- An empty body, unless the head makes no sense. -/
  | start {h : TriggerHead} {d : TriggerDraft} : Trigger.start h = .ok d → Reached d
  /-- One more call, with identities from `n` on. -/
  | call {d : TriggerDraft} (c : TriggerCall) (n : ExprId) : Reached d →
    Reached (TriggerCall.call (d, n) c).2.1

/-- **A body of conditions and statements.** -/
structure Worded (d : TriggerDraft) : Prop where
  /-- The condition is a term. -/
  condition : ∀ w, d.when? = some w → ∃ t : Term, w.sql = t.sql
  /-- What is done are statements. -/
  body : ∀ w ∈ d.body, ∃ s : Statement, w.sql = s.sql

/-- **A call keeps a body worded.** -/
theorem Worded.call {d : TriggerDraft} (h : d.Worded) (n : ExprId) (c : TriggerCall) :
    (TriggerCall.call (d, n) c).2.1.Worded := by
  have hfills := TriggerCall.fills d n c
  generalize TriggerCall.call (d, n) c = result at hfills
  cases hfills with
  | @condition t _ => exact ⟨fun w hw => ⟨t, Option.some.inj hw ▸ rfl⟩, h.body⟩
  | @statement _ s _ _ =>
    refine ⟨h.condition, List.forall_mem_append.mpr ⟨h.body, ?_⟩⟩
    exact List.forall_mem_singleton.mpr ⟨s, rfl⟩
  | _ => exact h

/-- **Every body that is reached** is worded. -/
theorem Reached.worded {d : TriggerDraft} (hd : d.Reached) : d.Worded := by
  induction hd with
  | @start h d hstart =>
    unfold Trigger.start at hstart
    split at hstart
    · cases hstart
    · cases hstart
      exact ⟨nofun, nofun⟩
  | call c n _ ih => exact ih.call n c

end TriggerDraft

/-- **A trigger that a program built.** -/
def Trigger.Built (t : Trigger) : Prop := ∃ d : TriggerDraft, d.Reached ∧ Trigger.finish? d = .ok t

theorem Trigger.of_finish? {d : TriggerDraft} {t : Trigger} (h : finish? d = .ok t) :
    d.body ≠ [] ∧ t = ⟨d.head, d.when?, d.body⟩ := by
  unfold finish? at h
  split at h
  · cases h
  · next hbody => exact ⟨fun hnil => hbody (List.isEmpty_iff.mpr hnil), (Except.ok.inj h).symm⟩

end TypedSql

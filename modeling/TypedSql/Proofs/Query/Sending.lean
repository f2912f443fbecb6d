import TypedSql.Proofs.Steps
import TypedSql.Query

/-!
# What reaches the engine

A statement or a query is bound first and sent then. This module says which
calls an engine gets from each of the ways to run one, and what becomes of
the answers, for any engine and any calls before.

The caller who binds is a `BindScript`: it carries out operations on the
empty places one after the other, sees what comes of each, and gives up with
an error or is content. `BindScript.Binds` says what it comes to: its own
error, the first place left empty, or one argument for every place.

For the sending there is one relation for each thing that a computation does
in its turn. `Query.Sends` is about the calls: nothing, the query, the plan
alone because it went wrong, or the plan and then the query, all of them with
the same arguments. `Query.Reads` adds what is done with the rows, which is
`Query.HandsOver` where all of them are wanted and `Query.TakesFirst` where
one is enough.
-/

namespace TypedSql

/-! ## Binding -/

/-- **The operations on places.** -/
inductive BindOperation where
  /-- Binds a value to a place. -/
  | set (index : Nat) (v : HostValue)
  /-- Binds the missing value to a place. -/
  | setNull (index : Nat)
  /-- Empties all places. -/
  | clear

/-- Carries an operation out. -/
def BindOperation.apply (b : Bindings) : BindOperation → Except BindingError Bindings
  | .set index v => b.set index v
  | .setNull index => b.setNull index
  | .clear => .ok b.clear

/-- **A caller who binds arguments.** -/
inductive BindScript where
  /-- Is content. -/
  | done
  /-- Gives up. -/
  | refuse (cause : BindingError)
  /-- Looks at the places and goes on. -/
  | look (next : Bindings → BindScript)
  /-- Carries an operation out and goes on, knowing whether it was refused. An
  operation that was refused has changed nothing. -/
  | step (op : BindOperation) (next : Option BindingError → BindScript)

namespace BindScript

/-- **What a caller leaves behind**, as a binder. -/
def run : BindScript → Binder
  | .done, b => .ok b
  | .refuse cause, _ => .error cause
  | .look next, b => (next b).run b
  | .step op next, b =>
    match op.apply b with
    | .ok changed => (next none).run changed
    | .error cause => (next (some cause)).run b

/-- **What a caller comes to** on places with given codecs. -/
inductive Binds (s : BindScript) (codecs : List Codec) :
    Except BindingError (List Argument) → Prop
  /-- The caller gives up. -/
  | refused {cause : BindingError} : s.run (.ofCodecs codecs) = .error cause →
      Binds s codecs (.error cause)
  /-- A place was left empty, and none before it. -/
  | unbound {b : Bindings} {index : Nat} : s.run (.ofCodecs codecs) = .ok b →
      b.codecs = codecs → index < codecs.length → b.isBound index = false →
      (∀ before < index, b.isBound before = true) →
      Binds s codecs (.error (.unboundArgument index))
  /-- Every place is filled. The arguments are what the places hold, in their
  order. -/
  | bound {b : Bindings} {arguments : List Argument} : s.run (.ofCodecs codecs) = .ok b →
      b.codecs = codecs → arguments.length = codecs.length →
      b.slots = codecs.zip (arguments.map some) → Binds s codecs (.ok arguments)

end BindScript

namespace Bindings

/-- An operation keeps the codecs of the places. -/
theorem codecs_apply {b changed : Bindings} {op : BindOperation} (h : op.apply b = .ok changed) :
    changed.codecs = b.codecs := by
  have of_set {index : Nat} {v : HostValue} (h : b.set index v = .ok changed) :
      changed.codecs = b.codecs := by
    unfold Bindings.set at h
    split at h
    · cases h
    · rename_i c a hc
      split at h
      · cases h
        obtain ⟨hi, hc⟩ := List.getElem?_eq_some_iff.mp hc
        refine List.ext_getElem (by simp [codecs]) fun i h₁ h₂ => ?_
        by_cases hij : index = i
        · subst hij
          simp [codecs, hc]
        · simp [codecs, List.getElem_set_ne hij]
      · cases h
  cases op with
  | set index v => exact of_set h
  | setNull index => exact of_set h
  | clear =>
    cases h
    exact codecs_clear b

/-- A caller keeps the codecs of the places. -/
theorem codecs_run (s : BindScript) {b filled : Bindings} (h : s.run b = .ok filled) :
    filled.codecs = b.codecs := by
  induction s generalizing b with
  | done =>
    cases h
    rfl
  | refuse cause => cases h
  | look next ih => exact ih b h
  | step op next ih =>
    rw [BindScript.run] at h
    split at h
    · rename_i changed hop
      rw [ih none h, codecs_apply hop]
    · exact ih _ h

/-- Reading places from the front gives all they hold or stops at the first
that is empty. -/
theorem argumentsFrom_cases (slots : List (Codec × Option Argument)) (start : Nat) :
    (∃ arguments, argumentsFrom start slots = .ok arguments ∧
        slots.map Prod.snd = arguments.map some) ∨
      ∃ index, argumentsFrom start slots = .error (.unboundArgument (start + index)) ∧
        (slots.map Prod.snd)[index]? = some none ∧
        ∀ before < index, ∃ a, (slots.map Prod.snd)[before]? = some (some a) := by
  induction slots generalizing start with
  | nil => exact .inl ⟨[], rfl, rfl⟩
  | cons slot slots ih =>
    obtain ⟨c, held⟩ := slot
    cases held with
    | none => exact .inr ⟨0, rfl, rfl, by simp⟩
    | some a =>
      obtain ⟨arguments, h, held⟩ | ⟨index, h, empty, full⟩ := ih (start + 1)
      · exact .inl ⟨a :: arguments, by simp [argumentsFrom, h, Except.map], by simp [held]⟩
      · refine .inr ⟨index + 1, ?_, by simpa using empty, ?_⟩
        · simp [argumentsFrom, h, Except.map, Nat.add_assoc, Nat.add_comm 1]
        · rintro (_ | before) hb
          · exact ⟨a, rfl⟩
          · simpa using full before (by omega)

end Bindings

/-- What a statement makes of a caller is what the caller comes to on the
statement's placeholders. -/
theorem BindScript.binds (script : BindScript) (s : Sql) :
    script.Binds s.slots (s.bind script.run) := by
  cases hrun : script.run (.ofCodecs s.slots) with
  | error cause =>
    rw [show s.bind script.run = .error cause by simp [Sql.bind, hrun, bind, Except.bind]]
    exact .refused hrun
  | ok b =>
    have hcodecs : b.codecs = s.slots := by
      rw [Bindings.codecs_run script hrun, Bindings.codecs_ofCodecs]
    have hlen : b.slots.length = s.slots.length := by
      rw [← hcodecs, Bindings.codecs, List.length_map]
    rw [show s.bind script.run = b.arguments? by simp [Sql.bind, hrun, bind, Except.bind],
      Bindings.arguments?]
    obtain ⟨arguments, h, held⟩ | ⟨index, h, empty, full⟩ := Bindings.argumentsFrom_cases b.slots 0
    · have hargs : arguments.length = s.slots.length := by
        rw [← hlen, ← List.length_map (f := some), ← held, List.length_map]
      rw [h]
      refine .bound hrun hcodecs hargs ?_
      rw [← hcodecs, ← held]
      show b.slots = (b.slots.map Prod.fst).zip (b.slots.map Prod.snd)
      exact List.zip_of_prod rfl rfl
    · rw [h, Nat.zero_add]
      refine .unbound hrun hcodecs ?_ ?_ fun before hb => ?_
      · rw [← hlen]
        simpa using (List.getElem?_eq_some_iff.mp empty).1
      · simp only [List.getElem?_map, Option.map_eq_some_iff] at empty
        obtain ⟨slot, hslot, hnone⟩ := empty
        simp [Bindings.isBound, hslot, hnone]
      · obtain ⟨a, ha⟩ := full before hb
        simp only [List.getElem?_map, Option.map_eq_some_iff] at ha
        obtain ⟨slot, hslot, hsome⟩ := ha
        simp [Bindings.isBound, hslot, hsome]

/-! ## Calls -/

namespace Engine

/-- What an engine says, its failure as an error of the whole. -/
def said {α : Type} (answer : Except String α) : Except Error α := answer.mapError .executor

theorem said_ok {α : Type} (a : α) : said (.ok a) = .ok a := rfl

/-- **What running a statement does**: nothing is sent, or the statement is. -/
inductive Executes (e : Engine) (statement : Sql) (script : BindScript) (calls : List Call) :
    Except Error UInt64 × List Call → Prop
  /-- The arguments are not there. -/
  | unbound {cause : BindingError} : script.Binds statement.slots (.error cause) →
      Executes e statement script calls (.error (.binding cause), calls)
  /-- The statement is sent with its arguments. -/
  | sent {arguments : List Argument} : script.Binds statement.slots (.ok arguments) →
      Executes e statement script calls
        (said (e.exec (calls ++ [⟨.exec, statement.text, arguments⟩])),
          calls ++ [⟨.exec, statement.text, arguments⟩])

end Engine

namespace Query

/-- The call that sends a query. -/
def call (q : Query) (arguments : List Argument) : Call := ⟨.query, q.sql.text, arguments⟩

/-- The call that asks for the plan of a query. -/
def planCall (q : Query) (arguments : List Argument) : Call :=
  ⟨.query, "EXPLAIN QUERY PLAN " ++ q.sql.text, arguments⟩

/-- **What sending a query does.** -/
inductive Sends (q : Query) (e : Engine) (script : BindScript) (calls : List Call) :
    Except Error Rows × List Call → Prop
  /-- The arguments are not there; nothing is sent. -/
  | unbound {cause : BindingError} : script.Binds q.sql.slots (.error cause) →
      Sends q e script calls (.error (.binding cause), calls)
  /-- Plans are not asked for; the query is sent. -/
  | plain {arguments : List Argument} : script.Binds q.sql.slots (.ok arguments) →
      e.config.logQueryPlans = false →
      Sends q e script calls
        (Engine.said (e.query (calls ++ [q.call arguments])), calls ++ [q.call arguments])
  /-- The engine refuses to give the plan; the query is not sent. -/
  | planRefused {arguments : List Argument} {text : String} :
      script.Binds q.sql.slots (.ok arguments) → e.config.logQueryPlans = true →
      e.query (calls ++ [q.planCall arguments]) = .error text →
      Sends q e script calls (.error (.executor text), calls ++ [q.planCall arguments])
  /-- The plan cannot be read to its end; the query is not sent. -/
  | planBroken {arguments : List Argument} {plan : Rows} {text : String} :
      script.Binds q.sql.slots (.ok arguments) → e.config.logQueryPlans = true →
      e.query (calls ++ [q.planCall arguments]) = .ok plan → plan.failure? = some text →
      Sends q e script calls (.error (.executor text), calls ++ [q.planCall arguments])
  /-- The plan is read to its end and the query is sent. -/
  | planned {arguments : List Argument} {plan : Rows} :
      script.Binds q.sql.slots (.ok arguments) → e.config.logQueryPlans = true →
      e.query (calls ++ [q.planCall arguments]) = .ok plan → plan.failure? = none →
      Sends q e script calls
        (Engine.said (e.query (calls ++ [q.planCall arguments, q.call arguments])),
          calls ++ [q.planCall arguments, q.call arguments])

/-! ## Rows

Rows come with a way in which reading them ends, and a reader may refuse one of
them. The relations say for rows of any number which of them a reader has got
and what it made of them; they are stated without the loop, and
`HandsOver.cons` is the step of the loop. -/

/-- **The rows that a reader took**, one after the other: what it made of
them, and its state before and after. -/
inductive Takes {σ β : Type} (q : Query) (map : RowReader σ β) :
    List Row → σ → List β → σ → Prop
  /-- No row. -/
  | nil {state : σ} : Takes q map [] state [] state
  /-- A row in front. -/
  | cons {row : Row} {rows : List Row} {before between after : σ} {b : β} {bs : List β} :
      (map ⟨q, row⟩).run.run before = (.ok b, between) → Takes q map rows between bs after →
      Takes q map (row :: rows) before (b :: bs) after

/-- **All rows are handed over**, up to the first that the reader refuses. -/
inductive HandsOver {σ β : Type} (q : Query) (map : RowReader σ β) (rows : Rows) (before : σ) :
    Except Error (List β) × σ → Prop
  /-- The reader took all rows. -/
  | ended {bs : List β} {after : σ} : Takes q map rows.rows before bs after →
      rows.failure? = none → HandsOver q map rows before (.ok bs, after)
  /-- The reader took all rows there are, and reading on failed. -/
  | broken {bs : List β} {after : σ} {text : String} : Takes q map rows.rows before bs after →
      rows.failure? = some text → HandsOver q map rows before (.error (.executor text), after)
  /-- The reader took some rows and refused the next one. -/
  | refused {taken left : List Row} {row : Row} {bs : List β} {between after : σ}
      {cause : Error} : rows.rows = taken ++ row :: left → Takes q map taken before bs between →
      (map ⟨q, row⟩).run.run between = (.error cause, after) →
      HandsOver q map rows before (.error cause, after)

/-- **The first row is handed over**, and no other. -/
inductive TakesFirst {σ β : Type} (q : Query) (map : RowReader σ β) (rows : Rows) (before : σ) :
    Except Error (Option β) × σ → Prop
  /-- There is a first row. -/
  | row {row : Row} {left : List Row} {result : Except Error β} {after : σ} :
      rows.rows = row :: left → (map ⟨q, row⟩).run.run before = (result, after) →
      TakesFirst q map rows before (result.map some, after)
  /-- There is no row. -/
  | ended : rows.rows = [] → rows.failure? = none → TakesFirst q map rows before (.ok none, before)
  /-- Reading the first row failed. -/
  | broken {text : String} : rows.rows = [] → rows.failure? = some text →
      TakesFirst q map rows before (.error (.executor text), before)

/-- **The integer in the first place of the first row.** -/
inductive GivesInteger (q : Query) (rows : Rows) : Except Error Int64 × Unit → Prop
  /-- It is there. -/
  | integer {row : Row} {left : List Row} {n : Int64} {cells : List Cell} :
      rows.rows = row :: left → row.cells = .integer n :: cells → GivesInteger q rows (.ok n, ())
  /-- The first place holds something else. -/
  | mismatch {row : Row} {left : List Row} {cell : Cell} {cells : List Cell} :
      rows.rows = row :: left → row.cells = cell :: cells → cell.storageClass ≠ .integer →
      GivesInteger q rows (.error (.value (.typeMismatch .integer cell.storageClass)), ())
  /-- The first row has no place. -/
  | missing {row : Row} {left : List Row} : rows.rows = row :: left → row.cells = [] →
      GivesInteger q rows (.error (.value (.missingColumn 0)), ())
  /-- There is no row. -/
  | ended : rows.rows = [] → rows.failure? = none →
      GivesInteger q rows (.error (.noRows q.sql.text), ())
  /-- Reading the first row failed. -/
  | broken {text : String} : rows.rows = [] → rows.failure? = some text →
      GivesInteger q rows (.error (.executor text), ())

/-- **What running a query does**: it is sent, and if that gives rows,
something is done with them. A query that could not be sent leaves the state
of the reader as it was. -/
inductive Reads {σ α : Type} (q : Query) (e : Engine) (script : BindScript) (calls : List Call)
    (before : σ) (use : Rows → Except Error α × σ → Prop) :
    (Except Error α × σ) × List Call → Prop
  /-- The query was not sent or not answered. -/
  | stopped {cause : Error} {sent : List Call} : Sends q e script calls (.error cause, sent) →
      Reads q e script calls before use ((.error cause, before), sent)
  /-- The rows are used. -/
  | read {rows : Rows} {sent : List Call} {outcome : Except Error α × σ} :
      Sends q e script calls (.ok rows, sent) → use rows outcome →
      Reads q e script calls before use (outcome, sent)

end Query

/-! ## Running

Each operation is first brought into the form of a step and what follows it
(`run_bind_of_ok`, `run_bind_of_error`), and then the cases are those in which
one of the steps fails. The list of calls grows only where an engine was
called, so the calls that are left in a case are those that the case says. -/

namespace Engine

variable {σ : Type}

theorem run_bound_ok (arguments : List Argument) (calls : List Call) :
    (bound (.ok arguments)).run.run calls = (.ok arguments, calls) := rfl

theorem run_bound_error (cause : BindingError) (calls : List Call) :
    (bound (.error cause : Except BindingError (List Argument))).run.run calls =
      (.error (.binding cause), calls) := rfl

theorem run_sendExec (e : Engine) (sql : String) (arguments : List Argument) (calls : List Call) :
    (e.sendExec sql arguments).run.run calls =
      (said (e.exec (calls ++ [⟨.exec, sql, arguments⟩])),
        calls ++ [⟨.exec, sql, arguments⟩]) := by
  show (answer (e.exec (calls ++ [⟨.exec, sql, arguments⟩]))).run.run _ = _
  cases e.exec (calls ++ [⟨.exec, sql, arguments⟩]) <;> rfl

theorem run_sendQuery (e : Engine) (sql : String) (arguments : List Argument) (calls : List Call) :
    (e.sendQuery sql arguments).run.run calls =
      (said (e.query (calls ++ [⟨.query, sql, arguments⟩])),
        calls ++ [⟨.query, sql, arguments⟩]) := by
  show (answer (e.query (calls ++ [⟨.query, sql, arguments⟩]))).run.run _ = _
  cases e.query (calls ++ [⟨.query, sql, arguments⟩]) <;> rfl

theorem run_handOver_nil (act : Row → ExceptT Error (StateM σ) Unit) (failure? : Option String)
    (state : σ) :
    (handOver act ⟨[], failure?⟩).run.run state =
      (failure?.elim (.ok ()) fun text => .error (.executor text), state) := by
  rw [handOver]
  cases failure? <;> rfl

/-- The first row is handed over before the others. -/
theorem handOver_cons (act : Row → ExceptT Error (StateM σ) Unit) (row : Row)
    (rows : List Row) (failure? : Option String) :
    handOver act ⟨row :: rows, failure?⟩ = act row >>= fun _ => handOver act ⟨rows, failure?⟩ := by
  rw [handOver]
  cases failure? <;> rfl

/-- Rows that nothing is done with are read to the end. -/
theorem run_handOver_pure (rows : Rows) (state : σ) :
    (handOver (fun _ => pure ()) rows).run.run state =
      (rows.failure?.elim (.ok ()) fun text => .error (.executor text), state) := by
  obtain ⟨rows, failure⟩ := rows
  induction rows with
  | nil => exact run_handOver_nil _ failure state
  | cons row rows ih => rw [handOver_cons, run_bind_of_ok (run_pure ()), ih]

/-- Running a statement. -/
theorem executes (e : Engine) (statement : Sql) (script : BindScript) (calls : List Call) :
    e.Executes statement script calls ((e.execute statement script.run).run.run calls) := by
  have hbinds := script.binds statement
  cases hbind : statement.bind script.run with
  | error cause =>
    rw [hbind] at hbinds
    rw [execute, hbind, run_bind_of_error (run_bound_error cause calls)]
    exact .unbound hbinds
  | ok arguments =>
    rw [hbind] at hbinds
    rw [execute, hbind, run_bind_of_ok (run_bound_ok arguments calls), run_sendExec]
    exact .sent hbinds

end Engine

namespace Query

/-- The plan is one call, and its rows are read to the end. -/
theorem run_readPlan (q : Query) (e : Engine) (arguments : List Argument) (calls : List Call) :
    (q.readPlan e arguments).run.run calls =
      ((Engine.said (e.query (calls ++ [q.planCall arguments]))).bind fun plan =>
          plan.failure?.elim (.ok ()) fun text => .error (.executor text),
        calls ++ [q.planCall arguments]) := by
  have hcall := e.run_sendQuery ("EXPLAIN QUERY PLAN " ++ q.sql.text) arguments calls
  change _ = (Engine.said (e.query (calls ++ [q.planCall arguments])), _) at hcall
  cases h : e.query (calls ++ [q.planCall arguments]) with
  | error text =>
    rw [h] at hcall
    exact run_bind_of_error hcall
  | ok plan =>
    rw [h] at hcall
    rw [readPlan, run_bind_of_ok hcall, Engine.run_handOver_pure]
    rfl

/-- Sending a query. -/
theorem sends (q : Query) (e : Engine) (script : BindScript) (calls : List Call) :
    q.Sends e script calls ((q.send e script.run).run.run calls) := by
  have hbinds := script.binds q.sql
  cases hbind : q.sql.bind script.run with
  | error cause =>
    rw [hbind] at hbinds
    rw [send, hbind, run_bind_of_error (Engine.run_bound_error cause calls)]
    exact .unbound hbinds
  | ok arguments =>
    rw [hbind] at hbinds
    rw [send, hbind, run_bind_of_ok (Engine.run_bound_ok arguments calls)]
    cases hplans : e.config.logQueryPlans with
    | false =>
      rw [if_neg Bool.false_ne_true, Engine.run_sendQuery]
      exact .plain hbinds hplans
    | true =>
      have hplan := q.run_readPlan e arguments calls
      rw [if_pos rfl]
      cases hanswer : e.query (calls ++ [q.planCall arguments]) with
      | error text =>
        rw [hanswer] at hplan
        rw [run_bind_of_error hplan]
        exact .planRefused hbinds hplans hanswer
      | ok plan =>
        rw [hanswer] at hplan
        cases hfailure : plan.failure? with
        | some text =>
          rw [Engine.said_ok, Except.bind, hfailure] at hplan
          rw [run_bind_of_error hplan]
          exact .planBroken hbinds hplans hanswer hfailure
        | none =>
          rw [Engine.said_ok, Except.bind, hfailure] at hplan
          rw [run_bind_of_ok hplan, Engine.run_sendQuery, List.append_assoc]
          exact .planned hbinds hplans hanswer hfailure

variable {σ β : Type} {q : Query} {map : RowReader σ β}

/-- A row that is taken goes before what is done with the others. -/
theorem HandsOver.cons {row : Row} {rows : Rows} {before between after : σ} {b : β}
    {result : Except Error (List β)} (h : (map ⟨q, row⟩).run.run before = (.ok b, between))
    (others : q.HandsOver map rows between (result, after)) :
    q.HandsOver map { rows with rows := row :: rows.rows } before
      (result.map (b :: ·), after) := by
  cases others with
  | ended taken hend => exact .ended (.cons h taken) hend
  | broken taken hbroken => exact .broken (.cons h taken) hbroken
  | refused hrows taken hrefused =>
    exact .refused (congrArg (row :: ·) hrows) (.cons h taken) hrefused

/-- Rows that are handed over to an action. -/
theorem handsOver (q : Query) (act : RowReader σ Unit) (rows : Rows) (before : σ) :
    ∃ result after, q.HandsOver act rows before (result, after) ∧
      (Engine.handOver (fun row => act ⟨q, row⟩) rows).run.run before =
        (result.map fun _ => (), after) := by
  obtain ⟨rows, failure⟩ := rows
  induction rows generalizing before with
  | nil =>
    rw [Engine.run_handOver_nil]
    cases failure with
    | none => exact ⟨_, _, .ended .nil rfl, rfl⟩
    | some text => exact ⟨_, _, .broken .nil rfl, rfl⟩
  | cons row rows ih =>
    rw [Engine.handOver_cons]
    rcases hrow : (act ⟨q, row⟩).run.run before with ⟨cause | _, between⟩
    · exact ⟨_, _, .refused (List.nil_append (row :: rows)).symm .nil hrow, run_bind_of_error hrow⟩
    · obtain ⟨result, after, hothers, hrun⟩ := ih between
      refine ⟨_, _, hothers.cons hrow, ?_⟩
      rw [run_bind_of_ok hrow, hrun]
      cases result <;> rfl

/-- What a reader makes of a row is put behind what was there; a row that is
refused leaves that alone. -/
theorem run_collecting {c : Cursor} {before after : σ × List β} {result : Except Error Unit}
    (h : (map.collecting c).run.run before = (result, after)) :
    (∃ b, (map c).run.run before.1 = (.ok b, after.1) ∧ result = .ok () ∧
        after.2 = before.2 ++ [b]) ∨
      ∃ cause, (map c).run.run before.1 = (.error cause, after.1) ∧ result = .error cause := by
  unfold RowReader.collecting StateT.run at h
  rcases hrow : (map c).run before.1 with ⟨cause | b, state⟩ <;>
    simp only [ExceptT.run_mk, hrow] at h <;> cases h
  · exact .inr ⟨cause, hrow, rfl⟩
  · exact .inl ⟨b, hrow, rfl, rfl⟩

/-- What a reader makes of rows that it took is put behind what was there. -/
theorem Takes.of_collecting {rows : List Row} {before after : σ × List β} {us : List Unit}
    (h : q.Takes map.collecting rows before us after) :
    ∃ bs, q.Takes map rows before.1 bs after.1 ∧ after.2 = before.2 ++ bs := by
  induction h with
  | nil => exact ⟨[], .nil, by simp⟩
  | cons hrow _ ih =>
    obtain ⟨bs, taken, hafter⟩ := ih
    obtain ⟨b, hb, -, hbetween⟩ | ⟨cause, -, hcause⟩ := run_collecting hrow
    · exact ⟨b :: bs, .cons hb taken, by rw [hafter, hbetween, List.append_assoc]; rfl⟩
    · cases hcause

/-- Collecting hands the same rows over. -/
theorem HandsOver.of_collecting {rows : Rows} {before : σ} {after : σ × List β}
    {result : Except Error (List Unit)}
    (h : q.HandsOver map.collecting rows (before, []) (result, after)) :
    q.HandsOver map rows before (result.map fun _ => after.2, after.1) := by
  cases h with
  | ended taken hend =>
    obtain ⟨bs, htakes, hafter⟩ := taken.of_collecting
    rw [hafter]
    exact .ended htakes hend
  | broken taken hbroken =>
    obtain ⟨bs, htakes, -⟩ := taken.of_collecting
    exact .broken htakes hbroken
  | refused hrows taken hrow =>
    obtain ⟨bs, htakes, -⟩ := taken.of_collecting
    obtain ⟨b, -, hb, -⟩ | ⟨cause, hcause, heq⟩ := run_collecting hrow
    · cases hb
    · cases heq
      exact .refused hrows htakes hcause

variable (q : Query) (e : Engine) (script : BindScript) (calls : List Call)

/-- Handing all rows to a reader. -/
theorem reads_visit (act : RowReader σ Unit) (before : σ) :
    q.Reads e script calls before
      (fun rows outcome => ∃ result, q.HandsOver act rows before (result, outcome.2) ∧
        outcome.1 = result.map fun _ => ())
      ((q.visit e script.run act before).run calls) := by
  have hsends := q.sends e script calls
  rw [visit, StateT.run_bind]
  rcases hsend : (q.send e script.run).run.run calls with ⟨cause | rows, sent⟩ <;>
    rw [hsend] at hsends
  · exact .stopped hsends
  · obtain ⟨result, after, hover, hrun⟩ := q.handsOver act rows before
    show q.Reads e script calls before _
      ((Engine.handOver (fun row => act ⟨q, row⟩) rows).run.run before, sent)
    rw [hrun]
    exact .read hsends ⟨result, hover, rfl⟩

/-- Collecting what a reader makes of all rows. -/
theorem reads_collectWith (map : RowReader σ β) (before : σ) :
    q.Reads e script calls before (q.HandsOver map · before)
      ((q.collectWith e script.run map before).run calls) := by
  have hvisit := q.reads_visit e script calls map.collecting (before, [])
  rw [collectWith, StateT.run_bind]
  generalize (q.visit e script.run map.collecting (before, [])).run calls = visited at hvisit ⊢
  cases hvisit with
  | stopped hsends => exact .stopped hsends
  | @read rows sent outcome hsends huse =>
    obtain ⟨result, hover, heq⟩ := huse
    have hcollected := hover.of_collecting
    refine .read hsends ?_
    show q.HandsOver map rows before (outcome.1.map fun _ => outcome.2.2, outcome.2.1)
    rw [heq]
    cases result <;> exact hcollected

/-- Handing the first row to a reader. -/
theorem reads_firstWith (map : RowReader σ β) (before : σ) :
    q.Reads e script calls before (q.TakesFirst map · before)
      ((q.firstWith e script.run map before).run calls) := by
  have hsends := q.sends e script calls
  rw [firstWith, StateT.run_bind]
  rcases hsend : (q.send e script.run).run.run calls with ⟨cause | ⟨rows, failure⟩, sent⟩ <;>
    rw [hsend] at hsends
  · exact .stopped hsends
  · cases rows with
    | nil =>
      cases failure with
      | none => exact .read hsends (.ended rfl rfl)
      | some text => exact .read hsends (.broken rfl rfl)
    | cons row rows => 
      cases failure <;> exact .read hsends (.row rfl rfl)

theorem GivesInteger.of_row {row : Row} {left : List Row} {rows : Rows}
    (h : rows.rows = row :: left) : q.GivesInteger rows (firstInteger ⟨q, row⟩, ()) := by
  obtain ⟨names, cells⟩ := row
  cases cells with
  | nil => exact .missing h rfl
  | cons cell cells =>
    cases cell with
    | integer n => exact .integer h rfl
    | null | real | text | blob => exact .mismatch h rfl nofun

/-- The integer that a query gives. -/
theorem reads_integer :
    q.Reads e script calls () q.GivesInteger
      (((q.integer e script.run).run.run calls).map (·, ()) id) := by
  have hfirst := q.reads_firstWith e script calls (.ofFunction firstInteger) ()
  have hrun : (q.first e script.run firstInteger).run.run calls =
      ((q.firstWith e script.run (.ofFunction firstInteger) ()).run calls).map Prod.fst id := rfl
  generalize (q.firstWith e script.run (.ofFunction firstInteger) ()).run calls = out
    at hfirst hrun
  cases hfirst with
  | stopped hsends =>
    rw [integer, run_bind_of_error hrun]
    exact .stopped hsends
  | read hsends huse =>
    cases huse with
    | row hrows hrow =>
      cases hrow
      have hgives := GivesInteger.of_row q hrows
      rename_i rows sent row left
      cases hread : firstInteger ⟨q, row⟩ with
      | error cause =>
        rw [hread] at hrun hgives
        rw [integer, run_bind_of_error hrun]
        exact .read hsends hgives
      | ok n =>
        rw [hread] at hrun hgives
        rw [integer, run_bind_of_ok hrun]
        exact .read hsends hgives
    | ended hrows hend =>
      rw [integer, run_bind_of_ok hrun]
      exact .read hsends (.ended hrows hend)
    | broken hrows hbroken =>
      rw [integer, run_bind_of_error hrun]
      exact .read hsends (.broken hrows hbroken)

theorem slots_countSql : q.countSql.slots = q.sql.slots := by
  unfold countSql
  split
  · rfl
  · simp

/-- **Nothing is sent before the arguments are there, and then the statement
is.** For every engine, every caller and every list of calls before. -/
theorem sent_once_bound {α : Type} (statement : Sql) (act : RowReader σ Unit) (map : RowReader σ β)
    (pick : RowReader σ α) (before : σ) :
    e.Executes statement script calls ((e.execute statement script.run).run.run calls) ∧
    e.Executes statement .done calls ((e.run statement).run.run calls) ∧
    q.Reads e script calls before
      (fun rows outcome => ∃ result, q.HandsOver act rows before (result, outcome.2) ∧
        outcome.1 = result.map fun _ => ())
      ((q.visit e script.run act before).run calls) ∧
    q.Reads e script calls before (q.HandsOver map · before)
      ((q.collectWith e script.run map before).run calls) ∧
    q.Reads e script calls before (q.TakesFirst pick · before)
      ((q.firstWith e script.run pick before).run calls) ∧
    q.Reads e script calls () q.GivesInteger
      (((q.integer e script.run).run.run calls).map (·, ()) id) ∧
    q.countSql.slots = q.sql.slots ∧
    (raw q.countSql).Reads e script calls () (raw q.countSql).GivesInteger
      (((q.count e script.run).run.run calls).map (·, ()) id) :=
  ⟨e.executes statement script calls, e.executes statement .done calls,
    q.reads_visit e script calls act before, q.reads_collectWith e script calls map before,
    q.reads_firstWith e script calls pick before, q.reads_integer e script calls,
    q.slots_countSql, (raw q.countSql).reads_integer e script calls⟩

end Query

end TypedSql

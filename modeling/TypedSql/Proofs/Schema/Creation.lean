import TypedSql.Proofs.Query.Sending
import TypedSql.Proofs.Schema.Built
import TypedSql.Proofs.Schema.Dependencies

/-!
# Tables are made and dropped in order

What an engine gets when tables are made or dropped, for any engine and any
calls before. Statements are sent one after the other up to the first that
the engine refuses (`Engine.RunsInOrder`). Tables are made by the statements
of each of them in the order of creation, so that whatever a table depends on
has been made when its own statement is sent, and they are dropped the other
way round (`Dependencies.createAll_dropAll`).

To tell from a call which table it makes, the name has to be read off the
text. It is the first name in it (`Table.name_eq_of_text_sql`).
-/

namespace TypedSql

/-- The call that sends a statement without arguments. -/
def Sql.call (s : Sql) : Call := ⟨.exec, s.text, []⟩

theorem Sql.text_eq_of_call_eq {s t : Sql} (h : s.call = t.call) : s.text = t.text :=
  congrArg Call.sql h

/-! ## Statements in order

An engine is a function of the calls that it has got, so the answer to a
statement may depend on all the statements before it. `Answers` says of a list
of statements that each is answered behind the others, and the first that is
refused ends the run. -/

namespace Engine

/-- **Statements are answered** one after the other, behind earlier calls. -/
def Answers (e : Engine) (calls : List Call) (statements : List Sql) : Prop :=
  ∀ pre s post, statements = pre ++ s :: post →
    ∃ count, e.exec (calls ++ (pre ++ [s]).map Sql.call) = .ok count

/-- **What sending statements in order does.** -/
inductive RunsInOrder (e : Engine) (calls : List Call) (statements : List Sql) :
    Except Error Unit × List Call → Prop
  /-- All of them are sent and answered. -/
  | all : e.Answers calls statements →
      RunsInOrder e calls statements (.ok (), calls ++ statements.map Sql.call)
  /-- The engine refuses one, and it is the last one sent. -/
  | cut {pre post : List Sql} {s : Sql} {text : String} : statements = pre ++ s :: post →
      e.Answers calls pre → e.exec (calls ++ (pre ++ [s]).map Sql.call) = .error text →
      RunsInOrder e calls statements
        (.error (.executor text), calls ++ (pre ++ [s]).map Sql.call)

/-- **A statement was carried out** by one of the calls `before`. -/
def CarriedOut (e : Engine) (calls before : List Call) (s : Sql) : Prop :=
  ∃ front back count, before = front ++ s.call :: back ∧
    e.exec (calls ++ front ++ [s.call]) = .ok count

variable {e : Engine} {calls : List Call}

theorem Answers.nil : e.Answers calls [] := fun pre _ _ h => by
  cases pre <;> cases h

/-- A statement in front. -/
theorem Answers.cons {s : Sql} {statements : List Sql} {count : UInt64}
    (hs : e.exec (calls ++ [s.call]) = .ok count)
    (h : e.Answers (calls ++ [s.call]) statements) : e.Answers calls (s :: statements) := by
  rintro (_ | ⟨first, pre⟩) s' post heq
  · obtain ⟨rfl, -⟩ := List.cons.inj heq
    exact ⟨count, hs⟩
  · obtain ⟨rfl, htail⟩ := List.cons.inj heq
    obtain ⟨n, hn⟩ := h pre s' post htail
    refine ⟨n, ?_⟩
    rwa [List.append_assoc] at hn

theorem Answers.of_append {front back : List Sql} (h : e.Answers calls (front ++ back)) :
    e.Answers calls front := fun pre s post heq =>
  h pre s (post ++ back) (by rw [heq, List.append_assoc]; rfl)

/-- **Every statement that is answered** is carried out. -/
theorem Answers.carriedOut {statements : List Sql} (h : e.Answers calls statements) {s : Sql}
    (hs : s ∈ statements) : e.CarriedOut calls (statements.map Sql.call) s := by
  obtain ⟨pre, post, rfl⟩ := List.append_of_mem hs
  obtain ⟨count, hcount⟩ := h pre s post rfl
  refine ⟨pre.map Sql.call, post.map Sql.call, count, by rw [List.map_append]; rfl, ?_⟩
  rwa [List.map_append, ← List.append_assoc] at hcount

/-- A statement in front of what runs in order. -/
theorem RunsInOrder.cons {s : Sql} {statements : List Sql} {count : UInt64}
    {result : Except Error Unit × List Call} (hs : e.exec (calls ++ [s.call]) = .ok count)
    (h : e.RunsInOrder (calls ++ [s.call]) statements result) :
    e.RunsInOrder calls (s :: statements) result := by
  cases h with
  | all hall =>
    rw [List.append_assoc]
    exact .all (.cons hs hall)
  | @cut pre post last text heq hpre hlast =>
    rw [List.append_assoc] at hlast ⊢
    exact @RunsInOrder.cut _ _ _ (s :: pre) post last text (congrArg (s :: ·) heq)
      (.cons hs hpre) hlast

/-- **A statement without placeholders** is one call. -/
theorem run_run (e : Engine) {s : Sql} (h : s.slots = []) (calls : List Call) :
    (e.run s).run.run calls = (said (e.exec (calls ++ [s.call])), calls ++ [s.call]) := by
  have hbind : s.bind .none = .ok [] := by
    rw [Sql.bind, h]
    rfl
  rw [run, execute, hbind, run_bind_of_ok (run_bound_ok [] calls), run_sendExec]
  rfl

/-- **Statements run in order**, up to the first that is refused. -/
theorem runsInOrder (e : Engine) {statements : List Sql} (h : ∀ s ∈ statements, s.slots = [])
    (calls : List Call) :
    e.RunsInOrder calls statements ((e.runAll statements).run.run calls) := by
  induction statements generalizing calls with
  | nil =>
    have hnil : e.RunsInOrder calls [] (.ok (), calls ++ [].map Sql.call) := .all .nil
    rwa [List.map_nil, List.append_nil] at hnil
  | cons s statements ih =>
    have hs := e.run_run (h s List.mem_cons_self) calls
    have hcons : e.runAll (s :: statements) = (do let _ ← e.run s) >>= fun _ =>
      e.runAll statements := rfl
    rw [hcons]
    cases hanswer : e.exec (calls ++ [s.call]) with
    | error text =>
      rw [hanswer] at hs
      rw [run_bind_of_error (run_bind_of_error hs)]
      exact @RunsInOrder.cut _ _ _ [] statements s text rfl .nil hanswer
    | ok count =>
      rw [hanswer] at hs
      have hfirst : (do let _ ← e.run s : Run Unit).run.run calls = (.ok (), calls ++ [s.call]) :=
        run_bind_of_ok hs
      rw [run_bind_of_ok hfirst]
      exact .cons hanswer (ih (fun s' hs' => h s' (List.mem_cons_of_mem s hs')) _)

/-- Running the statements of one thing after those of another is running all
of them. -/
theorem forM_runAll {α : Type} (e : Engine) (f : α → List Sql) (as : List α) :
    as.forM (fun a => e.runAll (f a)) = e.runAll (as.flatMap f) := by
  induction as with
  | nil => rfl
  | cons a as ih =>
    have hcons : (a :: as).forM (fun a => e.runAll (f a)) = e.runAll (f a) >>= fun _ =>
      as.forM fun a => e.runAll (f a) := rfl
    rw [hcons, ih, List.flatMap_cons]
    exact List.forM_append.symm

/-- **What was sent before a call** was answered. -/
theorem RunsInOrder.before_call {statements : List Sql} {result : Except Error Unit × List Call}
    (h : e.RunsInOrder calls statements result) {before later : List Call} {c : Call}
    (hresult : result.2 = calls ++ before ++ c :: later) :
    ∃ pre s post, statements = pre ++ s :: post ∧ s.call = c ∧ before = pre.map Sql.call ∧
      e.Answers calls pre := by
  have of_sent : ∀ {sent rest : List Sql}, statements = sent ++ rest →
      result.2 = calls ++ sent.map Sql.call → ∃ pre s post, sent = pre ++ s :: post ∧
        statements = pre ++ s :: (post ++ rest) ∧ s.call = c ∧ before = pre.map Sql.call := by
    intro sent rest hsent hcalls
    rw [hcalls, List.append_assoc] at hresult
    obtain ⟨pre, behind, rfl, hpre, hbehind⟩ :=
      List.map_eq_append_iff.mp (List.append_cancel_left hresult)
    obtain ⟨s, post, rfl, hs, -⟩ := List.map_eq_cons_iff.mp hbehind
    exact ⟨pre, s, post, rfl, by rw [hsent, List.append_assoc]; rfl, hs, hpre.symm⟩
  cases h with
  | all hall =>
    obtain ⟨pre, s, post, hsent, hsplit, hs, hbefore⟩ := of_sent (List.append_nil _).symm rfl
    exact ⟨pre, s, _, hsplit, hs, hbefore, .of_append (hsent ▸ hall)⟩
  | @cut front post last text heq hfront =>
    obtain ⟨pre, s, rest, hsent, hsplit, hs, hbefore⟩ :=
      of_sent (heq.trans (List.append_cons _ _ _)) rfl
    refine ⟨pre, s, _, hsplit, hs, hbefore, ?_⟩
    -- the refused statement is the last one sent, so it is not before another
    have hinit : front = pre ++ (s :: rest).dropLast := by
      rw [← @List.dropLast_concat _ front last, hsent,
        List.dropLast_append_of_ne_nil (List.cons_ne_nil s rest)]
    exact .of_append (hinit ▸ hfront)

end Engine

/-! ## Which table a call is about

Calls are texts. To say that a table was made before another one, the text of a
call has to tell which table it makes. The name is the first thing in quotes,
and doubling the quotes inside of it keeps it apart from what comes behind. -/

/-- The name in front of a boundary is read off the text. -/
theorem Identifier.eq_of_quoted_append {i j : Identifier} {xs ys : List Char}
    (hxs : Phrase.AtBoundary xs) (hys : Phrase.AtBoundary ys)
    (h : i.quoted.toList ++ xs = j.quoted.toList ++ ys) : i = j := by
  have hread : ∀ (k : Identifier) {cs : List Char}, Phrase.AtBoundary cs →
      Token.lex (k.quoted.toList ++ cs) = .name k :: Token.lex cs := by
    intro k cs hcs
    have hname := Sql.Readable.piece (Piece.bounded_of_isValue (p := .name k) trivial) cs hcs
    rwa [Sql.toList_text_singleton, Sql.tokens_singleton, Piece.tokens_name] at hname
  have htokens := congrArg Token.lex h
  rw [hread i hxs, hread j hys] at htokens
  exact Token.name.inj (List.cons.inj htokens).1

/-- **A table is named in the statement that makes it.** -/
theorem Table.name_eq_of_text_sql {s t : Table} (h : (s.sql false).text = (t.sql false).text) :
    s.name = t.name := by
  have hform : ∀ u : Table, ∃ rest, (u.sql false).text.toList =
      "CREATE TABLE IF NOT EXISTS ".toList ++ (u.name.quoted.toList ++ ' ' :: rest) := by
    intro u
    refine ⟨(Sql.parenthesized (Sql.commaList u.parts) ++
      Sql.words (if u.withoutRowid then " WITHOUT ROWID" else "")).text.toList, ?_⟩
    rw [sql, body]
    simp only [Sql.toList_text_append, List.append_assoc, Sql.words, Sql.name,
      Sql.toList_text_singleton, parts]
    rfl
  obtain ⟨xs, hs⟩ := hform s
  obtain ⟨ys, ht⟩ := hform t
  have htext := congrArg String.toList h
  rw [hs, ht] at htext
  have hboundary : ∀ rest, Phrase.AtBoundary (' ' :: rest) := fun rest c hc => by
    obtain rfl := Option.some.inj hc
    decide
  exact Identifier.eq_of_quoted_append (hboundary xs) (hboundary ys)
    (List.append_cancel_left htext)

/-- The statement of an index makes no table. -/
theorem Index.text_sql_ne (i : Index) (t : Table) : i.sql.text ≠ (t.sql false).text := by
  intro h
  have hat := congrArg (fun s : String => s.toList[7]?) h
  have htable : (t.sql false).text.toList[7]? = some 'T' := by
    rw [Table.sql, Sql.toList_text_append, Sql.words, Sql.toList_text_singleton]
    rfl
  have hindex : i.sql.text.toList[7]? = some (if i.unique then 'U' else 'I') := by
    rw [Index.sql]
    simp only [Sql.toList_text_append, List.append_assoc, Sql.words, Sql.toList_text_singleton]
    cases i.unique <;> rfl
  rw [htable, hindex] at hat
  cases hunique : i.unique <;> rw [hunique] at hat <;> revert hat <;> decide

/-- **A table is named in the statement that drops it.** -/
theorem eq_of_text_dropSql {words : String} {i j : Identifier}
    (h : (dropSql words i).text = (dropSql words j).text) : i = j := by
  have htext := congrArg String.toList h
  rw [dropSql, dropSql, Sql.toList_text_append, Sql.toList_text_append, Sql.name, Sql.name,
    Sql.toList_text_singleton, Sql.toList_text_singleton] at htext
  have hboundary : Phrase.AtBoundary [] := fun c hc => by cases hc
  refine @Identifier.eq_of_quoted_append i j [] [] hboundary hboundary ?_
  rw [List.append_nil, List.append_nil]
  exact List.append_cancel_left htext

/-! ## Tables in order

What was sent before a call was carried out (`RunsInOrder.before_call`), and
the statements of a table stand behind those of the tables it depends on. The
two together are what is wanted, for making and, with the order reversed, for
dropping. -/

namespace Dependencies

/-- A statement among those of several things is of one of them, and behind
all of those before it. -/
theorem split_flatMap {α : Type} {f : α → List Sql} {as : List α} {pre post : List Sql} {s : Sql}
    (h : as.flatMap f = pre ++ s :: post) :
    ∃ front a back, as = front ++ a :: back ∧ s ∈ f a ∧ ∀ a' ∈ front, f a' ⊆ pre := by
  induction as generalizing pre with
  | nil => cases pre <;> cases h
  | cons a as ih =>
    have later : ∀ {rest : List Sql}, pre = f a ++ rest → as.flatMap f = rest ++ s :: post →
        ∃ front a' back, a :: as = front ++ a' :: back ∧ s ∈ f a' ∧ ∀ a'' ∈ front, f a'' ⊆ pre := by
      rintro rest rfl hrest
      obtain ⟨front, a', back, rfl, hs, hfront⟩ := ih hrest
      refine ⟨a :: front, a', back, rfl, hs, List.forall_mem_cons.mpr ⟨?_, fun a'' ha'' => ?_⟩⟩
      · exact List.subset_append_left _ _
      · exact List.subset_append_of_subset_right _ (hfront a'' ha'')
    rw [List.flatMap_cons, List.append_eq_append_iff] at h
    obtain ⟨rest, hpre, hrest⟩ | ⟨mid, hmid, hpost⟩ := h
    · exact later hpre hrest
    · cases mid with
      | nil =>
        have hpre : pre = f a ++ [] := by rw [hmid, List.append_nil, List.append_nil]
        exact later hpre hpost.symm
      | cons first mid =>
        obtain ⟨rfl, -⟩ := List.cons.inj hpost
        exact ⟨[], a, as, rfl, hmid ▸ List.mem_append_right _ List.mem_cons_self, nofun⟩

/-- **What making tables does**, in a given order. -/
structure MakesInOrder (tables order : List Table) (e : Engine) (calls : List Call)
    (result : Except Error Unit × List Call) : Prop where
  /-- The statements are those of each table with those of its indices, one
  after the other up to the first that is refused. -/
  runs : e.RunsInOrder calls (order.flatMap fun t => t.sql false :: t.indices.map Index.sql) result
  /-- When a table is to be made, what it depends on has been made. -/
  made : ∀ before later, ∀ t : Table, result.2 = calls ++ before ++ (t.sql false).call :: later →
    ∀ u, Counts tables u → DependsOn tables t.name u.name → e.CarriedOut calls before (u.sql false)

/-- **What dropping tables does**, in the order that is the reverse of a
given one. -/
structure DropsInOrder (tables order : List Table) (e : Engine) (calls : List Call)
    (result : Except Error Unit × List Call) : Prop where
  /-- The tables are dropped one after the other, up to the first statement
  that is refused. -/
  runs : e.RunsInOrder calls (order.reverse.map fun t => dropSql "TABLE" t.name) result
  /-- When a table is to be dropped, what depends on it has been dropped. -/
  dropped : ∀ before later, ∀ t : Table,
    result.2 = calls ++ before ++ (dropSql "TABLE" t.name).call :: later →
    ∀ u, Counts tables u → DependsOn tables u.name t.name →
      e.CarriedOut calls before (dropSql "TABLE" u.name)

variable {tables order : List Table} {e : Engine} {calls : List Call}

/-- Statements that run in an order of the tables make them in order. -/
theorem IsOrder.makesInOrder (horder : IsOrder tables order)
    {result : Except Error Unit × List Call}
    (h : e.RunsInOrder calls (order.flatMap fun t => t.sql false :: t.indices.map Index.sql)
      result) : MakesInOrder tables order e calls result := by
  refine ⟨h, fun before later t hresult u hu hdepends => ?_⟩
  obtain ⟨pre, s, post, hsplit, hs, rfl, hpre⟩ := h.before_call hresult
  -- the call is of some table in the order, and its text tells which one
  obtain ⟨front, w, back, rfl, hmem, hfront⟩ := split_flatMap hsplit
  have htext := Sql.text_eq_of_call_eq hs
  have hname : w.name = t.name := by
    rcases List.mem_cons.mp hmem with rfl | hindex
    · exact Table.name_eq_of_text_sql htext
    · obtain ⟨i, -, rfl⟩ := List.mem_map.mp hindex
      exact absurd htext (i.text_sql_ne t)
  obtain ⟨v, hv, hvu⟩ := horder.before front w back rfl u.name (hname ▸ hdepends)
  have hcounts := (horder.mem_iff v).mp (List.mem_append_left _ hv)
  obtain rfl := hcounts.eq hu hvu
  exact hpre.carriedOut (hfront v hv List.mem_cons_self)

/-- Statements that run in the reverse of an order drop the tables in
order. -/
theorem IsOrder.dropsInOrder (horder : IsOrder tables order)
    {result : Except Error Unit × List Call}
    (h : e.RunsInOrder calls (order.reverse.map fun t => dropSql "TABLE" t.name) result) :
    DropsInOrder tables order e calls result := by
  refine ⟨h, fun before later t hresult u hu hdepends => ?_⟩
  obtain ⟨pre, s, post, hsplit, hs, rfl, hpre⟩ := h.before_call hresult
  rw [← List.flatMap_singleton' (order.reverse.map _), List.flatMap_map] at hsplit
  obtain ⟨front, w, back, hreverse, hmem, hfront⟩ := split_flatMap hsplit
  obtain rfl := List.mem_singleton.mp hmem
  have hname : w.name = t.name := eq_of_text_dropSql (Sql.text_eq_of_call_eq hs)
  -- what depends on the table stands behind it in the order of creation
  have hback : order = back.reverse ++ w :: front.reverse := by
    rw [← List.reverse_reverse order, hreverse, List.reverse_append, List.reverse_cons,
      List.append_assoc]
    rfl
  have hufront : u ∈ front := by
    have hmem : u ∈ back.reverse ++ w :: front.reverse := hback ▸ (horder.mem_iff u).mpr hu
    rcases List.mem_append.mp hmem with hbefore | hbehind
    · -- in front of the table it would stand behind it as well, for it depends on it
      obtain ⟨p, q, hsplit⟩ := List.append_of_mem hbefore
      have horder' : order = p ++ u :: (q ++ w :: front.reverse) := by
        rw [hback, hsplit, List.append_assoc]
        rfl
      obtain ⟨v, hv, hvw⟩ := horder.before p u _ horder' w.name (hname ▸ hdepends)
      have hnodup := horder.nodup
      rw [hback, List.map_append, List.nodup_append'] at hnodup
      refine absurd (List.mem_cons_self (a := w.name) (l := front.reverse.map Table.name)) ?_
      refine hnodup.2.2 (List.mem_map.mpr ⟨v, ?_, hvw⟩)
      exact hsplit ▸ List.mem_append_left _ hv
    · rcases List.mem_cons.mp hbehind with rfl | hbehind
      · exact absurd hname hdepends.1
      · exact List.mem_reverse.mp hbehind
  exact hpre.carriedOut (hfront u hufront (List.mem_singleton_self _))

/-! ## All tables -/

theorem run_ordered_ok (order : List Table) (calls : List Call) :
    (ordered (.ok order)).run.run calls = (.ok order, calls) := rfl

theorem run_ordered_error (cause : Error) (calls : List Call) :
    (ordered (.error cause)).run.run calls = (.error cause, calls) := rfl

/-- The order of dropping is the reverse of that of creation. -/
theorem dropOrder_of_ok (h : (of tables).creationOrder = .ok order) :
    (of tables).dropOrder = .ok order.reverse := by
  rw [dropOrder, h]
  rfl

theorem dropOrder_of_error {cause : Error} (h : (of tables).creationOrder = .error cause) :
    (of tables).dropOrder = .error cause := by
  rw [dropOrder, h]
  rfl

/-- **Making tables** is running the statements of one after those of another,
in the order of creation. -/
theorem run_createAll (h : (of tables).creationOrder = .ok order) :
    ((of tables).createAll e).run.run calls =
      (e.runAll (order.flatMap fun t => t.sql false :: t.indices.map Index.sql)).run.run
        calls := by
  rw [createAll, h, run_bind_of_ok (run_ordered_ok order calls), ← e.forM_runAll]
  rfl

/-- **Dropping tables** is running the statement that drops each of them, in
the reverse of that order. -/
theorem run_dropAll (h : (of tables).creationOrder = .ok order) :
    ((of tables).dropAll e).run.run calls =
      (e.runAll (order.reverse.map fun t => dropSql "TABLE" t.name)).run.run calls := by
  rw [dropAll, dropOrder_of_ok h, run_bind_of_ok (run_ordered_ok order.reverse calls),
    List.map_eq_flatMap, ← e.forM_runAll]
  rfl

/-- **Making tables** sends their statements in order, each table's in front of
those of its indices. -/
theorem runsInOrder_createAll (hbuilt : ∀ t ∈ tables, t.Built)
    (horder : (of tables).creationOrder = .ok order) (e : Engine) (calls : List Call) :
    e.RunsInOrder calls (order.flatMap fun t => t.sql false :: t.indices.map Index.sql)
      (((of tables).createAll e).run.run calls) := by
  have hisorder := isOrder_of_creationOrder horder
  rw [run_createAll horder]
  refine e.runsInOrder (fun s hs => ?_) calls
  obtain ⟨t, ht, hs⟩ := List.mem_flatMap.mp hs
  rcases List.mem_cons.mp hs with rfl | hindex
  · exact (hbuilt t ((hisorder.mem_iff t).mp ht).mem).slots_sql false
  · obtain ⟨i, -, rfl⟩ := List.mem_map.mp hindex
    exact i.slots_sql

theorem run_createAll_of_error {cause : Error} (h : (of tables).creationOrder = .error cause) :
    ((of tables).createAll e).run.run calls = (.error cause, calls) := by
  rw [createAll, h, run_bind_of_error (run_ordered_error cause calls)]

theorem run_dropAll_of_error {cause : Error} (h : (of tables).creationOrder = .error cause) :
    ((of tables).dropAll e).run.run calls = (.error cause, calls) := by
  rw [dropAll, dropOrder_of_error h, run_bind_of_error (run_ordered_error cause calls)]

/-- **All tables are made and dropped in order.** Without a cycle of
dependencies there is an order of the tables. They are made in it and dropped
in its reverse, as far as the engine lets them. With a cycle, nothing is
sent, and the error gives the names along it. -/
theorem createAll_dropAll (hbuilt : ∀ t ∈ tables, t.Built) (e : Engine) (calls : List Call) :
    (Acyclic tables → ∃ order, (of tables).creationOrder = .ok order ∧
      (of tables).dropOrder = .ok order.reverse ∧ IsOrder tables order ∧
      MakesInOrder tables order e calls (((of tables).createAll e).run.run calls) ∧
      DropsInOrder tables order e calls (((of tables).dropAll e).run.run calls)) ∧
    (¬ Acyclic tables → ∃ names, NamesCycle tables names ∧
      ((of tables).createAll e).run.run calls = (.error (.cyclicDependency names), calls) ∧
      ((of tables).dropAll e).run.run calls = (.error (.cyclicDependency names), calls)) := by
  obtain ⟨order, hcreation, horder⟩ | ⟨names, hcreation, hcycle⟩ := creationOrder_cases tables
  · have hmakes := horder.makesInOrder (runsInOrder_createAll hbuilt hcreation e calls)
    have hdrops : DropsInOrder tables order e calls (((of tables).dropAll e).run.run calls) := by
      rw [run_dropAll hcreation]
      refine horder.dropsInOrder (e.runsInOrder (fun s hs => ?_) calls)
      obtain ⟨t, -, rfl⟩ := List.mem_map.mp hs
      exact slots_dropSql "TABLE" t.name
    exact ⟨fun _ => ⟨order, hcreation, dropOrder_of_ok hcreation, horder, hmakes, hdrops⟩,
      fun h => absurd horder.acyclic h⟩
  · exact ⟨fun h => absurd h hcycle.not_acyclic, fun _ =>
      ⟨names, hcycle, run_createAll_of_error hcreation, run_dropAll_of_error hcreation⟩⟩

/-- A table that refers to another one and is given in front of it, with an
index that the engine has no room for. -/
theorem createAll_dropAll_no_room :
    let id : Column := ⟨0, ⟨"a"⟩, ⟨"id"⟩, .scalar .long, [], none⟩
    let parent : Column := ⟨1, ⟨"b"⟩, ⟨"parent"⟩, .scalar .long, [], none⟩
    let a : Table := ⟨⟨"a"⟩, [id], [], [], [], [], false⟩
    let i : Index := ⟨⟨"b_parent"⟩, ⟨"b"⟩, [⟨"parent"⟩], false⟩
    let b : Table := ⟨⟨"b"⟩, [parent], [],
      [⟨⟨"fk_b_parent_id"⟩, parent, id, .noAction, .noAction⟩], [i], [], false⟩
    let e : Engine :=
      ⟨fun calls => if calls.length = 3 then .error "full" else .ok 0, fun _ => .ok ⟨[], none⟩, {}⟩
    (∀ t ∈ [b, a], t.Built) ∧ DependsOn [b, a] b.name a.name ∧ Acyclic [b, a] ∧
      MakesInOrder [b, a] [a, b] e [] (((of [b, a]).createAll e).run.run []) ∧
      DropsInOrder [b, a] [a, b] e [] (((of [b, a]).dropAll e).run.run []) := by
  intro id parent a i b e
  have hbuilt : ∀ t ∈ [b, a], t.Built := List.forall_mem_cons.mpr
    ⟨⟨_, _, (TableBuilder.Reached.start ⟨"b"⟩ 1).runAll
        [.column "parent" (.scalar .long) [.references id, .index]], rfl⟩,
      List.forall_mem_singleton.mpr
        ⟨_, _, (TableBuilder.Reached.start ⟨"a"⟩ 0).runAll [.column "id" (.scalar .long) []], rfl⟩⟩
  have hcreation : (of [b, a]).creationOrder = .ok [a, b] := rfl
  have hacyclic : Acyclic [b, a] := by
    obtain ⟨order, -, horder⟩ | ⟨names, hcycle, -⟩ := creationOrder_cases [b, a]
    · exact horder.acyclic
    · rw [hcreation] at hcycle
      cases hcycle
  obtain ⟨order, hcreates, -, -, hmakes, hdrops⟩ := (createAll_dropAll hbuilt e []).1 hacyclic
  obtain rfl := Except.ok.inj (hcreates.symm.trans hcreation)
  refine ⟨hbuilt, ⟨by decide, ⟨a, .tail _ (.head _), rfl⟩, ?_⟩, hacyclic, hmakes, hdrops⟩
  exact ⟨b, counts_cons.mpr (.inl rfl), rfl, _, List.mem_singleton_self _, rfl⟩

end Dependencies

end TypedSql

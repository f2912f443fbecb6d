import TypedSql.Proofs.Query.Program
import TypedSql.Proofs.Sql.Text
import TypedSql.Proofs.Steps
import TypedSql.Proofs.Term.Parentheses
import TypedSql.Statement.Change
import Mathlib.Data.List.Induction

/-!
# Conditions that hold together

Conditions that are given one after the other are kept as one term: the
first as it is, each later one on the right of an AND. What a reader of the
statement sees is flat – the conditions in the order in which they were
given, AND between every two – because a chain of ANDs is never set off on
the left of an AND, and on its right only an OR is
(`Term.needsParentheses_and`).

Conditions are given in the middle of other calls.
`Select.foldl_refine_withConditions` and its like take a run apart: the calls
that give conditions gather them, the others make the statement that would be
there without any. A join has a
condition for each of its links, and only the last link can be given more,
so what its text says of a link is settled when the next one comes
(`Join.Settled`).
-/

namespace TypedSql

/-! ## Gathering conditions

A condition that is given in addition is put on the right of what is there.
Conditions that are given one after the other make a tree that leans to the
left, and its last condition is at the root. -/

namespace Term

/-- One more condition that has to hold. -/
def gather (filter? : Option Term) (p : Term) : Option Term := some (conjoin filter? p)

/-- **The condition that several conditions make**, given one after the
other. -/
def gathered (ps : List Term) : Option Term := ps.foldl gather none

/-- A condition with others on its right, one by one. -/
def chain (p : Term) (ps : List Term) : Term := ps.foldl (fun s q => .binary .and s q) p

theorem gathered_cons (p : Term) (ps : List Term) : gathered (p :: ps) = some (p.chain ps) :=
  List.foldl_hom some fun _ _ => rfl

theorem foldl_gather (filter? : Option Term) (ps : List Term) :
    ps.foldl gather filter? = gathered (filter?.toList ++ ps) := by
  cases filter? <;> rfl

theorem chain_concat (p : Term) (ps : List Term) (q : Term) :
    p.chain (ps ++ [q]) = .binary .and (p.chain ps) q := by
  rw [chain, List.foldl_append]
  rfl

/-- A chain of two conditions or more has an AND at its root. -/
theorem op?_chain_cons (p q : Term) (ps : List Term) :
    (p.chain (q :: ps)).op? = some .and := by
  induction ps generalizing p q with
  | nil => rfl
  | cons r ps ih => exact ih (.binary .and p q) r

end Term

/-! ## The text of a gathered condition

A condition among others is written with parentheses if it is an OR and without
them otherwise, whether it stands at the beginning or behind another one. That
the place makes no difference is special to AND, and it is why the text of the
chain is as flat as the list of the conditions. -/

namespace Term

/-- The text of a condition among others. -/
def textAmongOthers (p : Term) : String :=
  if p.op? = some .or then "(" ++ p.sql.text ++ ")" else p.sql.text

theorem text_operand_and (p : Term) (onRight : Bool) :
    (Sql.parenthesizedIf (needsParentheses .and p onRight) p.sql).text = p.textAmongOthers := by
  rw [needsParentheses_and, textAmongOthers]
  by_cases hor : p.op? = some .or
  · rw [if_pos hor, hor, beq_self_eq_true, Sql.parenthesizedIf, if_pos rfl, Sql.parenthesized,
      Sql.text_append, Sql.text_append]
    rfl
  · rw [if_neg hor, beq_false_of_ne hor]
    rfl

theorem text_binary_and (p q : Term) :
    (binary .and p q).sql.text = p.textAmongOthers ++ " AND " ++ q.textAmongOthers := by
  rw [Term.sql, Sql.text_append, Sql.text_append, text_operand_and, text_operand_and]
  rfl

/-- **The text of a chain** is flat. The induction follows the way it grew: the
last condition is on the right of all others. -/
theorem text_chain (p q : Term) (ps : List Term) :
    (p.chain (q :: ps)).sql.text = " AND ".intercalate ((p :: q :: ps).map textAmongOthers) := by
  induction ps using List.reverseRecOn with
  | nil => exact text_binary_and p q
  | append_singleton ps r ih =>
    have hflat : (p.chain (q :: ps)).textAmongOthers
        = " AND ".intercalate ((p :: q :: ps).map textAmongOthers) := by
      rw [textAmongOthers, op?_chain_cons, if_neg (by decide), ih]
    rw [← List.cons_append, chain_concat, text_binary_and, hflat, ← List.cons_append,
      List.map_append, String.intercalate_append_of_ne_nil (by simp) (by simp)]
    rfl

theorem slots_chain (p : Term) (ps : List Term) :
    (p.chain ps).sql.slots = (p :: ps).flatMap fun q => q.sql.slots := by
  induction ps using List.reverseRecOn with
  | nil => rw [chain, List.foldl_nil, List.flatMap_singleton]
  | append_singleton ps q ih =>
    rw [chain_concat, Term.sql, Sql.slots_append, Sql.slots_append, Sql.slots_parenthesizedIf,
      Sql.slots_parenthesizedIf, Sql.slots_words, List.append_nil, ih, ← List.cons_append,
      List.flatMap_append, List.flatMap_singleton]

end Term

/-- **A clause of conditions** that have to hold together. -/
structure Sql.Conjoins (keyword : String) (ps : List Term) (clause : Sql) : Prop where
  /-- Without a condition there is no clause. -/
  none : ps = [] → clause = []
  /-- A single condition is written as it is. -/
  one : ∀ p, ps = [p] → clause.text = keyword ++ p.sql.text
  /-- Several are written in order, and those that are an OR are set off. -/
  several : 2 ≤ ps.length →
    clause.text = keyword ++ " AND ".intercalate (ps.map Term.textAmongOthers)
  /-- The placeholders are those of the conditions, in order. -/
  slots : clause.slots = ps.flatMap fun p => p.sql.slots

/-- **Gathered conditions are written as a flat conjunction.** -/
theorem Sql.conjoins_gathered (keyword : String) (ps : List Term) :
    Conjoins keyword ps (Term.sqlClause keyword (Term.gathered ps)) := by
  cases ps with
  | nil => exact ⟨fun _ => rfl, fun p h => (by cases h), fun h => absurd h (by decide), rfl⟩
  | cons p ps =>
    have hclause : Term.sqlClause keyword (Term.gathered (p :: ps))
        = words keyword ++ (p.chain ps).sql := by
      rw [Term.gathered_cons, Term.sqlClause]
    rw [hclause]
    refine ⟨fun h => (by cases h), fun q h => ?_, fun h => ?_, ?_⟩
    · obtain ⟨rfl, rfl⟩ := List.cons.inj h
      exact text_append _ _
    · obtain ⟨q, ps, rfl⟩ : ∃ q qs, ps = q :: qs := by
        cases ps with
        | nil => exact absurd h (Nat.lt_irrefl 1)
        | cons q qs => exact ⟨q, qs, rfl⟩
      rw [text_append, Term.text_chain]
      rfl
    · rw [slots_append, slots_words, List.nil_append, Term.slots_chain]

/-! ## Queries

The parts of the text that stand before, between and behind the two conditions
are named, so that a clause which changes one of these parts can be seen to
leave the conditions where they are. -/

/-- The condition on rows that a clause gives. -/
def SelectClause.restriction? : SelectClause → Option Term
  | .restrict condition => some condition
  | _ => none

/-- The condition on groups that a clause gives. -/
def SelectClause.groupCondition? : SelectClause → Option Term
  | .having condition => some condition
  | _ => none

/-- Whether a clause gives no condition. -/
def SelectClause.isOther : SelectClause → Bool
  | .restrict _ | .having _ => false
  | _ => true

namespace Select

/-- A query with other conditions on rows and on groups. -/
def withConditions (s : Select) (filter? having? : Option Term) : Select :=
  { s with filter?, having? }

/-- The text of a query up to its conditions on rows. -/
def opening (s : Select) : Sql :=
  Sql.words (if s.isDistinct then "SELECT DISTINCT " else "SELECT ") ++
    Sql.commaList (Term.sqlItems (s.items.map Item.entry)) ++ Sql.words " FROM " ++ s.source.sql

/-- What a query is grouped by. -/
def groups (s : Select) : Sql :=
  if s.grouping.isEmpty then []
  else Sql.words " GROUP BY " ++ Sql.commaList (Term.sqlList s.grouping)

/-- The text of a query from its conditions on groups on. -/
def closing (s : Select) : Sql :=
  (if s.order.isEmpty then []
    else Sql.words " ORDER BY " ++ Sql.commaList (Term.sqlOrder s.order)) ++
    (match s.limit?, s.offset? with
      | none, none => []
      | some l, none => Sql.words " LIMIT " ++ [.number l]
      | some l, some o =>
        Sql.words " LIMIT " ++ [.number l] ++ Sql.words " OFFSET " ++ [.number o]
      | none, some o => Sql.words " LIMIT -1 OFFSET " ++ [.number o])

/-- The conditions stand between the other parts of a query. -/
theorem sql_withConditions (s : Select) (filter? having? : Option Term) :
    (s.withConditions filter? having?).sql
      = s.opening ++ Term.sqlClause " WHERE " filter? ++ s.groups ++
        Term.sqlClause " HAVING " having? ++ s.closing := by
  cases hlimit : s.limit? <;> cases hoffset : s.offset? <;>
    simp only [sql, tree, withConditions, SelectTerm.sql, opening, groups, closing, hlimit,
      hoffset, List.append_assoc]

theorem exists_sql_eq (s : Select) : ∃ behind, s.sql = s.opening ++ behind := by
  have hsql : s.sql = _ := s.sql_withConditions s.filter? s.having?
  simp only [List.append_assoc] at hsql
  exact ⟨_, hsql⟩

/-- **What one clause does**: it gives a condition, or it changes what is
beside the conditions. -/
theorem refine_withConditions (s : Select) (filter? having? : Option Term)
    (clause : SelectClause) :
    (s.withConditions filter? having?).refine clause
      = (if clause.isOther then s.refine clause else s).withConditions
          (clause.restriction?.elim filter? (Term.gather filter?))
          (clause.groupCondition?.elim having? (Term.gather having?)) := by
  cases clause <;> rfl

/-- **What a run of clauses does**: conditions are gathered, and what is beside
them comes from the other clauses. -/
theorem foldl_refine_withConditions (clauses : List SelectClause) (s : Select)
    (filter? having? : Option Term) :
    clauses.foldl refine (s.withConditions filter? having?)
      = ((clauses.filter SelectClause.isOther).foldl refine s).withConditions
          ((clauses.filterMap SelectClause.restriction?).foldl Term.gather filter?)
          ((clauses.filterMap SelectClause.groupCondition?).foldl Term.gather having?) := by
  induction clauses generalizing s filter? having? with
  | nil => rfl
  | cons clause clauses ih =>
    rw [List.foldl_cons, refine_withConditions, ih]
    cases clause <;> rfl

/-- **The conditions of a query** in any run of clauses: those on rows and those
on groups are flat conjunctions in the order of the calls, and the rest of the
text comes from the other calls. -/
theorem sql_run (source : Source) (items : List Item) (clauses : List SelectClause) :
    ∃ rows groups, Sql.Conjoins " WHERE " (clauses.filterMap SelectClause.restriction?) rows ∧
      Sql.Conjoins " HAVING " (clauses.filterMap SelectClause.groupCondition?) groups ∧
      let others := (clauses.filter SelectClause.isOther).foldl refine (Select.of source items)
      (clauses.foldl refine (Select.of source items)).sql
        = others.opening ++ rows ++ others.groups ++ groups ++ others.closing := by
  refine ⟨_, _, Sql.conjoins_gathered _ _, Sql.conjoins_gathered _ _, ?_⟩
  have hrun := foldl_refine_withConditions clauses (Select.of source items) none none
  exact (congrArg sql hrun).trans (sql_withConditions _ _ _)

end Select

/-! ## Statements that change rows

With one condition instead of two; the calls besides are the one that sets the
source. -/

/-- **A clause of a statement that changes rows.** -/
inductive UpdateClause where
  /-- Where values may come from. -/
  | source (source : Source)
  /-- A condition on rows. -/
  | restrict (condition : Term)

/-- The condition that a clause gives. -/
def UpdateClause.restriction? : UpdateClause → Option Term
  | .source _ => none
  | .restrict condition => some condition

namespace Update

/-- Adds a clause to a statement. -/
def refine (s : Update) : UpdateClause → Update
  | .source source => s.from source
  | .restrict condition => s.restrict condition

/-- A statement with another condition on rows. -/
def withCondition (s : Update) (filter? : Option Term) : Update := { s with filter? }

/-- **What a run of clauses does**: conditions are gathered, and what is beside
them comes from the other clauses. -/
theorem foldl_refine_withCondition (clauses : List UpdateClause) (s : Update)
    (filter? : Option Term) :
    clauses.foldl refine (s.withCondition filter?)
      = ((clauses.filter fun clause => clause.restriction?.isNone).foldl refine s).withCondition
          ((clauses.filterMap UpdateClause.restriction?).foldl Term.gather filter?) := by
  induction clauses generalizing s filter? with
  | nil => rfl
  | cons clause clauses ih =>
    cases clause with
    | source source => exact ih (s.from source) filter?
    | restrict condition => exact ih s (Term.gather filter? condition)

theorem sql_withCondition (s : Update) (filter? : Option Term) :
    (s.withCondition filter?).sql
      = (s.withCondition none).sql ++ Term.sqlClause " WHERE " filter? := by
  simp only [sql, withCondition, Term.sqlClause, List.append_nil]

theorem filter?_of_of? {onConflict : OnConflict} {a : Assignments} {u : Update}
    (h : of? onConflict a = .ok u) : u.filter? = none := by
  unfold of? at h
  obtain ⟨entries, -, hrest⟩ := exists_of_bind_eq_ok h
  split at hrest
  · cases hrest
  · exact Except.ok.inj hrest ▸ rfl

/-- Where no condition is given, there is none. -/
theorem filter?_foldl_refine {clauses : List UpdateClause}
    (h : ∀ clause ∈ clauses, clause.restriction? = none) (s : Update) :
    (clauses.foldl refine s).filter? = s.filter? := by
  induction clauses generalizing s with
  | nil => rfl
  | cons clause clauses ih =>
    rw [List.forall_mem_cons] at h
    cases clause with
    | source source => exact ih h.2 (s.from source)
    | restrict condition => cases h.1

/-- **The condition of a statement that changes rows** in any run of clauses: a
flat conjunction in the order of the calls, behind what the other calls make. -/
theorem sql_run {onConflict : OnConflict} {a : Assignments} {u : Update}
    (h : of? onConflict a = .ok u) (clauses : List UpdateClause) :
    ∃ rows, Sql.Conjoins " WHERE " (clauses.filterMap UpdateClause.restriction?) rows ∧
      (clauses.foldl refine u).sql
        = ((clauses.filter fun clause => clause.restriction?.isNone).foldl refine u).sql ++
          rows := by
  refine ⟨_, Sql.conjoins_gathered _ _, ?_⟩
  have hnone := filter?_of_of? h
  generalize hothers : (clauses.filter fun clause => clause.restriction?.isNone).foldl refine u
    = others
  have hkept : others.filter? = none := by
    rw [← hothers, filter?_foldl_refine (fun clause hclause => ?_), hnone]
    exact Option.isNone_iff_eq_none.mp (List.mem_filter.mp hclause).2
  have hu : u.withCondition none = u := congrArg (withCondition u) hnone.symm
  have hself : others.withCondition none = others :=
    congrArg (withCondition others) hkept.symm
  have hrun := foldl_refine_withCondition clauses u none
  rw [hu, hothers] at hrun
  rw [hrun, sql_withCondition, hself]
  rfl

end Update

namespace Delete

theorem foldl_restrict (ps : List Term) (s : Delete) :
    ps.foldl restrict s = { s with filter? := ps.foldl Term.gather s.filter? } := by
  induction ps generalizing s with
  | nil => rfl
  | cons p ps ih => exact ih (s.restrict p)

/-- **The condition of a statement that deletes rows.** -/
theorem sql_run (table : Identifier) (ps : List Term) :
    ∃ rows, Sql.Conjoins " WHERE " ps rows ∧
      (ps.foldl restrict { table }).sql = Sql.words "DELETE FROM " ++ Sql.name table ++ rows := by
  refine ⟨_, Sql.conjoins_gathered _ _, ?_⟩
  rw [foldl_restrict]
  rfl

end Delete

/-! ## Joins

A join has many conditions, but only the last link takes more. So there is no
need for an account of all of them: what is said of one link is said from the
call that makes it up to the call that makes the next one. -/

/-- **A call on a join.** -/
inductive JoinCall where
  /-- A source on a condition. -/
  | on (source : Source) (type : JoinType) (condition : Term)
  /-- A source where two expressions are equal. -/
  | onEqual (source : Source) (type : JoinType) (left right : Expr)
  /-- Every row of a source. -/
  | cross (source : Source)
  /-- A table by its foreign key. -/
  | byForeignKey (type : JoinType) (table : Table)
  /-- A query on a condition. -/
  | onQuery (type : JoinType) (query : QueryAlias) (condition : Term)
  /-- More for the condition of the last link. -/
  | andOn (condition : Term)

/-- Whether the call joins something. -/
def JoinCall.isLink : JoinCall → Bool
  | .andOn _ => false
  | _ => true

namespace Join

/-- **What a call does**, which may be refused. -/
def call (j : Join) : JoinCall → Except ConstructionError Join
  | .on source type condition => .ok (j.on source type condition)
  | .onEqual source type left right => .ok (j.onEqual source type left right)
  | .cross source => .ok (j.cross source)
  | .byForeignKey type table => j.byForeignKey type table
  | .onQuery type query condition => .ok (j.onQuery type query condition)
  | .andOn condition => .ok (j.andOn condition)

theorem of_byForeignKey {j j' : Join} {type : JoinType} {table : Table}
    (h : j.byForeignKey type table = .ok j') :
    ∃ condition, j' = j.push type table.source (some condition) := by
  unfold byForeignKey at h
  split at h
  · cases h
  · exact ⟨_, (Except.ok.inj h).symm⟩
  · cases h

/-- **A call that joins something** adds a link. -/
theorem of_call_isLink {j j' : Join} {c : JoinCall} (hc : c.isLink = true)
    (h : j.call c = .ok j') :
    j'.first = j.first ∧ ∃ p, j'.parts = j.parts ++ [p] := by
  cases c with
  | byForeignKey type table =>
    obtain ⟨condition, rfl⟩ := of_byForeignKey h
    exact ⟨rfl, _, rfl⟩
  | andOn condition => cases hc
  | _ => exact Except.ok.inj h ▸ ⟨rfl, _, rfl⟩

/-- More for the condition of the last link leaves everything else alone. -/
theorem andOn_of_parts {j : Join} {ps : List JoinPart} {p : JoinPart} (h : j.parts = ps ++ [p])
    (q : Term) :
    j.andOn q = { j with
      parts := ps ++ [{ p with condition? := Term.gather p.condition? q }] } := by
  rw [andOn, h, List.getLast?_concat, List.dropLast_concat]
  rfl

/-- Conditions that are given to the last link are gathered there. -/
theorem foldlM_andOn {j : Join} {before : List JoinPart} {p : JoinPart}
    (h : j.parts = before ++ [p]) (qs : List Term) :
    (qs.map JoinCall.andOn).foldlM call j = .ok { j with
      parts := before ++ [{ p with condition? := qs.foldl Term.gather p.condition? }] } := by
  induction qs generalizing j p with
  | nil =>
    rw [List.foldl_nil, ← h]
    rfl
  | cons q qs ih =>
    rw [List.map_cons, List.foldlM_cons, call, andOn_of_parts h q]
    exact ih (j := { j with parts := _ }) rfl

/-- **Links are settled** in a join when others have come behind them. -/
def Settled (first : Source) (settled : List JoinPart) (j : Join) : Prop :=
  j.first = first ∧ ∃ more, more ≠ [] ∧ j.parts = settled ++ more

/-- **What is settled stays so.** A call adds a link, or it changes the last one,
which is not settled. -/
theorem Settled.call {first : Source} {settled : List JoinPart} {j j' : Join} {c : JoinCall}
    (hj : j.Settled first settled) (h : j.call c = .ok j') : j'.Settled first settled := by
  obtain ⟨hfirst, more, hmore, hparts⟩ := hj
  by_cases hc : c.isLink = true
  · obtain ⟨hfirst', p, hparts'⟩ := of_call_isLink hc h
    refine ⟨hfirst'.trans hfirst, more ++ [p], by simp, ?_⟩
    rw [hparts', hparts, List.append_assoc]
  · cases c with
    | andOn q =>
      obtain ⟨init, last, rfl⟩ := more.eq_nil_or_concat.resolve_left hmore
      rw [List.concat_eq_append, ← List.append_assoc] at hparts
      obtain rfl := Except.ok.inj h
      rw [andOn_of_parts hparts q]
      exact ⟨hfirst, _, by simp, List.append_assoc _ _ _⟩
    | _ => exact absurd rfl hc

theorem Settled.foldlM {first : Source} {settled : List JoinPart} {j j' : Join}
    {calls : List JoinCall} (hj : j.Settled first settled)
    (h : calls.foldlM Join.call j = .ok j') : j'.Settled first settled := by
  induction calls generalizing j with
  | nil => exact Except.ok.inj h ▸ hj
  | cons c calls ih =>
    rw [List.foldlM_cons] at h
    obtain ⟨next, hcall, hrest⟩ := exists_of_bind_eq_ok h
    exact ih (hj.call hcall) hrest

/-- **A run that begins with a new link** leaves the links before it alone. -/
theorem of_foldlM_of_isLink {j j' : Join} {calls : List JoinCall}
    (hcalls : ∀ c ∈ calls.head?, c.isLink = true) (h : calls.foldlM call j = .ok j') :
    j'.first = j.first ∧ ∃ later, j'.parts = j.parts ++ later := by
  cases calls with
  | nil => exact Except.ok.inj h ▸ ⟨rfl, [], (List.append_nil _).symm⟩
  | cons c calls =>
    rw [List.foldlM_cons] at h
    obtain ⟨next, hcall, hrest⟩ := exists_of_bind_eq_ok h
    obtain ⟨hfirst, p, hparts⟩ := of_call_isLink (hcalls c rfl) hcall
    have hsettled : next.Settled j.first j.parts := ⟨hfirst, [p], by simp, hparts⟩
    obtain ⟨hfirst', later, -, hparts'⟩ := hsettled.foldlM hrest
    exact ⟨hfirst', later, hparts'⟩

/-- The text of links one after the other. -/
def linksSql (parts : List JoinPart) : Sql := JoinTerm.sqlList (parts.map JoinPart.tree)

theorem linksSql_cons (p : JoinPart) (ps : List JoinPart) :
    linksSql (p :: ps) = Sql.words (" " ++ p.type.sql ++ " ") ++ p.source.tree.sql ++
      Term.sqlClause " ON " p.condition? ++ linksSql ps := by
  rw [linksSql, List.map_cons, JoinTerm.sqlList, JoinPart.tree, JoinTerm.sql, linksSql]

theorem linksSql_append (ps qs : List JoinPart) :
    linksSql (ps ++ qs) = linksSql ps ++ linksSql qs := by
  induction ps with
  | nil => rfl
  | cons p ps ih =>
    rw [List.cons_append, linksSql_cons, ih, linksSql_cons]
    simp only [List.append_assoc]

/-- **The condition of a link** in any run of calls on a join: the condition it
was joined on, if there was one, and those that were given while it was the
last, as a flat conjunction. Calls after that leave it alone. -/
theorem sql_run {j j' : Join} {before : List JoinPart} {p : JoinPart}
    (hparts : j.parts = before ++ [p]) (qs : List Term) {rest : List JoinCall}
    (hrest : ∀ c ∈ rest.head?, c.isLink = true)
    (h : (qs.map JoinCall.andOn ++ rest).foldlM call j = .ok j') :
    ∃ condition later, Sql.Conjoins " ON " (p.condition?.toList ++ qs) condition ∧
      j'.tree.sql = j.first.tree.sql ++ linksSql before ++
        (Sql.words (" " ++ p.type.sql ++ " ") ++ p.source.tree.sql ++ condition) ++
        linksSql later := by
  rw [List.foldlM_append, foldlM_andOn hparts] at h
  obtain ⟨hfirst, later, hlater⟩ := of_foldlM_of_isLink hrest h
  refine ⟨_, later, Sql.conjoins_gathered _ _, ?_⟩
  rw [tree, FromTerm.sql, ← linksSql, hfirst, hlater, List.append_assoc, linksSql_append,
    List.singleton_append, linksSql_cons, Term.foldl_gather]
  simp only [List.append_assoc]

end Join

/-! ## All together -/

/-- **Conditions accumulate.** In every run of calls on a query, on a statement
that changes or deletes rows, or on a join, the conditions that were given for
a clause are what the clause says, in the order of the calls and with AND
between every two: a single one as it is, several with parentheses around those
that are an OR. The clause has the placeholders of its conditions, and what
stands beside it comes from the other calls. -/
theorem conditions_accumulate :
    (∀ (source : Source) (items : List Item) (clauses : List SelectClause),
      ∃ rows groups, Sql.Conjoins " WHERE " (clauses.filterMap SelectClause.restriction?) rows ∧
        Sql.Conjoins " HAVING " (clauses.filterMap SelectClause.groupCondition?) groups ∧
        let others :=
          (clauses.filter SelectClause.isOther).foldl Select.refine (Select.of source items)
        (clauses.foldl Select.refine (Select.of source items)).sql
          = others.opening ++ rows ++ others.groups ++ groups ++ others.closing) ∧
    (∀ (onConflict : OnConflict) (a : Assignments) (u : Update) (clauses : List UpdateClause),
      Update.of? onConflict a = .ok u →
      ∃ rows, Sql.Conjoins " WHERE " (clauses.filterMap UpdateClause.restriction?) rows ∧
        (clauses.foldl Update.refine u).sql
          = ((clauses.filter fun clause => clause.restriction?.isNone).foldl Update.refine u).sql
            ++ rows) ∧
    (∀ (table : Identifier) (ps : List Term),
      ∃ rows, Sql.Conjoins " WHERE " ps rows ∧
        (ps.foldl Delete.restrict { table }).sql
          = Sql.words "DELETE FROM " ++ Sql.name table ++ rows) ∧
    (∀ (j j' : Join) (before : List JoinPart) (p : JoinPart) (qs : List Term)
      (rest : List JoinCall),
      j.parts = before ++ [p] → (∀ c ∈ rest.head?, c.isLink = true) →
      (qs.map JoinCall.andOn ++ rest).foldlM Join.call j = .ok j' →
      ∃ condition later, Sql.Conjoins " ON " (p.condition?.toList ++ qs) condition ∧
        j'.tree.sql = j.first.tree.sql ++ Join.linksSql before ++
          (Sql.words (" " ++ p.type.sql ++ " ") ++ p.source.tree.sql ++ condition) ++
          Join.linksSql later) :=
  ⟨Select.sql_run, fun _ _ _ clauses h => Update.sql_run h clauses, Delete.sql_run,
    fun _ _ _ _ qs _ hparts hrest h => Join.sql_run hparts qs hrest h⟩

/-- A statement with two conditions, and a join that is given a second one
before something else is joined. -/
theorem conditions_accumulate_twice :
    let p : Term := .binary .or (.slot .bool) (.slot .long)
    let q : Term := .not (.slot .bool)
    let a : Assignments := { table := ⟨"t"⟩, entries := [(⟨"c"⟩, .slot .text)] }
    let u : Update := { table := ⟨"t"⟩, onConflict := .unspecified, entries := a.entries }
    let t : Source := { tree := .named ⟨"t"⟩, items := [] }
    let j : Join := (Join.of t).on t .inner p
    (Update.of? .unspecified a = .ok u ∧
      ∃ rows, Sql.Conjoins " WHERE " [p, q] rows ∧
        ([.restrict p, .source t, .restrict q].foldl Update.refine u).sql
          = (u.from t).sql ++ rows) ∧
    ∃ condition later, Sql.Conjoins " ON " [p, q] condition ∧
      ((j.andOn q).cross t).tree.sql = t.tree.sql ++ Join.linksSql [] ++
        (Sql.words (" " ++ JoinType.inner.sql ++ " ") ++ t.tree.sql ++ condition) ++
        Join.linksSql later := by
  intro p q a u t j
  have hu : Update.of? .unspecified a = .ok u := rfl
  refine ⟨⟨hu, conditions_accumulate.2.1 _ a u [.restrict p, .source t, .restrict q] hu⟩, ?_⟩
  exact conditions_accumulate.2.2.2 j ((j.andOn q).cross t) [] ⟨.inner, t, some p⟩ [q] [.cross t]
    rfl (fun c hc => by cases hc; rfl) rfl

end TypedSql

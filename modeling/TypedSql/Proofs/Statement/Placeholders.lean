import TypedSql.Proofs.Sql.Unquoted
import TypedSql.Proofs.Term.Phrase
import TypedSql.Statement.Bindings

/-!
# Placeholders and their types

A statement is bound by counting: the engine counts the question marks of
the text, the caller counts the types it was told. `Statement.placeholders_eq`
says that the two counts never part. The question marks outside quotes stand
exactly where the pieces for placeholders were written, and the types are
those of the placeholders of the tree, from left to right – whatever names,
texts and bytes are written in between.
-/

namespace TypedSql

/-! ## Question marks

The places of the marks are counted in the text and the places of the slots in
the pieces. Both lists are built with the number of characters before them, so
that they can be compared part by part. -/

/-- The places of the question marks in a view, counted from `n` on. -/
def marks : Nat → List (Option Char) → List Nat
  | _, [] => []
  | n, x :: v => if x = some '?' then n :: marks (n + 1) v else marks (n + 1) v

/-- **The places of the question marks** of a text that stand outside
quotes. -/
def placeholders (cs : List Char) : List Nat := marks 0 (unquoted cs)

/-- **The placeholders of a sequence of pieces** with the places in the text
at which they are written, counted from `n` on. -/
def Sql.slotsFrom : Nat → Sql → List (Nat × Codec)
  | _, [] => []
  | n, .slot c :: s => (n, c) :: slotsFrom (n + 1) s
  | n, p :: s => slotsFrom (n + p.text.length) s

theorem marks_append (n : Nat) (v w : List (Option Char)) :
    marks n (v ++ w) = marks n v ++ marks (n + v.length) w := by
  induction v generalizing n with
  | nil => rfl
  | cons x v ih =>
    rw [List.cons_append, marks, marks, ih, List.length_cons, Nat.add_right_comm, Nat.add_assoc n]
    split <;> rfl

/-- Where no question mark is seen, none is counted. -/
theorem marks_eq_nil {v : List (Option Char)} (h : some '?' ∉ v) (n : Nat) : marks n v = [] := by
  induction v generalizing n with
  | nil => rfl
  | cons x v ih =>
    rw [List.mem_cons, not_or] at h
    rw [marks, if_neg (Ne.symm h.1), ih h.2]

/-- The types of the placeholders do not depend on their places. -/
theorem Sql.map_snd_slotsFrom (n : Nat) (s : Sql) : (s.slotsFrom n).map Prod.snd = s.slots := by
  induction n, s using Sql.slotsFrom.induct with
  | case1 n => rfl
  | case2 n c s ih =>
    rw [slotsFrom, List.map_cons, ih]
    rfl
  | case3 n p s hp ih =>
    have hslot : p.slot? = none := by
      cases p <;> first | rfl | exact absurd rfl (hp _)
    rw [slotsFrom.eq_3 _ _ _ hp, ih, slots, slots, List.filterMap_cons_none hslot]

/-- **The question marks of a phrase** are its placeholders. -/
theorem Phrase.marks_text {s : Sql} (h : Phrase s) (n : Nat) :
    marks n (unquoted s.text.toList) = (s.slotsFrom n).map Prod.fst := by
  rw [h.unquoted_text]
  -- a phrase is not made of its first piece and a phrase, so the induction is on pieces
  have hplain := h.plain
  generalize s = pieces at hplain
  induction pieces generalizing n with
  | nil => rfl
  | cons p s ih =>
    rw [List.forall_mem_cons] at hplain
    have hlength : (unquoted p.text.toList).length = p.text.length := by
      rw [unquoted, Place.length_view, String.length_toList]
    rw [List.flatMap_cons, marks_append, hlength, ih _ hplain.2]
    rcases (Piece.form_of_plain hplain.1).slot?_eq_none with ⟨c, rfl⟩ | ⟨hslot, hmark⟩
    · have hview : unquoted (Piece.slot c).text.toList = [some '?'] := by
        rw [Piece.text]
        decide
      have hone : (Piece.slot c).text.length = 1 := by
        rw [Piece.text]
        decide
      rw [hview, hone]
      rfl
    · have hp : ∀ c, p ≠ .slot c := by
        rintro c rfl
        cases hslot
      rw [marks_eq_nil hmark, List.nil_append, Sql.slotsFrom.eq_3 _ _ _ hp]

/-! ## The placeholders of trees

The types are collected from the tree without printing it. That the printer
comes to the same list is proved by the recursion of the printer. -/

mutual

/-- **The types of the placeholders of a term**, from left to right. -/
def Term.binds : Term → List Codec
  | .slot c => [c]
  | .literal _ _ => []
  | .column _ _ => []
  | .rowColumn _ _ => []
  | .reference _ => []
  | .countStar => []
  | .not t => t.binds
  | .isNull t _ => t.binds
  | .binary _ l r => l.binds ++ r.binds
  | .between t low high => t.binds ++ low.binds ++ high.binds
  | .inList t items _ => t.binds ++ Term.bindsList items
  | .inQuery t query _ => t.binds ++ query.binds
  | .exists query _ => query.binds
  | .call _ arguments => Term.bindsList arguments
  | .aggregate _ t => t.binds
  | .countDistinct t => t.binds
  | .groupConcat t _ => t.binds
  | .scalar query => query.binds

/-- Those of several terms. -/
def Term.bindsList : List Term → List Codec
  | [] => []
  | t :: ts => t.binds ++ Term.bindsList ts

/-- Those of a clause. -/
def Term.bindsClause : Option Term → List Codec
  | none => []
  | some t => t.binds

/-- Those of a select list. -/
def Term.bindsItems : List (Term × Option Identifier) → List Codec
  | [] => []
  | (t, _) :: items => t.binds ++ Term.bindsItems items

/-- Those of a sort. -/
def Term.bindsOrder : List (Term × SortOrder) → List Codec
  | [] => []
  | (t, _) :: terms => t.binds ++ Term.bindsOrder terms

/-- **The types of the placeholders of a query.** -/
def SelectTerm.binds : SelectTerm → List Codec
  | .mk _ items source filter groupBy having orderBy _ _ =>
    Term.bindsItems items ++ source.binds ++ Term.bindsClause filter ++
      Term.bindsList groupBy ++ Term.bindsClause having ++ Term.bindsOrder orderBy

/-- **The types of the placeholders of a source.** -/
def FromTerm.binds : FromTerm → List Codec
  | .named _ => []
  | .aliased _ _ => []
  | .query query _ => query.binds
  | .join first parts => first.binds ++ JoinTerm.bindsList parts

/-- Those of a link. -/
def JoinTerm.binds : JoinTerm → List Codec
  | .mk _ source condition => source.binds ++ Term.bindsClause condition

/-- Those of several links. -/
def JoinTerm.bindsList : List JoinTerm → List Codec
  | [] => []
  | p :: ps => p.binds ++ JoinTerm.bindsList ps

end

mutual

/-- **A term is printed with its placeholders in order.** -/
theorem Term.slots_sql : ∀ t : Term, t.sql.slots = t.binds
  | .literal _ _ => rfl
  | .slot _ => rfl
  | .column _ _ => rfl
  | .rowColumn _ _ => rfl
  | .reference _ => rfl
  | .countStar => rfl
  | .not t => by simp [Term.sql, Term.binds, t.slots_sql]
  | .isNull t _ => by simp [Term.sql, Term.binds, negatable, t.slots_sql]
  | .binary _ l r => by simp [Term.sql, Term.binds, l.slots_sql, r.slots_sql]
  | .between t low high => by
    simp [Term.sql, Term.binds, t.slots_sql, low.slots_sql, high.slots_sql]
  | .inList t items _ => by
    simp [Term.sql, Term.binds, negatable, Sql.parenthesized, t.slots_sql,
      Term.slots_sqlList items]
  | .inQuery t query _ => by
    simp [Term.sql, Term.binds, negatable, Sql.parenthesized, t.slots_sql, query.slots_sql]
  | .exists query _ => by
    simp [Term.sql, Term.binds, negatable, Sql.parenthesized, query.slots_sql]
  | .call _ arguments => by
    simp [Term.sql, Term.binds, Sql.parenthesized, Term.slots_sqlList arguments]
  | .aggregate _ t => by simp [Term.sql, Term.binds, Sql.parenthesized, t.slots_sql]
  | .countDistinct t => by simp [Term.sql, Term.binds, t.slots_sql]
  | .groupConcat t none => by simp [Term.sql, Term.binds, t.slots_sql]
  | .groupConcat t (some s) => by
    have htext : Sql.slots [Piece.quotedText s] = [] := rfl
    simp only [Term.sql, Term.binds, Sql.slots_append, Sql.slots_words, t.slots_sql, htext,
      List.nil_append, List.append_nil]
  | .scalar query => by simp [Term.sql, Term.binds, Sql.parenthesized, query.slots_sql]

theorem Term.slots_sqlList : ∀ ts : List Term,
    (Term.sqlList ts).flatMap Sql.slots = Term.bindsList ts
  | [] => rfl
  | t :: ts => by
    rw [Term.sqlList, List.flatMap_cons, t.slots_sql, Term.slots_sqlList ts, Term.bindsList]

theorem Term.slots_sqlClause (keyword : String) : ∀ t? : Option Term,
    (Term.sqlClause keyword t?).slots = Term.bindsClause t?
  | none => rfl
  | some t => by
    rw [Term.sqlClause, Sql.slots_append, Sql.slots_words, t.slots_sql, Term.bindsClause]
    rfl

theorem Term.slots_sqlItems : ∀ items : List (Term × Option Identifier),
    (Term.sqlItems items).flatMap Sql.slots = Term.bindsItems items
  | [] => rfl
  | (t, none) :: items => by
    simp [Term.sqlItems, Term.bindsItems, t.slots_sql, Term.slots_sqlItems items]
  | (t, some name) :: items => by
    simp [Term.sqlItems, Term.bindsItems, t.slots_sql, Term.slots_sqlItems items]

theorem Term.slots_sqlOrder : ∀ terms : List (Term × SortOrder),
    (Term.sqlOrder terms).flatMap Sql.slots = Term.bindsOrder terms
  | [] => rfl
  | (t, _) :: terms => by
    simp [Term.sqlOrder, Term.bindsOrder, t.slots_sql, Term.slots_sqlOrder terms]

/-- **A query is printed with its placeholders in order.** -/
theorem SelectTerm.slots_sql : ∀ q : SelectTerm, q.sql.slots = q.binds
  | .mk distinct items source filter groupBy having orderBy limit offset => by
    have hnumber : ∀ n : UInt64, Sql.slots [.number n] = [] := fun _ => rfl
    -- the clauses that are left out when they are empty have no placeholders then
    have hgroup : Sql.slots (if groupBy.isEmpty then [] else
        Sql.words " GROUP BY " ++ Sql.commaList (Term.sqlList groupBy))
          = Term.bindsList groupBy := by
      rw [← Term.slots_sqlList groupBy]
      cases groupBy with
      | nil => rfl
      | cons t ts => simp
    have horder : Sql.slots (if orderBy.isEmpty then [] else
        Sql.words " ORDER BY " ++ Sql.commaList (Term.sqlOrder orderBy))
          = Term.bindsOrder orderBy := by
      rw [← Term.slots_sqlOrder orderBy]
      cases orderBy with
      | nil => rfl
      | cons t ts => simp
    cases limit <;> cases offset <;>
      simp only [SelectTerm.sql, SelectTerm.binds, Sql.slots_append, Sql.slots_words,
        Sql.slots_commaList, Term.slots_sqlItems items, source.slots_sql,
        Term.slots_sqlClause _ filter, hgroup, Term.slots_sqlClause _ having, horder, hnumber,
        List.nil_append, List.append_nil]

/-- **A source is printed with its placeholders in order.** -/
theorem FromTerm.slots_sql : ∀ f : FromTerm, f.sql.slots = f.binds
  | .named _ => rfl
  | .aliased _ _ => rfl
  | .query query _ => by simp [FromTerm.sql, FromTerm.binds, Sql.parenthesized, query.slots_sql]
  | .join first parts => by
    rw [FromTerm.sql, Sql.slots_append, first.slots_sql, JoinTerm.slots_sqlList parts,
      FromTerm.binds]

theorem JoinTerm.slots_sql : ∀ p : JoinTerm, p.sql.slots = p.binds
  | .mk _ source condition => by
    simp [JoinTerm.sql, JoinTerm.binds, source.slots_sql, Term.slots_sqlClause _ condition]

theorem JoinTerm.slots_sqlList : ∀ ps : List JoinTerm,
    (JoinTerm.sqlList ps).slots = JoinTerm.bindsList ps
  | [] => rfl
  | p :: ps => by
    rw [JoinTerm.sqlList, Sql.slots_append, p.slots_sql, JoinTerm.slots_sqlList ps,
      JoinTerm.bindsList]

end

/-! ## Statements

A statement is counted by its text alone: no quote is left open at the end, no
comment begins outside of quotes and no semicolon stands there, so what an
engine counts are the placeholders that were written. -/

/-- **A statement that is sent with arguments.** -/
inductive Statement where
  /-- A query. -/
  | select (s : Select)
  /-- A statement that adds a row. -/
  | insert (s : Insert)
  /-- A statement that changes rows. -/
  | update (s : Update)
  /-- A statement that deletes rows. -/
  | delete (s : Delete)

namespace Statement

/-- The text of the statement. -/
def sql : Statement → Sql
  | .select s => s.sql
  | .insert s => s.sql
  | .update s => s.sql
  | .delete s => s.sql

/-- **The types of the placeholders of a statement**, from left to right. -/
def binds : Statement → List Codec
  | .select s => s.tree.binds
  | .insert s => s.entries.flatMap fun e => e.2.binds
  | .update s =>
    (s.entries.flatMap fun e => e.2.binds) ++
      (match s.source? with
        | none => []
        | some source => source.binds) ++ Term.bindsClause s.filter?
  | .delete s => Term.bindsClause s.filter?

/-- **A statement is printed as a phrase.** -/
theorem phrase : ∀ s : Statement, Phrase s.sql
  | .select s => s.phrase
  | .insert s => s.phrase
  | .update s => s.phrase
  | .delete s => s.phrase

/-- Assigned values are printed with their placeholders in order, whatever is
written in front of each. -/
theorem flatMap_slots_entries {entries : List (Identifier × Term)}
    {f : Identifier × Term → Sql} (hf : ∀ e, (f e).slots = e.2.sql.slots) :
    (entries.map f).flatMap Sql.slots = entries.flatMap fun e => e.2.binds := by
  rw [List.flatMap_map]
  exact List.flatMap_congr fun e _ => (hf e).trans e.2.slots_sql

theorem slots_names (is : List Identifier) : (Sql.names is).slots = [] := by
  rw [Sql.names, Sql.slots_commaList, List.flatMap_map]
  exact List.flatMap_eq_nil_iff.mpr fun i _ => Sql.slots_name i

/-- **A statement is printed with its placeholders in order.** -/
theorem slots_sql : ∀ s : Statement, s.sql.slots = s.binds
  | .select s => s.tree.slots_sql
  | .insert s => by
    have hvalues := @flatMap_slots_entries s.entries (fun e => e.2.sql) fun _ => rfl
    rw [sql, Insert.sql, binds, Sql.slots_append, Sql.slots_append, Sql.slots_words,
      Sql.slots_name]
    split
    · next hempty =>
      rw [List.isEmpty_iff.mp hempty]
      rfl
    · simp only [Sql.parenthesized, Sql.slots_append, Sql.slots_words, slots_names,
        Sql.slots_commaList, hvalues, List.nil_append, List.append_nil]
  | .update s => by
    have hvalues := @flatMap_slots_entries s.entries
      (fun e => Sql.name e.1 ++ Sql.words " = " ++ e.2.sql) fun e => by
        rw [Sql.slots_append, Sql.slots_append, Sql.slots_name, Sql.slots_words]
        rfl
    rw [sql, Update.sql, binds]
    simp only [Sql.slots_append, Sql.slots_words, Sql.slots_name, Sql.slots_commaList, hvalues,
      Term.slots_sqlClause, List.nil_append]
    cases s.source? with
    | none => rfl
    | some source =>
      rw [Sql.slots_append, Sql.slots_words, source.slots_sql]
      rfl
  | .delete s => by
    rw [sql, Delete.sql, Sql.slots_append, Term.slots_sqlClause]
    rfl

/-- **What it takes to bind a statement by counting**: the text of `sql`, read
from the left, shows one question mark for each of the types, and nothing
that would end the statement before its end. -/
structure Counted (sql : Sql) (types : List Codec) : Prop where
  /-- No quote is left open. -/
  closed : openQuote sql.text.toList = []
  /-- Nothing outside quotes ends the statement or begins a comment. -/
  quiet : Quiet (unquoted sql.text.toList)
  /-- There are as many question marks outside quotes as places to bind. -/
  count : (placeholders sql.text.toList).length = (Bindings.ofCodecs sql.slots).size
  /-- They stand where the placeholders were written. -/
  places : placeholders sql.text.toList = (sql.slotsFrom 0).map Prod.fst
  /-- Each has the type of the placeholder that was written there. -/
  types_eq : sql.slots = (sql.slotsFrom 0).map Prod.snd
  /-- These are the placeholders of the tree. -/
  slots_eq : sql.slots = types

/-- **Placeholders and types match in every statement.** -/
theorem placeholders_eq (s : Statement) : Counted s.sql s.binds where
  closed := s.phrase.openQuote_text
  quiet := s.phrase.quiet
  count := by
    rw [placeholders, s.phrase.marks_text, List.length_map, Bindings.size_ofCodecs,
      ← Sql.map_snd_slotsFrom 0, List.length_map]
  places := s.phrase.marks_text 0
  types_eq := (Sql.map_snd_slotsFrom 0 s.sql).symm
  slots_eq := s.slots_sql

end Statement

end TypedSql

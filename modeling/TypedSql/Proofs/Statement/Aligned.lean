import TypedSql.Proofs.Sql.Text
import TypedSql.Proofs.Statement.Assignments
import TypedSql.Proofs.Statement.Conditions
import TypedSql.Proofs.Statement.Placeholders

/-!
# Columns and values stay in step

A statement that adds a row prints its columns and its values in two lists.
They belong together place by place, because a value that is assigned again
changes in place: no column moves, and a column that is new comes last in both
lists. So the columns stand in the order of their first assignment
(`Assignments.names_setAll`) and each has the value of its last one, and the
placeholders of the statement are those of the values that are left
(`Assignments.aligned`). A value that gave way leaves nothing behind, not even
a place to bind.
-/

namespace TypedSql

/-! ## The order of the columns

The names of the entries are a list without repetitions, and a list is kept so
by adding what is not in it yet. `List.eraseDups` is that list for the names of
all assignments, and it grows at the end by the names that are new. -/

namespace Assignments

section Names

variable {name : Identifier} {value : Term} {entries : List (Identifier × Term)}

/-- A name that is there already stays where it is. -/
theorem names_put_of_mem (h : name ∈ entries.map Prod.fst) :
    (put name value entries).map Prod.fst = entries.map Prod.fst := by
  induction entries with
  | nil => cases h
  | cons entry entries ih =>
    rw [put]
    split
    · next hname => rw [List.map_cons, List.map_cons, hname]
    · next hname =>
      have hrest := (List.mem_cons.mp h).resolve_left fun heq => hname heq.symm
      rw [List.map_cons, List.map_cons, ih hrest]

/-- A new name comes last. -/
theorem names_put_of_notMem (h : name ∉ entries.map Prod.fst) :
    (put name value entries).map Prod.fst = entries.map Prod.fst ++ [name] := by
  induction entries with
  | nil => rfl
  | cons entry entries ih =>
    rw [List.map_cons, List.mem_cons, not_or] at h
    rw [put, if_neg (Ne.symm h.1), List.map_cons, List.map_cons, ih h.2, List.cons_append]

end Names

variable {table : Identifier} {values : List Assignment}

theorem setAll_concat (a : Assignments) (values : List Assignment) (x : Assignment) :
    setAll a (values ++ [x]) = (setAll a values).set x.column x.value :=
  List.foldl_append

/-- **The names of the entries** are those of the columns, in the order in
which they were assigned first. -/
theorem names_setAll (h : ∀ x ∈ values, x.Into table) :
    (setAll { table } values).entries.map Prod.fst
      = (values.map fun x => x.column.name).eraseDups := by
  induction values using List.reverseRecOn with
  | nil => rfl
  | append_singleton values x ih =>
    rw [List.forall_mem_append, List.forall_mem_singleton] at h
    have hbefore := ih h.1
    have hinto : x.column.table = (setAll { table } values).table :=
      h.2.trans (made table values).table_eq.symm
    rw [setAll_concat, set, assign, if_pos hinto, List.map_append, List.map_singleton,
      List.eraseDups_append]
    -- assigned before, the column keeps its place; otherwise it comes last
    by_cases hmem : x.column.name ∈ values.map fun x => x.column.name
    · have hnothing : [x.column.name].removeAll (values.map fun x => x.column.name) = [] := by
        simpa [List.removeAll] using hmem
      rw [names_put_of_mem (hbefore ▸ List.mem_eraseDups.mpr hmem), hbefore, hnothing]
      exact (List.append_nil _).symm
    · have hnew : [x.column.name].removeAll (values.map fun x => x.column.name)
          = [x.column.name] := by
        simpa [List.removeAll] using hmem
      rw [names_put_of_notMem (hbefore ▸ mt List.mem_eraseDups.mp hmem), hbefore, hnew]
      rfl

/-! ## Entries in step

Entries are in step with the values when their names come in the order of the
first assignments and each of them has the value of its last one. The order and
the values are proved apart, since the
order is settled by the first assignment of a column and the value by the last.
-/

/-- **Entries in step with the values** that were assigned one after the
other. -/
structure InStep (values : List Assignment) (entries : List (Identifier × Term)) : Prop where
  /-- The columns stand in the order of their first assignment. -/
  names : entries.map Prod.fst = (values.map fun x => x.column.name).eraseDups
  /-- Each of them stands there once. -/
  nodup : (entries.map Prod.fst).Nodup
  /-- In its place is the value that it was given last. -/
  last : ∀ (i : Nat) (name : Identifier) (value : Term), entries[i]? = some (name, value) →
    ∃ earlier x later, values = earlier ++ x :: later ∧ x.column.name = name ∧
      x.value.term = value ∧ ∀ y ∈ later, y.column.name ≠ name

/-- **Values for columns of the table** leave entries in step with them. -/
theorem inStep_setAll (h : ∀ x ∈ values, x.Into table) :
    InStep values (setAll { table } values).entries where
  names := names_setAll h
  nodup := (made table values).nodup
  last i name value hi := by
    obtain ⟨earlier, x, later, rfl, -, hentry, hlater⟩ :=
      ((made table values).mem_entries _).mp (List.mem_of_getElem? hi)
    obtain ⟨rfl, rfl⟩ := Prod.mk.inj hentry
    refine ⟨earlier, x, later, rfl, rfl, rfl, fun y hy => hlater y hy (h y ?_)⟩
    exact List.mem_append_right earlier (List.mem_cons_of_mem x hy)

/-- Where something was assigned there are entries. -/
theorem InStep.ne_nil {entries : List (Identifier × Term)} (h : InStep values entries)
    (hne : values ≠ []) : entries ≠ [] := by
  rintro rfl
  obtain ⟨x, hx⟩ := List.exists_mem_of_ne_nil values hne
  have hname : x.column.name ∈ (values.map fun x => x.column.name).eraseDups :=
    List.mem_eraseDups.mpr (List.mem_map_of_mem hx)
  rw [← h.names] at hname
  cases hname

theorem finish?_setAll (h : ∀ x ∈ values, x.Into table) :
    (setAll { table } values).finish? = .ok (setAll { table } values).entries := by
  have hnone : (values.find? fun x => ¬ x.Into table) = none :=
    List.find?_eq_none.mpr fun x hx => by simpa using h x hx
  rw [finish?, (made table values).error_eq, hnone]
  rfl

/-- The first value for a column of another table is refused. -/
theorem finish?_setAll_of_foreign {earlier : List Assignment} {x : Assignment}
    (hearlier : ∀ y ∈ earlier, y.Into table) (hx : ¬ x.Into table) (later : List Assignment) :
    (setAll { table } (earlier ++ x :: later)).finish? = .error (x.fault table) := by
  have hnone : (earlier.find? fun x => ¬ x.Into table) = none :=
    List.find?_eq_none.mpr fun y hy => by simpa using hearlier y hy
  have hsome : ((earlier ++ x :: later).find? fun x => ¬ x.Into table) = some x := by
    rw [List.find?_append, hnone, Option.none_or]
    exact List.find?_cons_of_pos (by simpa using hx)
  rw [finish?, (made table _).error_eq, hsome]
  rfl

end Assignments

/-! ## Statements

The two statements print their entries differently, one in two lists and the
other as equations, so each has a statement of its own about its text. What
they share is that the places to bind are those of the values in the order of
the entries. -/

/-- **A statement that adds a row is written** with columns and values, place
by place. -/
structure Insert.Writes (s : Insert) (onConflict : OnConflict) (table : Identifier)
    (entries : List (Identifier × Term)) : Prop where
  /-- The names stand in one list and the values in another. -/
  text : s.sql.text = onConflict.insertKeyword ++ " INTO " ++ table.quoted ++ " (" ++
    ", ".intercalate (entries.map fun e => e.1.quoted) ++ ") VALUES (" ++
    ", ".intercalate (entries.map fun e => e.2.sql.text) ++ ")"
  /-- The placeholders are those of the values, in their order. -/
  slots : s.sql.slots = entries.flatMap fun e => e.2.binds

/-- It is written with its entries. -/
theorem Insert.writes (table : Identifier) (onConflict : OnConflict)
    {entries : List (Identifier × Term)} (hne : entries ≠ []) :
    Insert.Writes { table, onConflict, entries } onConflict table entries where
  text := by
    have hempty : ¬ entries.isEmpty = true := by simpa using hne
    rw [sql, if_neg hempty]
    simp only [Sql.text_append, Sql.text_words, Sql.text_name, Sql.text_parenthesized,
      Sql.text_names, Sql.text_commaList, List.map_map, Function.comp_def, String.append_assoc]
    rfl
  slots := (Statement.insert _).slots_sql

theorem Insert.of?_eq_ok {onConflict : OnConflict} {a : Assignments}
    {entries : List (Identifier × Term)} (h : a.finish? = .ok entries) :
    of? onConflict a = .ok { table := a.table, onConflict, entries } := by
  rw [of?, h]
  rfl

namespace Update

/-- What stands behind the assignments. -/
def rest (s : Update) : Sql :=
  (match s.source? with
    | none => []
    | some source => Sql.words " FROM " ++ source.sql) ++
    Term.sqlClause " WHERE " s.filter?

theorem sql_eq (s : Update) : s.sql =
    Sql.words (s.onConflict.updateKeyword ++ " ") ++ Sql.name s.table ++ Sql.words " SET " ++
      Sql.commaList (s.entries.map fun e => Sql.name e.1 ++ Sql.words " = " ++ e.2.sql) ++
      s.rest := by
  rw [sql, List.append_assoc _ _ (Term.sqlClause _ _)]
  rfl

/-- **A statement that changes rows is written** with each column and its value
together, and with the rest behind them. -/
structure Writes (s : Update) (onConflict : OnConflict) (table : Identifier)
    (entries : List (Identifier × Term)) : Prop where
  /-- A name and its value stand together. -/
  text : s.sql.text = onConflict.updateKeyword ++ " " ++ table.quoted ++ " SET " ++
    ", ".intercalate (entries.map fun e => e.1.quoted ++ " = " ++ e.2.sql.text) ++ s.rest.text
  /-- The placeholders of the values come first, in their order. -/
  slots : s.sql.slots = (entries.flatMap fun e => e.2.binds) ++ s.rest.slots

theorem writes (s : Update) : s.Writes s.onConflict s.table s.entries where
  text := by
    simp only [sql_eq, Sql.text_append, Sql.text_words, Sql.text_name, Sql.text_commaList,
      List.map_map, Function.comp_def]
  slots := by
    simp only [sql_eq, Sql.slots_append, Sql.slots_words, Sql.slots_name, Sql.slots_commaList,
      List.nil_append, List.flatMap_map, Term.slots_sql]

theorem of?_eq_ok {onConflict : OnConflict} {a : Assignments} {entries : List (Identifier × Term)}
    (h : a.finish? = .ok entries) (hne : entries ≠ []) :
    of? onConflict a = .ok { table := a.table, onConflict, entries } := by
  have hempty : ¬ entries.isEmpty = true := by simpa using hne
  simp only [of?, h, bind, Except.bind, if_neg hempty]
  rfl

/-- No clause that is added changes what is assigned. -/
theorem foldl_refine_assigned (clauses : List UpdateClause) (s : Update) :
    (clauses.foldl refine s).onConflict = s.onConflict ∧
      (clauses.foldl refine s).table = s.table ∧
      (clauses.foldl refine s).entries = s.entries := by
  induction clauses generalizing s with
  | nil => exact ⟨rfl, rfl, rfl⟩
  | cons clause clauses ih =>
    cases clause with
    | source source => exact ih (s.from source)
    | restrict condition => exact ih (s.restrict condition)

end Update

/-! ## All together -/

/-- **Columns and values stay in step.** However often columns are assigned,
the statement has each of them once, in the order of the first assignments and
with the value of the last one, and its placeholders are those of these values;
in a statement that changes rows nothing that is added later changes that. The
first column of another table is refused. Where nothing is assigned, a row
takes its defaults, and there is nothing to change. -/
theorem Assignments.aligned (table : Identifier) (onConflict : OnConflict)
    (values : List Assignment) :
    let a := setAll { table } values
    (∀ earlier x later, values = earlier ++ x :: later → (∀ y ∈ earlier, y.Into table) →
      ¬ x.Into table →
      let refusal := .foreignColumnAssignment table.name x.column.qualifiedName
      Insert.of? onConflict a = .error refusal ∧ Update.of? onConflict a = .error refusal) ∧
    (values ≠ [] → (∀ x ∈ values, x.Into table) → ∃ entries, InStep values entries ∧
      (∃ s, Insert.of? onConflict a = .ok s ∧ s.Writes onConflict table entries) ∧
      ∃ u, Update.of? onConflict a = .ok u ∧ ∀ clauses : List UpdateClause,
        (clauses.foldl Update.refine u).Writes onConflict table entries) ∧
    (values = [] →
      (∃ s, Insert.of? onConflict a = .ok s ∧ s.sql.slots = [] ∧
        s.sql.text =
          onConflict.insertKeyword ++ " INTO " ++ table.quoted ++ " DEFAULT VALUES") ∧
      Update.of? onConflict a = .error (.noAssignments table.name)) := by
  intro a
  refine ⟨?_, fun hne hown => ?_, ?_⟩
  · -- the first column of another table decides for both statements
    rintro earlier x later rfl hearlier hx
    have hfinish := finish?_setAll_of_foreign hearlier hx later
    exact ⟨by rw [Insert.of?, hfinish]; rfl, by rw [Update.of?, hfinish]; rfl⟩
  · have hfinish := finish?_setAll hown
    have hstep := inStep_setAll hown
    have hentries := hstep.ne_nil hne
    have htable : (setAll { table } values).table = table := (made table values).table_eq
    refine ⟨_, hstep, ⟨_, Insert.of?_eq_ok hfinish, ?_⟩, _, Update.of?_eq_ok hfinish hentries,
      fun clauses => ?_⟩
    · rw [htable]
      exact Insert.writes table onConflict hentries
    · rw [htable]
      have hwrites := Update.writes (clauses.foldl Update.refine
        { table, onConflict, entries := (setAll { table } values).entries })
      obtain ⟨hconflict, hsame, hassigned⟩ := Update.foldl_refine_assigned clauses
        { table, onConflict, entries := (setAll { table } values).entries }
      rwa [hconflict, hsame, hassigned] at hwrites
  · rintro rfl
    refine ⟨⟨{ table, onConflict, entries := [] }, rfl, rfl, ?_⟩, rfl⟩
    rw [Insert.sql]
    simp only [Sql.text_append, Sql.text_words, Sql.text_name, List.isEmpty_nil, if_true]

/-- A placeholder that gives way to a value, and a column of another table
behind it. -/
theorem Assignments.aligned_overwritten :
    let a : Column := ⟨0, ⟨"t"⟩, ⟨"a"⟩, .long, [], none⟩
    let b : Column := ⟨1, ⟨"t"⟩, ⟨"b"⟩, .text, [], none⟩
    let c : Column := ⟨2, ⟨"u"⟩, ⟨"c"⟩, .long, [], none⟩
    let values : List Assignment := [⟨a, .slot⟩, ⟨b, .slot⟩, ⟨a, .value (7 : Int64)⟩]
    (values ≠ [] ∧ (∀ x ∈ values, x.Into ⟨"t"⟩) ∧ ∃ entries, InStep values entries ∧
      ∃ s, Insert.of? .ignore (setAll { table := ⟨"t"⟩ } values) = .ok s ∧
        s.Writes .ignore ⟨"t"⟩ entries ∧ s.sql.slots = [.text]) ∧
    Insert.of? .ignore (setAll { table := ⟨"t"⟩ } (values ++ [⟨c, .slot⟩]))
      = .error (.foreignColumnAssignment "t" "u.c") := by
  intro a b c values
  have hne : values ≠ [] := by simp [values]
  have hown : ∀ x ∈ values, x.Into ⟨"t"⟩ := by
    simp only [values, List.forall_mem_cons]
    exact ⟨rfl, rfl, rfl, nofun⟩
  obtain ⟨entries, hstep, ⟨s, hs, hwrites⟩, -⟩ := (aligned ⟨"t"⟩ .ignore values).2.1 hne hown
  refine ⟨⟨hne, hown, entries, hstep, s, hs, hwrites, ?_⟩, ?_⟩
  · obtain rfl := Except.ok.inj hs
    rfl
  · exact ((aligned ⟨"t"⟩ .ignore (values ++ [⟨c, .slot⟩])).1 values ⟨c, .slot⟩ [] rfl hown
      (show ¬ (⟨"u"⟩ : Identifier) = ⟨"t"⟩ by decide)).1

end TypedSql

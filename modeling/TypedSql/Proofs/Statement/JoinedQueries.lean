import Mathlib.Data.List.Count
import Mathlib.Data.List.Nodup
import TypedSql.Proofs.Number.Numeral
import TypedSql.Proofs.Query.References
import TypedSql.Proofs.Statement.Conditions
import TypedSql.Proofs.Statement.FromReading

/-!
# Names that joins make

A query that is joined gets a name of the join's own making: `q0` is the first
one, `q1` the next, and every join counts for itself. A join is also a source
for another one, and it is written there link by link, so that the queries of
both stand in one clause.

`Join.Assembled` keeps account of a join while it is put together: the queries
that it named itself, the queries that each join inside it named, and the names
of all other sources. From this the names in the clause are counted
(`Join.Assembled.count_queryName`): a query's name is there once for every join
in the clause that named so many queries. So the names are distinct exactly
when one join at most named queries, and a reference through such a name is
to one source exactly when, besides, no other source has the name
(`Join.NamesQueries`). Nothing sees to it that only one join names queries
(`Join.not_nodup_of_nested`).
-/

namespace TypedSql

open FromReader

/-! ## The names in a clause

The names are collected from the tree and from what was read of its text, and
both lists are the same where the text can be read. A clause in parentheses has
no name of its own, and none is written. -/

mutual

/-- **The names in a clause**, one for each source, in the order in which they
are written. A query in parentheses is one source. -/
def FromTerm.names : FromTerm → List Identifier
  | .named name => [name]
  | .aliased _ name => [name]
  | .query _ name => [name]
  | .join first parts => first.names ++ JoinTerm.namesAll parts

/-- The names in a link. -/
def JoinTerm.names : JoinTerm → List Identifier
  | .mk _ source _ => source.names

/-- The names in several links. -/
def JoinTerm.namesAll : List JoinTerm → List Identifier
  | [] => []
  | p :: ps => p.names ++ JoinTerm.namesAll ps

end

/-- The name of a source that was read, if it is not a clause. -/
def SourceTree.name? : SourceTree → Option Identifier
  | .named name => some name
  | .aliased _ name => some name
  | .query _ name => some name
  | .clause _ _ => none

/-- The names of the sources of a clause that was read. -/
def FromClause.names? (c : FromClause) : List (Option Identifier) := c.sources.map SourceTree.name?

/-- The names in front of a place where a source is due. -/
def FromReader.Gap.names? : Gap → List (Option Identifier)
  | .first => []
  | .link c _ => c.names?

theorem FromReader.Gap.names?_fill (gap : Gap) (x : SourceTree) :
    (gap.fill x).names? = gap.names? ++ [x.name?] := by
  cases gap with
  | first => rfl
  | link c type =>
    simp only [fill, names?, FromClause.names?, FromClause.sources, List.map_append, List.map_cons,
      List.map_nil, List.cons_append]
    rfl

theorem FromClause.names?_of_on? {c d : FromClause} {condition : List Token}
    (h : c.on? condition = some d) : d.names? = c.names? :=
  congrArg (List.map SourceTree.name?) (sources_of_on? h)

mutual

/-- **What is spliced in** has its names behind those that are there. -/
theorem FromTerm.names?_of_splice : ∀ (f : FromTerm) (gap : Gap) {c : FromClause},
    f.splice gap = some c → c.names? = gap.names? ++ f.names.map some
  | .named _, gap, _, h | .aliased _ _, gap, _, h | .query _ _, gap, _, h =>
    Option.some.inj h ▸ gap.names?_fill _
  | .join first parts, gap, c, h => by
    rw [FromTerm.splice] at h
    obtain ⟨d, hd, hparts⟩ := Option.bind_eq_some_iff.mp h
    rw [JoinTerm.names?_of_spliceAll hparts, first.names?_of_splice gap hd, FromTerm.names,
      List.map_append, List.append_assoc]

theorem JoinTerm.names?_of_splice : ∀ {p : JoinTerm} {c d : FromClause},
    p.splice c = some d → d.names? = c.names? ++ p.names.map some
  | .mk type source none, c, _, h => source.names?_of_splice (.link c type) h
  | .mk type source (some _), c, d, h => by
    rw [JoinTerm.splice] at h
    obtain ⟨e, he, hon⟩ := Option.bind_eq_some_iff.mp h
    rw [FromClause.names?_of_on? hon]
    exact source.names?_of_splice (.link c type) he

theorem JoinTerm.names?_of_spliceAll : ∀ {ps : List JoinTerm} {c d : FromClause},
    JoinTerm.spliceAll ps c = some d → d.names? = c.names? ++ (JoinTerm.namesAll ps).map some
  | [], _, _, h => by
    obtain rfl := Option.some.inj h
    exact (List.append_nil _).symm
  | p :: ps, c, d, h => by
    rw [JoinTerm.spliceAll] at h
    obtain ⟨e, he, hrest⟩ := Option.bind_eq_some_iff.mp h
    rw [JoinTerm.names?_of_spliceAll hrest, JoinTerm.names?_of_splice he, JoinTerm.namesAll,
      List.map_append, List.append_assoc]

end

/-- **A reader finds the names of a clause**, and one source for each. -/
theorem FromTerm.names?_of_read? (f : FromTerm) {c : FromClause}
    (h : FromClause.read? f.sql.text.toList = some c) : c.names? = f.names.map some := by
  rw [f.read?_text] at h
  exact f.names?_of_splice .first h

/-! ## The clause of a join

Every call that joins something adds the names of that thing at the end, which
are several where it is a join. -/

/-- What a call joins as it is, without giving it a name. -/
def JoinCall.source? : JoinCall → Option Source
  | on source _ _ => some source
  | onEqual source _ _ _ => some source
  | cross source => some source
  | byForeignKey _ table => some table.source
  | onQuery _ _ _ => none
  | andOn _ => none

namespace Join

theorem namesAll_append (ps qs : List JoinTerm) :
    JoinTerm.namesAll (ps ++ qs) = JoinTerm.namesAll ps ++ JoinTerm.namesAll qs := by
  induction ps with
  | nil => rfl
  | cons p ps ih =>
    rw [List.cons_append, JoinTerm.namesAll, JoinTerm.namesAll, ih, List.append_assoc]

theorem names_of (source : Source) : (of source).tree.names = source.tree.names :=
  List.append_nil _

/-- **A source that is joined** has its names at the end. -/
theorem names_push (j : Join) (type : JoinType) (source : Source) (condition? : Option Term) :
    (j.push type source condition?).tree.names = j.tree.names ++ source.tree.names := by
  simp only [push, tree, FromTerm.names, List.map_append, namesAll_append, List.map_cons,
    List.map_nil, JoinPart.tree, JoinTerm.namesAll, JoinTerm.names, List.append_nil,
    List.append_assoc]

theorem names_onQuery (j : Join) (type : JoinType) (query : QueryAlias) (condition : Term) :
    (j.onQuery type query condition).tree.names = j.tree.names ++ [query.name] :=
  j.names_push type query.source (some condition)

/-- A condition adds no name. -/
theorem names_andOn (j : Join) (condition : Term) :
    (j.andOn condition).tree.names = j.tree.names := by
  cases hlast : j.parts.getLast? with
  | none => rw [andOn, hlast]
  | some last =>
    obtain ⟨parts, hparts⟩ := List.getLast?_eq_some_iff.mp hlast
    rw [andOn_of_parts hparts]
    simp only [tree, FromTerm.names, hparts, List.map_append, List.map_cons, List.map_nil,
      namesAll_append]
    rfl

/-- A call that joins a source adds a link to it. -/
theorem of_call_source? {j j' : Join} {c : JoinCall} {source : Source}
    (hc : c.source? = some source) (h : j.call c = .ok j') :
    ∃ type condition?, j' = j.push type source condition? := by
  cases c with
  | on _ type condition =>
    obtain rfl := Option.some.inj hc
    exact ⟨type, some condition, (Except.ok.inj h).symm⟩
  | onEqual _ type left right =>
    obtain rfl := Option.some.inj hc
    exact ⟨type, _, (Except.ok.inj h).symm⟩
  | cross _ =>
    obtain rfl := Option.some.inj hc
    exact ⟨.cross, none, (Except.ok.inj h).symm⟩
  | byForeignKey type table =>
    obtain rfl := Option.some.inj hc
    obtain ⟨condition, rfl⟩ := of_byForeignKey h
    exact ⟨type, some condition, rfl⟩
  | onQuery | andOn => cases hc

/-! ### Names of its own making -/

/-- The name that a join gives to the query that it joins after `k` others. -/
def queryName (k : Nat) : Identifier := ⟨"q" ++ integerText k⟩

/-- Different numbers make different names. -/
theorem queryName_injective : Function.Injective queryName := by
  intro k l h
  have hname : "q" ++ integerText k = "q" ++ integerText l := congrArg Identifier.name h
  have htext : (integerText k).toList = (integerText l).toList := by
    have hlist := congrArg String.toList hname
    rw [String.toList_append, String.toList_append] at hlist
    exact List.append_cancel_left hlist
  have hread := congrArg readInteger? htext
  rw [readInteger?_integerText, readInteger?_integerText] at hread
  exact Int.ofNat.inj (Option.some.inj hread)

/-- **Queries that a join named**, one after the other. -/
def Numbered (queries : List QueryAlias) : Prop :=
  ∀ k a, queries[k]? = some a → ∃ (s : Select) (n : ExprId), a = ((s.as (queryName k)).run n).1

namespace Numbered

variable {queries : List QueryAlias}

theorem concat (h : Numbered queries) (s : Select) (n : ExprId) :
    Numbered (queries ++ [((s.as (queryName queries.length)).run n).1]) := by
  intro k a hk
  obtain hlt | rfl | hgt := Nat.lt_trichotomy k queries.length
  · exact h k a (by rwa [List.getElem?_append_left hlt] at hk)
  · rw [List.getElem?_concat_length] at hk
    exact ⟨s, n, (Option.some.inj hk).symm⟩
  · rw [List.getElem?_eq_none (by rw [List.length_append, List.length_singleton]; omega)] at hk
    cases hk

theorem name_eq (h : Numbered queries) {k : Nat} {a : QueryAlias} (hk : queries[k]? = some a) :
    a.name = queryName k := by
  obtain ⟨s, n, rfl⟩ := h k a hk
  rfl

/-- **The names count up.** -/
theorem map_name (h : Numbered queries) :
    queries.map QueryAlias.name = (List.range queries.length).map queryName := by
  refine List.ext_getElem? fun k => ?_
  rw [List.getElem?_map, List.getElem?_map]
  by_cases hlt : k < queries.length
  · rw [List.getElem?_eq_getElem hlt, List.getElem?_range hlt, Option.map_some, Option.map_some,
      h.name_eq (List.getElem?_eq_getElem hlt)]
  · rw [List.getElem?_eq_none (by omega), List.getElem?_eq_none (by rw [List.length_range]; omega)]
    rfl

/-- A name is there once if there are so many queries, and otherwise not at
all. -/
theorem count_queryName (h : Numbered queries) (k : Nat) :
    (queries.map QueryAlias.name).count (queryName k) = if k < queries.length then 1 else 0 := by
  rw [h.map_name, List.count_map_of_injective _ _ queryName_injective, List.count_range]

end Numbered

/-! ## Joins put together

The derivation follows the program: a source to begin with, which may be a
join, and then one call after the other. Its indices are the account that has
to be kept, and each constructor says what its call adds to them. -/

/-- **A join that a program puts together**, with the queries that it named,
the queries that each of the joins inside it named, and the names of all other
sources in its clause. -/
inductive Assembled : Join → List QueryAlias → List (List QueryAlias) → List Identifier → Prop where
  /-- It starts with a table, a view or a query. -/
  | of {source : Source} {name : Identifier} : source.tree.names = [name] →
    Assembled (.of source) [] [] [name]
  /-- It starts with a join. -/
  | ofJoin {i : Join} {own : List QueryAlias} {inner : List (List QueryAlias)}
      {others : List Identifier} : Assembled i own inner others →
    Assembled (.of i.source) [] (own :: inner) others
  /-- A table, a view or a query is joined. -/
  | link {j j' : Join} {own : List QueryAlias} {inner : List (List QueryAlias)}
      {others : List Identifier} {c : JoinCall} {source : Source} {name : Identifier} :
    Assembled j own inner others → c.source? = some source → source.tree.names = [name] →
    j.call c = .ok j' → Assembled j' own inner (others ++ [name])
  /-- A join is joined. -/
  | linkJoin {j j' i : Join} {own own' : List QueryAlias} {inner inner' : List (List QueryAlias)}
      {others others' : List Identifier} {c : JoinCall} :
    Assembled j own inner others → Assembled i own' inner' others' → c.source? = some i.source →
    j.call c = .ok j' → Assembled j' own (inner ++ own' :: inner') (others ++ others')
  /-- A query is joined and gets the next name. -/
  | onQuery {j : Join} {own : List QueryAlias} {inner : List (List QueryAlias)}
      {others : List Identifier} (type : JoinType) (s : Select) (n : ExprId) (condition : Term) :
    Assembled j own inner others →
    Assembled (j.onQuery type ((s.as j.nextName).run n).1 condition)
      (own ++ [((s.as j.nextName).run n).1]) inner others
  /-- The last condition gets more. -/
  | andOn {j : Join} {own : List QueryAlias} {inner : List (List QueryAlias)}
      {others : List Identifier} (condition : Term) :
    Assembled j own inner others → Assembled (j.andOn condition) own inner others

namespace Assembled

variable {j : Join} {own : List QueryAlias} {inner : List (List QueryAlias)}
  {others : List Identifier}

/-- A join counts the queries that it named, and those alone. -/
theorem nextAlias_eq (h : Assembled j own inner others) : j.nextAlias = own.length := by
  induction h with
  | of | ofJoin => rfl
  | link _ hc _ hcall ih =>
    obtain ⟨type, condition?, rfl⟩ := of_call_source? hc hcall
    exact ih
  | linkJoin _ _ hc hcall ih _ =>
    obtain ⟨type, condition?, rfl⟩ := of_call_source? hc hcall
    exact ih
  | onQuery type s n condition _ ih =>
    rw [List.length_append]
    exact congrArg (· + 1) ih
  | @andOn j _ _ _ condition _ ih =>
    rw [Join.andOn]
    split <;> exact ih

/-- **Every join counts from zero**, the joins inside it included. -/
theorem numbered (h : Assembled j own inner others) : ∀ g ∈ own :: inner, Numbered g := by
  induction h with
  | of => exact List.forall_mem_singleton.mpr nofun
  | ofJoin _ ih => exact List.forall_mem_cons.mpr ⟨nofun, ih⟩
  | link _ _ _ _ ih => exact ih
  | linkJoin _ _ _ _ ih ih' =>
    rw [List.forall_mem_cons] at ih
    exact List.forall_mem_cons.mpr ⟨ih.1, List.forall_mem_append.mpr ⟨ih.2, ih'⟩⟩
  | onQuery type s n condition hj ih =>
    rw [List.forall_mem_cons] at ih
    rw [nextName, hj.nextAlias_eq]
    exact List.forall_mem_cons.mpr ⟨ih.1.concat s n, ih.2⟩
  | andOn _ _ ih => exact ih

/-- **How often a name is in the clause**: as often as among the queries that
were named and among the others. -/
theorem count_names (h : Assembled j own inner others) (i : Identifier) :
    j.tree.names.count i =
      ((own :: inner).flatten.map QueryAlias.name).count i + others.count i := by
  induction h with
  | of hname =>
    rw [names_of, hname]
    exact (Nat.zero_add _).symm
  | ofJoin _ ih =>
    rw [names_of]
    exact ih
  -- a source with a name of its own, which may be any
  | link _ hc hname hcall ih =>
    obtain ⟨type, condition?, rfl⟩ := of_call_source? hc hcall
    rw [names_push, hname, List.count_append, List.count_append, ih, Nat.add_assoc]
  -- a join inside brings along all names of its clause
  | @linkJoin j j' i _ _ _ _ _ _ c _ _ hc hcall ih ih' =>
    obtain ⟨type, condition?, rfl⟩ := of_call_source? hc hcall
    rw [names_push, List.count_append, ih]
    have hinner : i.source.tree.names = i.tree.names := rfl
    rw [hinner, ih']
    simp only [List.flatten_cons, List.flatten_append, List.map_append, List.count_append]
    omega
  | onQuery type s n condition _ ih =>
    rw [names_onQuery, List.count_append, ih]
    simp only [List.flatten_cons, List.map_append, List.count_append, List.map_cons, List.map_nil]
    omega
  | andOn condition _ ih =>
    rw [names_andOn]
    exact ih

end Assembled

/-- A name is there once for each of the joins that named so many queries. -/
theorem count_flatten_queryName {groups : List (List QueryAlias)}
    (h : ∀ g ∈ groups, Numbered g) (k : Nat) :
    (groups.flatten.map QueryAlias.name).count (queryName k) =
      groups.countP fun g => k < g.length := by
  induction groups with
  | nil => rfl
  | cons g groups ih =>
    obtain ⟨hg, hgroups⟩ := List.forall_mem_cons.mp h
    rw [List.flatten_cons, List.map_append, List.count_append, hg.count_queryName, ih hgroups,
      List.countP_cons, Nat.add_comm]
    simp only [decide_eq_true_eq]

theorem countP_lt_length_le (groups : List (List QueryAlias)) (k : Nat) :
    groups.countP (fun g => k < g.length) ≤ groups.countP fun g => 0 < g.length :=
  List.countP_mono_left fun _ _ hk =>
    decide_eq_true (Nat.zero_lt_of_lt (of_decide_eq_true hk))

/-- Every query was given one of the names. -/
theorem exists_place {groups : List (List QueryAlias)} (h : ∀ g ∈ groups, Numbered g)
    {a : QueryAlias} (ha : a ∈ groups.flatten) :
    ∃ g ∈ groups, ∃ k, g[k]? = some a ∧ a.name = queryName k := by
  obtain ⟨g, hg, hmem⟩ := List.mem_flatten.mp ha
  obtain ⟨k, hk⟩ := List.getElem?_of_mem hmem
  exact ⟨g, hg, k, hk, (h g hg).name_eq hk⟩

/-- **The names differ** exactly when one join at most named queries. -/
theorem nodup_names_iff {groups : List (List QueryAlias)} (h : ∀ g ∈ groups, Numbered g) :
    (groups.flatten.map QueryAlias.name).Nodup ↔ groups.countP (fun g => 0 < g.length) ≤ 1 := by
  rw [List.nodup_iff_count_le_one, ← count_flatten_queryName h 0]
  refine ⟨fun hall => hall (queryName 0), fun hfirst i => ?_⟩
  by_cases hmem : i ∈ groups.flatten.map QueryAlias.name
  · obtain ⟨a, ha, rfl⟩ := List.mem_map.mp hmem
    obtain ⟨-, -, k, -, hname⟩ := exists_place h ha
    rw [count_flatten_queryName h] at hfirst
    rw [hname, count_flatten_queryName h]
    exact (countP_lt_length_le groups k).trans hfirst
  · rw [List.count_eq_zero_of_not_mem hmem]
    exact Nat.zero_le 1

end Join

/-! ## References

A reference is text, a name and a column behind it. It goes astray when two
sources of the clause have the name, and to no source when none has it; both
are excluded by counting the name in the clause. -/

/-- **A reference to a query with a name**, asked for by an expression of the
query, or one of the columns that it offers. -/
inductive QueryAlias.Refers (a : QueryAlias) : Expr → Prop where
  /-- What the query gives for an expression. -/
  | get {e r : Expr} : a.get e = .ok r → Refers a r
  /-- One of its columns. -/
  | item {c : OfferedColumn} : c ∈ a.columns → Refers a c.expr

/-- **A reference is made of the name** of the query and that of a column. -/
theorem QueryAlias.Refers.term_eq {s : Select} {name : Identifier} {n : ExprId} {r : Expr}
    (h : ((s.as name).run n).1.Refers r) : ∃ column, r.term = .column name column := by
  have hcolumns : ∀ c ∈ ((s.as name).run n).1.columns,
      ∃ column, c.expr.term = .column name column := by
    intro c hc
    have hmem := List.mem_map_of_mem (f := fun c => (c.origin, c.expr.term)) hc
    have hform : (((s.as name).run n).1.columns.map fun c => (c.origin, c.expr.term)) =
        s.items.filterMap fun i =>
          i.exposedName?.map fun column => (i.key.id, Term.column name column) :=
      OfferedColumn.ofItems_map name s.items n
    rw [hform] at hmem
    obtain ⟨i, -, hi⟩ := List.mem_filterMap.mp hmem
    obtain ⟨column, -, heq⟩ := Option.map_eq_some_iff.mp hi
    exact ⟨column, (Prod.mk.inj heq).2.symm⟩
  cases h with
  | get hr =>
    obtain ⟨c, hc, -, -, hterm⟩ := OfferedColumn.of_find? (QueryAlias.find?_of_get hr)
    obtain ⟨column, hcolumn⟩ := hcolumns c hc
    exact ⟨column, hterm.symm.trans hcolumn⟩
  | item hc => exact hcolumns _ hc

/-- **A reference to exactly one source** of a clause, by the name of it. -/
def Term.NamesOne (t : Term) (names : List Identifier) : Prop :=
  ∃ source column, t = .column source column ∧ names.count source = 1

/-- The column of a source is a reference to one source if one has the name. -/
theorem Term.namesOne_column {source column : Identifier} {names : List Identifier} :
    (Term.column source column).NamesOne names ↔ names.count source = 1 := by
  constructor
  · rintro ⟨source', column', heq, hcount⟩
    obtain ⟨rfl, -⟩ := Term.column.inj heq
    exact hcount
  · exact fun hcount => ⟨source, column, rfl, hcount⟩

namespace Join

/-- **The names in the clause of a join**, whose queries are given join by
join, with the names of all other sources. -/
structure NamesQueries (j : Join) (groups : List (List QueryAlias)) (others : List Identifier) :
    Prop where
  /-- Whoever reads the text finds these names, one for each source. -/
  read : ∀ c, FromClause.read? j.tree.sql.text.toList = some c →
    c.names? = j.tree.names.map some
  /-- They are those of the queries and of the others. -/
  names : j.tree.names.Perm (groups.flatten.map QueryAlias.name ++ others)
  /-- Every join counts from zero. -/
  numbered : ∀ g ∈ groups, g.map QueryAlias.name = (List.range g.length).map queryName
  /-- So the names differ exactly when one join at most named queries. -/
  distinct : (groups.flatten.map QueryAlias.name).Nodup ↔
    groups.countP (fun g => 0 < g.length) ≤ 1
  /-- A reference to the query at a place is to one source exactly when one
  join alone named so many, and no other source has the name. -/
  reference : ∀ g ∈ groups, ∀ k a, g[k]? = some a → ∀ r, a.Refers r →
    (r.term.NamesOne j.tree.names ↔
      groups.countP (fun g => k < g.length) = 1 ∧ queryName k ∉ others)
  /-- Every query is the only source of its name exactly when one join at most
  named queries, and no other source has the name of one. -/
  apart : (∀ a ∈ groups.flatten, j.tree.names.count a.name = 1) ↔
    groups.countP (fun g => 0 < g.length) ≤ 1 ∧ ∀ a ∈ groups.flatten, a.name ∉ others

namespace Assembled

variable {j : Join} {own : List QueryAlias} {inner : List (List QueryAlias)}
  {others : List Identifier}

/-- **How often a query's name is in the clause.** -/
theorem count_queryName (h : Assembled j own inner others) (k : Nat) :
    j.tree.names.count (queryName k) =
      (own :: inner).countP (fun g => k < g.length) + others.count (queryName k) := by
  rw [h.count_names, count_flatten_queryName h.numbered]

/-- It is there once exactly when one join alone named so many queries, and no
other source has it. -/
theorem count_queryName_eq_one_iff (h : Assembled j own inner others) {g : List QueryAlias}
    (hg : g ∈ own :: inner) {k : Nat} (hk : k < g.length) :
    j.tree.names.count (queryName k) = 1 ↔
      (own :: inner).countP (fun g => k < g.length) = 1 ∧ queryName k ∉ others := by
  have hpos : 0 < (own :: inner).countP fun g => k < g.length :=
    List.countP_pos_iff.mpr ⟨g, hg, decide_eq_true hk⟩
  rw [h.count_queryName, ← List.count_eq_zero]
  omega

/-- Every query is the only source of its name exactly when one join at most
named queries, and no other source has the name of one. -/
theorem apart_iff (h : Assembled j own inner others) :
    (∀ a ∈ (own :: inner).flatten, j.tree.names.count a.name = 1) ↔
      (own :: inner).countP (fun g => 0 < g.length) ≤ 1 ∧
        ∀ a ∈ (own :: inner).flatten, a.name ∉ others := by
  constructor
  · intro hall
    constructor
    · obtain hnone | hsome :=
        Nat.eq_zero_or_pos ((own :: inner).countP fun g => 0 < g.length)
      · omega
      · -- the first query of any join tells how many joins have one
        obtain ⟨g, hg, hpos⟩ := List.countP_pos_iff.mp hsome
        have hlt : 0 < g.length := of_decide_eq_true hpos
        have hfirst := hall g[0] (List.mem_flatten.mpr ⟨g, hg, List.getElem_mem hlt⟩)
        rw [(h.numbered g hg).name_eq (List.getElem?_eq_getElem hlt),
          h.count_queryName_eq_one_iff hg hlt] at hfirst
        exact hfirst.1.le
    · intro a ha
      obtain ⟨g, hg, k, hk, hname⟩ := exists_place h.numbered ha
      obtain ⟨hlt, -⟩ := List.getElem?_eq_some_iff.mp hk
      have hone := hall a ha
      rw [hname, h.count_queryName_eq_one_iff hg hlt] at hone
      rw [hname]
      exact hone.2
  · rintro ⟨hone, hothers⟩ a ha
    obtain ⟨g, hg, k, hk, hname⟩ := exists_place h.numbered ha
    obtain ⟨hlt, -⟩ := List.getElem?_eq_some_iff.mp hk
    have hapart := hothers a ha
    have hpos : 0 < (own :: inner).countP fun g => k < g.length :=
      List.countP_pos_iff.mpr ⟨g, hg, decide_eq_true hlt⟩
    rw [hname] at hapart ⊢
    refine (h.count_queryName_eq_one_iff hg hlt).mpr ⟨?_, hapart⟩
    exact Nat.le_antisymm ((countP_lt_length_le _ k).trans hone) hpos

/-- **What names are in the clause** of a join that was put together. -/
theorem namesQueries (h : Assembled j own inner others) : NamesQueries j (own :: inner) others where
  read c hc := j.tree.names?_of_read? hc
  names := List.perm_iff_count.mpr fun i => by rw [h.count_names, List.count_append]
  numbered g hg := (h.numbered g hg).map_name
  distinct := nodup_names_iff h.numbered
  reference g hg k a hk r hr := by
    obtain ⟨s, n, rfl⟩ := h.numbered g hg k a hk
    obtain ⟨column, hterm⟩ := hr.term_eq
    obtain ⟨hlt, -⟩ := List.getElem?_eq_some_iff.mp hk
    rw [hterm, Term.namesOne_column]
    exact h.count_queryName_eq_one_iff hg hlt
  apart := h.apart_iff

end Assembled

/-- The query of a source that selects a column `_id` of it. -/
def idQuery (source : Identifier) : Select :=
  let id : Expr := { id := 0, term := .column source ⟨"_id"⟩, offered := .long, codec := .long }
  .of { tree := .named source, items := [] } [.plain id]

/-- A join that names two queries: each of them is a source of its own. -/
theorem namesQueries_two :
    let b : Source := { tree := .named ⟨"b"⟩, items := [] }
    let sameId (k : Nat) : Term :=
      .binary .eq (.column ⟨"b"⟩ ⟨"_id"⟩) (.column (queryName k) ⟨"_id"⟩)
    let first := (((idQuery ⟨"b"⟩).as (queryName 0)).run 1).1
    let second := (((idQuery ⟨"b"⟩).as (queryName 1)).run 2).1
    let join := ((of b).onQuery .inner first (sameId 0)).onQuery .left second (sameId 1)
    Assembled join [first, second] [] [⟨"b"⟩] ∧
      join.NamesQueries [[first, second]] [⟨"b"⟩] ∧
      join.tree.names = [⟨"b"⟩, ⟨"q0"⟩, ⟨"q1"⟩] := by
  intro b sameId first second join
  have hstart : Assembled (of b) [] [] [⟨"b"⟩] := .of rfl
  have hfirst : Assembled ((of b).onQuery .inner first (sameId 0)) [first] [] [⟨"b"⟩] :=
    hstart.onQuery .inner (idQuery ⟨"b"⟩) 1 (sameId 0)
  have hjoin : Assembled join [first, second] [] [⟨"b"⟩] :=
    hfirst.onQuery .left (idQuery ⟨"b"⟩) 2 (sameId 1)
  exact ⟨hjoin, hjoin.namesQueries, by decide⟩

/-- **A join inside another one counts for itself.** The outer join names its
only query as the inner one named its own, and a reference to either of them
is to both. -/
theorem not_nodup_of_nested :
    let b : Source := { tree := .named ⟨"b"⟩, items := [] }
    let sameId : Term := .binary .eq (.column ⟨"b"⟩ ⟨"_id"⟩) (.column (queryName 0) ⟨"_id"⟩)
    let first := (((idQuery ⟨"b"⟩).as (queryName 0)).run 1).1
    let second := (((idQuery ⟨"b"⟩).as (queryName 0)).run 2).1
    let inner := (of b).onQuery .inner first sameId
    let join := (of inner.source).onQuery .inner second sameId
    Assembled join [second] [[first]] [⟨"b"⟩] ∧
      ¬ ([second, first].map QueryAlias.name).Nodup ∧
      (FromClause.read? join.tree.sql.text.toList).map FromClause.names? =
        some [some ⟨"b"⟩, some ⟨"q0"⟩, some ⟨"q0"⟩] ∧
      ∃ r, second.Refers r ∧ ¬ r.term.NamesOne join.tree.names := by
  intro b sameId first second inner join
  have hstart : Assembled (of b) [] [] [⟨"b"⟩] := .of rfl
  have hinner : Assembled inner [first] [] [⟨"b"⟩] :=
    hstart.onQuery .inner (idQuery ⟨"b"⟩) 1 sameId
  have hjoin : Assembled join [second] [[first]] [⟨"b"⟩] :=
    hinner.ofJoin.onQuery .inner (idQuery ⟨"b"⟩) 2 sameId
  refine ⟨hjoin, by decide, ?_, _, .item List.mem_cons_self, ?_⟩
  · rw [FromTerm.read?_text]
    decide
  · exact fun hone => absurd (Term.namesOne_column.mp hone) (by decide)

end Join

end TypedSql

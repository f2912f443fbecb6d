import TypedSql.Proofs.Query.References
import TypedSql.Proofs.Schema.Built
import TypedSql.Proofs.Schema.DeclaredView
import TypedSql.Proofs.Statement.Conditions
import TypedSql.Proofs.Term.Outer

/-!
# What queries select

Which queries select something. A query for which no items are named selects
all that its source offers, and what a source offers has a name there: the
columns of a table, and those items of a query or a view that have one. So
there are sources that offer nothing. They are made of queries none of whose
items has a name, or of queries of which only the text is known
(`Source.Nameless`), and a query that takes all from one of them has an empty
select list.

`Source.Obtained` says which sources there are, to any depth. By induction on
it, a source offers nothing exactly if it is one of those
(`Source.Obtained.items_eq_nil_iff`). The sources of every program are obtained
(`Stock.Reachable.obtained`).

For the text there is a reader that finds the result columns: what stands
between the commas from `SELECT` to `FROM`. No term has a comma or this word
outside of parentheses, so it finds the items, one column for each of them
(`Select.resultColumns_lex`).
-/

namespace TypedSql

/-! ## Reading result columns

The reader goes by commas and the word `FROM`, outside of parentheses. It is a
fold over the tokens with the depth and the column that has been begun, and on
the tokens of an item it does nothing but add them to that column
(`columns_cons`, `columns_append`), since an item has neither a comma nor the
word outside of parentheses. -/

namespace Token

/-- Whether a token is the word `FROM`. -/
def isFrom : Token → Bool
  | .word cs => cs.map Char.toUpper == ['F', 'R', 'O', 'M']
  | _ => false

/-- The word in front of a source. -/
def sourceWord : Token := .word ['F', 'R', 'O', 'M']

/-- The depth in parentheses behind a token. -/
def depthBehind (depth : Nat) : Token → Nat
  | .opening => depth + 1
  | .closing => depth - 1
  | _ => depth

/-- **Columns up to `FROM`**, with a comma between them. A comma and the word in
parentheses belong to the column that has been begun. -/
def columns (depth : Nat) (column : List Token) : List Token → List (List Token)
  | [] => [column]
  | t :: ts =>
    if depth = 0 ∧ t = .comma then column :: columns 0 [] ts
    else if depth = 0 ∧ t.isFrom then [column]
    else columns (depthBehind depth t) (column ++ [t]) ts

/-- What comes behind `SELECT` and perhaps `DISTINCT`. -/
def behindDistinct : List Token → List Token
  | .distinct :: ts => ts
  | ts => ts

/-- **The result columns of a query.** What has no tokens is no column. -/
def resultColumns : List Token → List (List Token)
  | .select :: ts => (columns 0 [] (behindDistinct ts)).filter fun c => !c.isEmpty
  | _ => []

/-- The tokens of items outside of parentheses: those of terms, and the word in
front of a name. -/
def inItem (t : Token) : Bool := t.inTerm || t == .word ['A', 'S']

theorem of_inItem {t : Token} (h : t.inItem = true) : t ≠ .comma ∧ t.isFrom = false := by
  have hwords : ∀ cs ∈ functionWords, (Token.word cs).isFrom = false := by decide
  rw [inItem, Bool.or_eq_true, beq_iff_eq] at h
  rcases h with hterm | rfl
  · cases t with
    | word cs => exact ⟨nofun, hwords cs (List.contains_iff_mem.mp hterm)⟩
    | comma => cases hterm
    | _ => exact ⟨nofun, rfl⟩
  · exact ⟨nofun, by decide⟩

/-- Without `DISTINCT` everything behind `SELECT` counts. -/
theorem behindDistinct_of_head? {ts : List Token} (h : ts.head? ≠ some .distinct) :
    behindDistinct ts = ts := by
  unfold behindDistinct
  split
  · exact absurd rfl h
  · rfl

/-- **A token of an item** goes into the column. -/
theorem columns_cons {t : Token} {depth depth' : Nat} (h : outer? inItem depth t = some depth')
    (column ts : List Token) :
    columns depth column (t :: ts) = columns depth' (column ++ [t]) ts := by
  rw [columns]
  cases depth with
  | zero =>
    obtain ⟨rfl, rfl⟩ | ⟨⟨hopening, hclosing⟩, hitem, rfl⟩ := outer?_zero h
    · rfl
    · obtain ⟨hcomma, hfrom⟩ := of_inItem hitem
      have hdepth : depthBehind 0 t = 0 := by cases t <;> simp_all [depthBehind]
      have hword : ¬(0 = 0 ∧ t.isFrom = true) := fun hboth =>
        Bool.false_ne_true (hfrom.symm.trans hboth.2)
      rw [if_neg fun hboth => hcomma hboth.2, if_neg hword, hdepth]
  | succ depth =>
    have hdepth : depthBehind (depth + 1) t = depth' := by
      cases t <;> simpa [outer?, depthBehind] using h
    rw [if_neg fun hboth => Nat.succ_ne_zero depth hboth.1,
      if_neg fun hboth => Nat.succ_ne_zero depth hboth.1, hdepth]

/-- So do all of them. -/
theorem columns_append {us : List Token} {depth depth' : Nat}
    (h : us.foldlM (outer? inItem) depth = some depth') (column ts : List Token) :
    columns depth column (us ++ ts) = columns depth' (column ++ us) ts := by
  induction us generalizing depth column with
  | nil =>
    rw [List.append_nil, show depth = depth' from Option.some.inj h]
    rfl
  | cons u us ih =>
    rw [List.foldlM_cons] at h
    obtain ⟨next, hnext, hrest⟩ := Option.bind_eq_some_iff.mp h
    rw [List.cons_append, columns_cons hnext, ih hrest, List.append_assoc]
    rfl

end Token

/-! ## Result columns of queries -/

/-- An item has the tokens of items outside of parentheses. -/
theorem Item.outer (i : Item) : Token.Outer Token.inItem i.sql.tokens := by
  have hterm : Token.Outer Token.inItem i.expr.sql.tokens :=
    i.expr.term.outer.mono fun t ht => Bool.or_eq_true_iff.mpr (.inl ht)
  have hname : ∀ name : Identifier,
      Token.Outer Token.inItem (Sql.tokens (Sql.words " AS " ++ Sql.name name)) := by
    intro name
    rw [Sql.tokens_append, Sql.name, Sql.tokens_singleton, Piece.tokens_name]
    exact .append (by decide) rfl
  rw [Item.sql, Sql.tokens_append]
  refine hterm.append ?_
  cases i.alias? with
  | none => rfl
  | some name => exact hname name

theorem Item.tokens_ne_nil (i : Item) : i.sql.tokens ≠ [] := by
  rw [Item.sql, Sql.tokens_append]
  exact List.append_ne_nil_of_left_ne_nil i.expr.term.tokens_ne_nil _

/-- **A list of items is read item by item.** -/
theorem Item.columns_commaList (i : Item) (is : List Item) (ts : List Token) :
    Token.columns 0 []
        (Sql.tokens (Sql.commaList ((i :: is).map Item.sql)) ++ Token.sourceWord :: ts) =
      (i :: is).map fun i => i.sql.tokens := by
  induction is generalizing i with
  | nil =>
    show Token.columns 0 [] (i.sql.tokens ++ _) = [i.sql.tokens]
    rw [Token.columns_append i.outer]
    rfl
  | cons k is ih =>
    rw [List.map_cons, Sql.tokens_commaList_cons, List.append_assoc,
      Token.columns_append i.outer]
    show i.sql.tokens :: Token.columns 0 []
      (Sql.tokens (Sql.commaList ((k :: is).map Item.sql)) ++ _) = _
    rw [ih k]
    rfl

namespace Select

/-- The tokens of a query begin with `SELECT`, its items and `FROM`. -/
theorem exists_tokens_eq (q : Select) : ∃ ts, q.sql.tokens =
    (.select :: if q.isDistinct then [.distinct] else []) ++
      (Sql.tokens (Sql.commaList (q.items.map Item.sql)) ++ Token.sourceWord :: ts) := by
  have hfrom : Sql.tokens (Sql.words " FROM ") = [Token.sourceWord] := by decide
  have hhead : Sql.tokens (Sql.words (if q.isDistinct then "SELECT DISTINCT " else "SELECT ")) =
      .select :: if q.isDistinct then [.distinct] else [] := by
    cases q.isDistinct <;> decide
  obtain ⟨behind, hsql⟩ := q.exists_sql_eq
  rw [hsql, opening, Term.sqlItems_entry]
  simp only [Sql.tokens_append, hfrom, hhead, List.append_assoc]
  exact ⟨_, rfl⟩

/-- No item begins with `DISTINCT`. -/
theorem head?_items_ne_distinct (q : Select) (ts : List Token) :
    (Sql.tokens (Sql.commaList (q.items.map Item.sql)) ++ Token.sourceWord :: ts).head? ≠
      some .distinct := by
  cases q.items with
  | nil => exact nofun
  | cons i is =>
    rw [List.map_cons, Sql.tokens_commaList_cons]
    have houter := i.outer
    have hsome := i.tokens_ne_nil
    cases htokens : i.sql.tokens with
    | nil => exact absurd htokens hsome
    | cons t us =>
      rw [htokens] at houter
      intro heq
      obtain rfl : t = .distinct := Option.some.inj heq
      exact houter.head.elim nofun nofun

/-- **A reader of a query finds its items**, one result column for each. -/
theorem resultColumns_lex (q : Select) :
    Token.resultColumns (Token.lex q.sql.text.toList) = q.items.map fun i => i.sql.tokens := by
  obtain ⟨ts, htokens⟩ := q.exists_tokens_eq
  have hcolumns : (Token.columns 0 [] (Sql.tokens (Sql.commaList (q.items.map Item.sql)) ++
      Token.sourceWord :: ts)).filter (fun c => !c.isEmpty) =
        q.items.map fun i => i.sql.tokens := by
    cases q.items with
    | nil => rfl
    | cons i is =>
      rw [Item.columns_commaList]
      refine List.filter_eq_self.mpr fun c hc => ?_
      obtain ⟨k, -, rfl⟩ := List.mem_map.mp hc
      simpa using k.tokens_ne_nil
  rw [q.phrase.lex_text, htokens, ← hcolumns]
  cases q.isDistinct with
  | true => rfl
  | false =>
    have hall := Token.behindDistinct_of_head? (q.head?_items_ne_distinct ts)
    exact congrArg (fun us => (Token.columns 0 [] us).filter fun c => !c.isEmpty) hall

/-- A query selects nothing if nothing was named and its source offers
nothing. -/
theorem items_eq_nil_iff (source : Source) (items : List Item) (clauses : List SelectClause) :
    (clauses.foldl refine (of source items)).items = [] ↔ items = [] ∧ source.items = [] := by
  have hdistinct : ∀ is : List Item, distinctItems [] is = [] ↔ is = [] := by
    intro is
    cases is with
    | nil => exact iff_of_true rfl rfl
    | cons i is => exact iff_of_false (List.cons_ne_nil _ _) (List.cons_ne_nil _ _)
  rw [(foldl_refine clauses _).1, of, hdistinct]
  cases items with
  | nil => exact (and_iff_right rfl).symm
  | cons i items => exact iff_of_false (List.cons_ne_nil _ _) fun h => List.cons_ne_nil _ _ h.1

end Select

/-! ## Sources

The library gives a source for a table, for a query and a view with a name, and
for a join of sources, and a query is over a source again. So the induction
goes down through queries of any depth, although what a source offers is always
decided by its outermost query: what counts is whether the items of that query
have names. -/

namespace Source

/-- **A source that the library gives.** -/
inductive Obtained : Source → Prop where
  /-- A table. -/
  | table {d : TableDraft} {t : Table} (ht : d.build = .ok t) : Obtained t.source
  /-- A table under another name. -/
  | tableAlias {d : TableDraft} {t : Table} (ht : d.build = .ok t) (name : Identifier)
      (n : ExprId) : Obtained ((t.as name).run n).1.source
  /-- A query with a name. -/
  | queryAlias {source : Source} (hs : Obtained source) (items : List Item)
      (clauses : List SelectClause) (name : Identifier) (n : ExprId) :
    Obtained (((clauses.foldl Select.refine (Select.of source items)).as name).run n).1.source
  /-- A view over a query. -/
  | view {source : Source} (hs : Obtained source) (items : List Item)
      (clauses : List SelectClause) {q : Select}
      (hq : q = clauses.foldl Select.refine (Select.of source items)) {name : Identifier}
      {columns : List ViewColumn} {temporary : Bool} {n : ExprId} {v : View}
      (hv : ((View.of name q.sql q.items columns temporary).run.run n).1 = .ok v) :
    Obtained v.source
  /-- A view over a query of which only the text is known. -/
  | rawView {name : Identifier} {query : Sql} {columns : List ViewColumn} {temporary : Bool}
      {n : ExprId} {v : View}
      (hv : ((View.of name query [] columns temporary).run.run n).1 = .ok v) : Obtained v.source
  /-- A join. -/
  | join {j : Join} (hfirst : Obtained j.first) (hparts : ∀ p ∈ j.parts, Obtained p.source) :
    Obtained j.source

/-- **A source that offers nothing**, since there are no names under which it
could. -/
inductive Nameless : Source → Prop where
  /-- A query with a name, none of whose items has one. -/
  | queryAlias {q : Select} (hq : ∀ i ∈ q.items, i.exposedName? = none) (name : Identifier)
      (n : ExprId) : Nameless ((q.as name).run n).1.source
  /-- A view that declares no columns over a query none of whose items has a
  name. -/
  | view {name : Identifier} {query : Sql} {items : List Item} {temporary : Bool} {n : ExprId}
      {v : View} (hitems : ∀ i ∈ items, i.exposedName? = none)
      (hv : ((View.of name query items [] temporary).run.run n).1 = .ok v) : Nameless v.source
  /-- A join of such sources. -/
  | join {j : Join} (hfirst : Nameless j.first) (hparts : ∀ p ∈ j.parts, Nameless p.source) :
    Nameless j.source

end Source

/-- There are no columns for the items of a query exactly if none of them has a
name. -/
theorem OfferedColumn.ofItems_eq_nil_iff (source : Identifier) (items : List Item) (n : ExprId) :
    ((ofItems source items).run n).1 = [] ↔ ∀ i ∈ items, i.exposedName? = none := by
  rw [← List.map_eq_nil_iff, ofItems_map, List.filterMap_eq_nil_iff]
  exact forall₂_congr fun i _ => Option.map_eq_none_iff

/-- A table has a column under another name for each of its columns. -/
theorem Table.columns_as (t : Table) (name : Identifier) (n : ExprId) :
    ((t.as name).run n).1.columns.map Prod.fst = t.columns := by
  have hcolumns := mapM_run_map
    (fun c : Column => (do return (c, ← Expr.ofTerm (.column name c.name) c.codec) :
      Fresh (Column × Expr))) Prod.fst id (fun _ _ => rfl) t.columns n
  rw [List.map_id] at hcolumns
  exact hcolumns

namespace View

/-- A view with declared columns has columns. -/
theorem columns_ne_nil {q : Select} (hkeys : (Item.keyIds q.items).Nodup) {name : Identifier}
    {columns : List ViewColumn} (hcolumns : columns ≠ []) {temporary : Bool} {n : ExprId} {v : View}
    (hv : ((of name q.sql q.items columns temporary).run.run n).1 = .ok v) : v.columns ≠ [] := by
  obtain ⟨hperm, hslots, rfl⟩ := eq_declared_of_run hkeys hcolumns hv
  have hshown := shownIds_arranged fun id hid => hperm.symm.subset hid
  intro hnil
  have hnone : arranged q.items columns = [] := List.map_eq_nil_iff.mp hnil
  rw [hnone] at hshown
  have hkeysNil : Item.keyIds q.items = [] := hshown.symm
  rw [hkeysNil] at hperm
  exact hcolumns (List.map_eq_nil_iff.mp hperm.eq_nil)

/-- Over a query of which only the text is known no column can be declared. -/
theorem columns_of_raw {name : Identifier} {query : Sql} {columns : List ViewColumn}
    {temporary : Bool} {n : ExprId} {v : View}
    (hv : ((of name query [] columns temporary).run.run n).1 = .ok v) : columns = [] := by
  unfold of at hv
  split at hv
  · cases columns with
    | nil => rfl
    | cons c cs =>
      have hsome : ¬(c :: cs).isEmpty = true := Bool.false_ne_true
      have hcount : (c :: cs).length ≠ ([] : List Item).length := Nat.succ_ne_zero _
      rw [if_neg hsome, if_pos hcount] at hv
      cases hv
  · cases hv

end View

namespace Source

/-- A source that is nameless offers nothing. -/
theorem Nameless.items_eq_nil {source : Source} (h : source.Nameless) : source.items = [] := by
  induction h with
  | queryAlias hq name n =>
    exact List.map_eq_nil_iff.mpr ((OfferedColumn.ofItems_eq_nil_iff name _ n).mpr hq)
  | @view name _ items _ n v hitems hv =>
    refine List.map_eq_nil_iff.mpr ?_
    rw [View.columns_of_undeclared hv]
    exact (OfferedColumn.ofItems_eq_nil_iff name items n).mpr hitems
  | @join j _ _ hfirst hparts =>
    exact List.append_eq_nil_iff.mpr ⟨hfirst, List.flatMap_eq_nil_iff.mpr hparts⟩

namespace Obtained

variable {source : Source}

/-- **A source offers nothing** exactly if it is nameless. -/
theorem items_eq_nil_iff (h : source.Obtained) : source.items = [] ↔ source.Nameless := by
  refine ⟨fun hnil => ?_, Nameless.items_eq_nil⟩
  induction h with
  | table ht =>
    have hcolumns := (TableDraft.of_build ht).1
    rw [← TableDraft.columns_of_build ht] at hcolumns
    exact absurd (List.map_eq_nil_iff.mp hnil) hcolumns
  | @tableAlias d t ht name n =>
    have hcolumns := (TableDraft.of_build ht).1
    rw [← TableDraft.columns_of_build ht, ← t.columns_as name n] at hcolumns
    exact absurd (List.map_eq_nil_iff.mpr (List.map_eq_nil_iff.mp hnil)) hcolumns
  | queryAlias hs items clauses name n ih =>
    exact .queryAlias ((OfferedColumn.ofItems_eq_nil_iff name _ n).mp (List.map_eq_nil_iff.mp hnil))
      name n
  | @view source hs items clauses q hq name columns temporary n v hv ih =>
    have hcolumns : v.columns = [] := List.map_eq_nil_iff.mp hnil
    have hkeys : (Item.keyIds q.items).Nodup := by
      rw [hq, (Select.foldl_refine clauses _).1]
      exact (nodup_distinctItems [] _).1
    by_cases hdeclared : columns = []
    · subst hdeclared
      rw [View.columns_of_undeclared hv, OfferedColumn.ofItems_eq_nil_iff] at hcolumns
      exact .view hcolumns hv
    · exact absurd hcolumns (View.columns_ne_nil hkeys hdeclared hv)
  | rawView hv =>
    obtain rfl := View.columns_of_raw hv
    exact .view (List.forall_mem_nil _) hv
  | join _ _ hfirst hparts =>
    obtain ⟨hnone, hnones⟩ := List.append_eq_nil_iff.mp hnil
    exact .join (hfirst hnone) fun p hp => hparts p hp (List.flatMap_eq_nil_iff.mp hnones p hp)

end Obtained

end Source

/-! ### In programs -/

/-- **Where something in hand comes from**, as far as it can be selected
from. -/
def Held.Given : Held → Prop
  | .table t => ∃ d : TableDraft, d.build = .ok t
  | .tableAlias a => a.source.Obtained
  | .source s => s.Obtained
  | .select q => ∃ (source : Source) (items : List Item) (clauses : List SelectClause),
      source.Obtained ∧ q = clauses.foldl Select.refine (Select.of source items)
  | .queryAlias a => a.source.Obtained
  | .view v => v.source.Obtained
  | .expr _ | .named _ | .draft _ | .viewColumn _ => True

namespace Stock

/-- **An operation** makes nothing else. -/
theorem Step.given {s t : Stock} (hstep : Step s t) (h : ∀ x ∈ s.held, x.Given) :
    ∀ x ∈ t.held, x.Given := by
  have hkeep : ∀ {x : Held}, x.Given → ∀ y ∈ (s.keep x).held, y.Given := fun hx =>
    List.forall_mem_cons.mpr ⟨hx, h⟩
  have htake : ∀ {α : Type} {m : Fresh α} {results : α → List Held},
      (∀ y ∈ results (m.run s.next).1, y.Given) → ∀ y ∈ (s.take m results).held, y.Given :=
    fun hresults => List.forall_mem_append.mpr ⟨hresults, h⟩
  cases hstep with
  | compute | name => exact htake (List.forall_mem_singleton.mpr trivial)
  | nullable | reference | draft | declare | tableColumn | tableAliasColumn | queryAliasColumn
    | viewGet => exact hkeep trivial
  | column =>
    refine htake fun y hy => ?_
    split at hy
    · rcases List.mem_cons.mp hy with rfl | hy
      · trivial
      · exact List.mem_singleton.mp hy ▸ trivial
    · cases hy
  | build _ ht => exact hkeep ⟨_, ht⟩
  | tableAlias ht name =>
    obtain ⟨d, hd⟩ := h _ ht
    exact htake (List.forall_mem_singleton.mpr (.tableAlias hd name s.next))
  | tableSource ht =>
    obtain ⟨d, hd⟩ := h _ ht
    exact hkeep (.table hd)
  | tableAliasSource ha =>
    have hgiven := h _ ha
    exact hkeep hgiven
  | join hfirst hparts => exact hkeep (.join (h _ hfirst) fun p hp => h _ (hparts p hp))
  | select hs _ clauses => exact hkeep ⟨_, _, clauses, h _ hs, rfl⟩
  | queryAlias hq name =>
    obtain ⟨source, items, clauses, hs, rfl⟩ := h _ hq
    exact htake (List.forall_mem_singleton.mpr (.queryAlias hs items clauses name s.next))
  | queryAliasSource ha =>
    have hgiven := h _ ha
    exact hkeep hgiven
  | viewColumn =>
    refine htake (List.forall_mem_cons.mpr ⟨trivial, List.forall_mem_singleton.mpr trivial⟩)
  | view hq =>
    obtain ⟨source, items, clauses, hs, hq⟩ := h _ hq
    refine htake fun y hy => ?_
    split at hy
    · next v hv => exact List.mem_singleton.mp hy ▸ .view hs items clauses hq hv
    · cases hy
  | viewSource hv =>
    have hgiven := h _ hv
    exact hkeep hgiven

/-- **Every source of a program** is one that the library gives. -/
theorem Reachable.obtained {s : Stock} (hs : s.Reachable) {source : Source}
    (hsource : .source source ∈ s.held) : source.Obtained := by
  have hgiven : ∀ x ∈ s.held, x.Given := by
    clear hsource
    induction hs with
    | start next => exact List.forall_mem_nil _
    | step _ hstep ih => exact hstep.given ih
  exact hgiven _ hsource

end Stock

/-! ## What is selected -/

/-- **What a query selects.** A reader of the text finds its items, one result
column for each. There are none exactly if all was selected from a source that
is nameless. -/
theorem Source.Obtained.selects {source : Source} (h : source.Obtained) (items : List Item)
    (clauses : List SelectClause) :
    let q := clauses.foldl Select.refine (Select.of source items)
    Token.resultColumns (Token.lex q.sql.text.toList) = q.items.map (fun i => i.sql.tokens) ∧
      (q.items = [] ↔ items = [] ∧ source.Nameless) := by
  intro q
  refine ⟨q.resultColumns_lex, ?_⟩
  rw [Select.items_eq_nil_iff, h.items_eq_nil_iff]

/-- A column of integers. -/
def Column.single : Column where
  id := 0
  table := ⟨"t"⟩
  name := ⟨"a"⟩
  codec := .long
  constraints := []
  default? := none

/-- A table of this column on the way. -/
def TableDraft.single : TableDraft := { name := ⟨"t"⟩, columns := [.single] }

/-- The count of the rows of this table, as a query with a name. -/
def QueryAlias.counted : QueryAlias :=
  (((Select.of TableDraft.single.table.source
    [.plain { id := 1, term := .countStar, offered := .long, codec := .long }]).as ⟨"q"⟩).run 2).1

/-- The count is a source, although it has no name. -/
theorem QueryAlias.obtained_counted : QueryAlias.counted.source.Obtained :=
  .queryAlias (.table (d := TableDraft.single) rfl) _ [] _ 2

/-- Joined with the table it is no longer all that there is. -/
theorem Source.selects_joined :
    let j : Join :=
      { first := QueryAlias.counted.source
        parts := [⟨.cross, TableDraft.single.table.source, none⟩] }
    let q := [SelectClause.distinct].foldl Select.refine (Select.of j.source [])
    j.source.Obtained ∧
      (Token.resultColumns (Token.lex q.sql.text.toList) = q.items.map (fun i => i.sql.tokens) ∧
        (q.items = [] ↔ ([] : List Item) = [] ∧ j.source.Nameless)) ∧ q.items.length = 1 := by
  intro j q
  have hj : j.source.Obtained := .join QueryAlias.obtained_counted
    (List.forall_mem_singleton.mpr (.table (d := TableDraft.single) rfl))
  exact ⟨hj, hj.selects [] [.distinct], rfl⟩

/-- **A query can select nothing.** The count has no name, so the query with a
name offers nothing, and nothing is what is selected from it. -/
theorem Source.selects_nothing :
    let q := Select.of QueryAlias.counted.source []
    QueryAlias.counted.source.Obtained ∧ q.items = [] ∧
      q.sql.text = "SELECT  FROM (SELECT COUNT(*) FROM \"t\") AS \"q\"" ∧
      Token.resultColumns (Token.lex q.sql.text.toList) = [] :=
  ⟨QueryAlias.obtained_counted, rfl, by decide +kernel, by decide +kernel⟩

end TypedSql

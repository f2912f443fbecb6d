import TypedSql.Proofs.Steps
import TypedSql.Schema.View
import TypedSql.Statement.Join
import Mathlib.Data.List.Nodup

/-!
# Programs and the identities they take

A program builds tables, sources, expressions and queries from what it has
built before. `Stock` is what it has in hand, together with the supply of
identities, and `Stock.Step` is the list of what it can do next: each entry
is one operation of the library, run on what is in hand. Nothing is ever
taken away, because everything that is built stays as it is.

The operations make new expressions at many places and in many numbers – a
query with a name makes one for each of its items, a nullable reading makes
none – and what all of them have in common is said once, by `Minted`: new
expressions have the next identities in order. From that it follows for all
programs (`Stock.Reachable.coherent`) that an identity stands for one term:
two expressions of one identity are the same computation, however they came
into the program's hands and with whatever codecs they are read.
-/

namespace TypedSql

/-! ## What is in hand -/

/-- The expressions of an item: what is selected, and what refers to it. -/
def Item.exprs (i : Item) : List Expr := [i.expr, i.key]

/-- **What a program can have in hand.** -/
inductive Held where
  /-- An expression. -/
  | expr (e : Expr)
  /-- An expression with a name. -/
  | named (a : NamedExpr)
  /-- A table on the way. -/
  | draft (d : TableDraft)
  /-- A table. -/
  | table (t : Table)
  /-- A table under another name. -/
  | tableAlias (a : TableAlias)
  /-- What a query can read from. -/
  | source (s : Source)
  /-- A query. -/
  | select (s : Select)
  /-- A query with a name. -/
  | queryAlias (a : QueryAlias)
  /-- A declared column of a view. -/
  | viewColumn (c : ViewColumn)
  /-- A view. -/
  | view (v : View)

/-- The expressions that can be reached from what is in hand. -/
def Held.exprs : Held → List Expr
  | .expr e => [e]
  | .named a => [a.aliased, a.reference]
  | .draft d => d.columns.map Column.expr
  | .table t => t.columns.map Column.expr
  | .tableAlias a => a.columns.map Prod.snd
  | .source s => s.items.flatMap Item.exprs
  | .select s => s.items.flatMap Item.exprs
  | .queryAlias a => a.columns.map OfferedColumn.expr
  | .viewColumn c => [c.shown, c.expr]
  | .view v => v.columns.map OfferedColumn.expr

/-- **All that a program has in hand**, and the next identity. -/
structure Stock where
  /-- The next identity. -/
  next : ExprId
  /-- What is in hand. -/
  held : List Held

namespace Stock

/-- All expressions of a stock. -/
def exprs (s : Stock) : List Expr := s.held.flatMap Held.exprs

/-- Whether an item can be selected: it is an expression in hand, or one with
a name. -/
def HasItem (s : Stock) : Item → Prop
  | .plain e => .expr e ∈ s.held
  | .named a => .named a ∈ s.held

/-- One more thing in hand. -/
def keep (s : Stock) (h : Held) : Stock := { s with held := h :: s.held }

/-- What an operation makes that may take identities. -/
def take {α : Type} (s : Stock) (m : Fresh α) (results : α → List Held) : Stock where
  next := (m.run s.next).2
  held := results (m.run s.next).1 ++ s.held

end Stock

/-! ## What a program can do -/

/-- **A clause of a query**, which changes nothing of what it selects. -/
inductive SelectClause where
  /-- Equal rows are given once. -/
  | distinct
  /-- A condition on rows. -/
  | restrict (condition : Term)
  /-- What rows are grouped by. -/
  | groupBy (terms : List Term)
  /-- A condition on groups. -/
  | having (condition : Term)
  /-- What rows are sorted by. -/
  | orderBy (term : Term) (order : SortOrder)
  /-- How many rows at most. -/
  | limit (n : UInt64)
  /-- How many rows are left out. -/
  | offset (n : UInt64)

namespace Select

/-- Adds a clause to a query. -/
def refine (s : Select) : SelectClause → Select
  | .distinct => s.distinct
  | .restrict condition => s.restrict condition
  | .groupBy terms => s.groupBy terms
  | .having condition => s.having condition
  | .orderBy term order => s.orderBy term order
  | .limit n => s.limit n
  | .offset n => s.offset n

/-- No clause changes what is selected, or from where. -/
theorem foldl_refine (clauses : List SelectClause) (s : Select) :
    (clauses.foldl refine s).items = s.items ∧ (clauses.foldl refine s).source = s.source := by
  induction clauses generalizing s with
  | nil => exact ⟨rfl, rfl⟩
  | cons clause clauses ih =>
    have hrefine : (s.refine clause).items = s.items ∧ (s.refine clause).source = s.source := by
      cases clause <;> exact ⟨rfl, rfl⟩
    rw [List.foldl_cons, (ih _).1, (ih _).2]
    exact hrefine

end Select

namespace Stock

/-- **One operation of a program.** -/
inductive Step (s : Stock) : Stock → Prop where
  /-- A new expression. -/
  | compute (term : Term) (c : Codec) :
    Step s (s.take (Expr.ofTerm term c) fun e => [.expr e])
  /-- An expression read as nullable. -/
  | nullable {e : Expr} (he : .expr e ∈ s.held) : Step s (s.keep (.expr e.asNullable))
  /-- A name for an expression. -/
  | name {e : Expr} (he : .expr e ∈ s.held) (name : Identifier) :
    Step s (s.take (e.as name) fun a => [.named a])
  /-- The expression that refers to a named one. -/
  | reference {a : NamedExpr} (ha : .named a ∈ s.held) : Step s (s.keep (.expr a.reference))
  /-- The beginning of a table. -/
  | draft (name : Identifier) : Step s (s.keep (.draft { name }))
  /-- One more column of a table, which may be refused. -/
  | column {d : TableDraft} (hd : .draft d ∈ s.held) (name : String) (c : Codec)
      (clauses : List (ColumnClause c)) :
    Step s (s.take (d.declareColumn name c clauses).run fun
      | .ok (d, column) => [.draft d, .expr column.expr]
      | .error _ => [])
  /-- A declaration that adds no column: a key, an index or a check. -/
  | declare {d d' : TableDraft} (hd : .draft d ∈ s.held) (hcolumns : d'.columns = d.columns) :
    Step s (s.keep (.draft d'))
  /-- The end of a table. -/
  | build {d : TableDraft} {t : Table} (hd : .draft d ∈ s.held) (ht : d.build = .ok t) :
    Step s (s.keep (.table t))
  /-- A column of a table. -/
  | tableColumn {t : Table} {c : Column} (ht : .table t ∈ s.held) (hc : c ∈ t.columns) :
    Step s (s.keep (.expr c.expr))
  /-- Another name for a table. -/
  | tableAlias {t : Table} (ht : .table t ∈ s.held) (name : Identifier) :
    Step s (s.take (t.as name) fun a => [.tableAlias a])
  /-- A column of a table under its other name. -/
  | tableAliasColumn {a : TableAlias} {c : Column} {e : Expr} (ha : .tableAlias a ∈ s.held)
      (he : a.get c = .ok e) : Step s (s.keep (.expr e))
  /-- A table as a source. -/
  | tableSource {t : Table} (ht : .table t ∈ s.held) : Step s (s.keep (.source t.source))
  /-- A table under its other name as a source. -/
  | tableAliasSource {a : TableAlias} (ha : .tableAlias a ∈ s.held) :
    Step s (s.keep (.source a.source))
  /-- A join of sources. -/
  | join {j : Join} (hfirst : .source j.first ∈ s.held)
      (hparts : ∀ p ∈ j.parts, .source p.source ∈ s.held) : Step s (s.keep (.source j.source))
  /-- A query. -/
  | select {source : Source} (hs : .source source ∈ s.held) {items : List Item}
      (hitems : ∀ i ∈ items, s.HasItem i) (clauses : List SelectClause) :
    Step s (s.keep (.select (clauses.foldl Select.refine (Select.of source items))))
  /-- A name for a query. -/
  | queryAlias {q : Select} (hq : .select q ∈ s.held) (name : Identifier) :
    Step s (s.take (q.as name) fun a => [.queryAlias a])
  /-- What an expression of a query has become under the name. -/
  | queryAliasColumn {a : QueryAlias} {e column : Expr} (ha : .queryAlias a ∈ s.held)
      (he : a.get e = .ok column) : Step s (s.keep (.expr column))
  /-- A query with a name as a source. -/
  | queryAliasSource {a : QueryAlias} (ha : .queryAlias a ∈ s.held) :
    Step s (s.keep (.source a.source))
  /-- A column of a view. -/
  | viewColumn {shown : Expr} (he : .expr shown ∈ s.held) (view : Identifier) (name : String) :
    Step s (s.take (ViewColumn.of view name shown) fun c => [.viewColumn c, .expr c.expr])
  /-- A view, which may be refused. -/
  | view {q : Select} (hq : .select q ∈ s.held) (name : Identifier) {columns : List ViewColumn}
      (hcolumns : ∀ c ∈ columns, .viewColumn c ∈ s.held) (temporary : Bool) :
    Step s (s.take (View.of name q.sql q.items columns temporary).run fun
      | .ok v => [.view v]
      | .error _ => [])
  /-- What an expression of a query has become in a view. -/
  | viewGet {v : View} {e column : Expr} (hv : .view v ∈ s.held) (he : v.get e = .ok column) :
    Step s (s.keep (.expr column))
  /-- A view as a source. -/
  | viewSource {v : View} (hv : .view v ∈ s.held) : Step s (s.keep (.source v.source))

/-- **The stocks that programs come to**, from nothing in hand. -/
inductive Reachable : Stock → Prop where
  /-- Nothing is in hand. -/
  | start (next : ExprId) : Reachable ⟨next, []⟩
  /-- One operation more. -/
  | step {s t : Stock} : Reachable s → Step s t → Reachable t

end Stock

/-! ## New expressions

An operation is run on a supply and hands it back. What is said of it is which
expressions are new, and that their identities are the next ones: nothing about
what they are. A list of operations is then new expressions one after the other
(`Minted.mapM`), whatever the operation is. -/

/-- **New expressions** take the next identities in order, `n` being the next
one before and `n'` the next one after. -/
structure Minted (n : ExprId) (es : List Expr) (n' : ExprId) : Prop where
  /-- The identities are those from `n` on. -/
  ids : es.map Expr.id = List.range' n es.length
  /-- What comes after is beyond them. -/
  next : n + es.length ≤ n'

namespace Minted

variable {n n' : ExprId} {es : List Expr}

theorem nil (h : n ≤ n') : Minted n [] n' := ⟨rfl, h⟩

theorem single {e : Expr} (hid : e.id = n) (hnext : n' = n + 1) : Minted n [e] n' :=
  ⟨by simp [hid], by simp [hnext]⟩

/-- A new expression has a new identity. -/
theorem le_id (h : Minted n es n') {e : Expr} (he : e ∈ es) : n ≤ e.id ∧ e.id < n' := by
  have hmem : e.id ∈ List.range' n es.length := h.ids ▸ List.mem_map_of_mem he
  rw [List.mem_range'_1] at hmem
  exact ⟨hmem.1, Nat.lt_of_lt_of_le hmem.2 h.next⟩

theorem eq_of_id_eq (h : Minted n es n') {e f : Expr} (he : e ∈ es) (hf : f ∈ es)
    (hid : e.id = f.id) : e = f := by
  have hnodup : (es.map Expr.id).Nodup := h.ids ▸ List.nodup_range'
  exact List.inj_on_of_nodup_map hnodup he hf hid

theorem cons {e : Expr} (hid : e.id = n) (h : Minted (n + 1) es n') : Minted n (e :: es) n' := by
  refine ⟨?_, ?_⟩
  · rw [List.map_cons, hid, h.ids, List.length_cons, List.range'_succ]
  · rw [List.length_cons, Nat.add_comm es.length 1, ← Nat.add_assoc]
    exact h.next

/-- An operation that makes one expression, done for each element of a list,
makes so many expressions. -/
theorem mapM {α β : Type} (f : α → Fresh β) (expr : β → Expr)
    (hf : ∀ a n, (expr ((f a).run n).1).id = n ∧ ((f a).run n).2 = n + 1) (as : List α)
    (n : ExprId) :
    Minted n (((as.mapM f).run n).1.map expr) ((as.mapM f).run n).2 := by
  induction as generalizing n with
  | nil => exact .nil (Nat.le_refl _)
  | cons a as ih =>
    obtain ⟨hid, hnext⟩ := hf a n
    have hrest := ih ((f a).run n).2
    rw [hnext] at hrest
    rw [List.mapM_cons]
    show Minted n (expr ((f a).run n).1 :: ((as.mapM f).run ((f a).run n).2).1.map expr)
      ((as.mapM f).run ((f a).run n).2).2
    rw [hnext]
    exact .cons hid hrest

end Minted

/-! ### The operations -/

theorem ColumnDraft.apply_id {c : Codec} (d : ColumnDraft c) (clause : ColumnClause c) :
    (d.apply clause).id = d.id := by
  have hreference : ∀ fault change, (d.changeReference fault change).id = d.id := by
    intro fault change
    unfold changeReference
    split <;> rfl
  cases clause <;> simp only [apply] <;> try split
  all_goals first | rfl | exact hreference _ _

theorem ColumnDraft.foldl_apply_id {c : Codec} (clauses : List (ColumnClause c))
    (d : ColumnDraft c) : (clauses.foldl apply d).id = d.id := by
  induction clauses generalizing d with
  | nil => rfl
  | cons clause clauses ih => rw [List.foldl_cons, ih, apply_id]

/-- A column that is closed is the one that was on the way, and it is the last
of its table. -/
theorem TableDraft.of_closeColumn {d d' : TableDraft} {c : Codec} {draft : ColumnDraft c}
    {column : Column} (h : d.closeColumn draft = .ok (d', column)) :
    column.id = draft.id ∧ d'.columns = d.columns ++ [column] := by
  have hfinish : ∀ other, draft.finish? = .ok other → other.id = draft.id := by
    intro other hother
    unfold ColumnDraft.finish? at hother
    split at hother
    · cases hother
    · split at hother
      · cases hother
      · exact Except.ok.inj hother ▸ rfl
  unfold closeColumn at h
  obtain ⟨other, hdraft, h⟩ := exists_of_bind_eq_ok h
  split at h
  · cases h
  · obtain ⟨rfl, rfl⟩ := Prod.mk.inj (Except.ok.inj h)
    exact ⟨hfinish other hdraft, rfl⟩

/-- **Declaring a column** makes one new expression, the column, or none. -/
theorem TableDraft.declareColumn_minted (d : TableDraft) (name : String) (c : Codec)
    (clauses : List (ColumnClause c)) (n : ExprId) :
    ∃ es, Minted n es ((d.declareColumn name c clauses).run.run n).2 ∧
      ∀ d' column, ((d.declareColumn name c clauses).run.run n).1 = .ok (d', column) →
        es = [column.expr] ∧ d'.columns = d.columns ++ [column] := by
  by_cases htaken : d.hasColumn ⟨name⟩ = true
  · have hrun : (d.declareColumn name c clauses).run.run n
        = (.error (.duplicateColumn d.name.name name), n) := by
      simp only [declareColumn, openColumn, htaken, if_true]
      rfl
    rw [hrun]
    exact ⟨[], .nil (Nat.le_refl n), fun _ _ h => by cases h⟩
  · have hrun : (d.declareColumn name c clauses).run.run n
        = (d.closeColumn (clauses.foldl ColumnDraft.apply
            { id := n, table := d.name, name := ⟨name⟩ }), n + 1) := by
      simp only [declareColumn, openColumn, htaken]
      rfl
    rw [hrun]
    cases hclose : d.closeColumn (clauses.foldl ColumnDraft.apply
        { id := n, table := d.name, name := ⟨name⟩ }) with
    | error e => exact ⟨[], .nil (Nat.le_succ n), fun _ _ h => by cases h⟩
    | ok result =>
      obtain ⟨hid, hcolumns⟩ := of_closeColumn hclose
      rw [ColumnDraft.foldl_apply_id] at hid
      refine ⟨[result.2.expr], .single hid rfl, fun d' column h => ?_⟩
      obtain rfl := Except.ok.inj h
      exact ⟨rfl, hcolumns⟩

theorem TableDraft.columns_of_build {d : TableDraft} {t : Table} (h : d.build = .ok t) :
    t.columns = d.columns := by
  unfold build at h
  simp only [bind, Except.bind] at h
  split at h
  · cases h
  · split at h
    · cases h
    · exact Except.ok.inj h ▸ rfl

/-- **A name for a table** makes a new expression for each column. -/
theorem Table.as_minted (t : Table) (name : Identifier) (n : ExprId) :
    Minted n (((t.as name).run n).1.columns.map Prod.snd) ((t.as name).run n).2 :=
  Minted.mapM
    (fun c : Column => (do return (c, ← Expr.ofTerm (.column name c.name) c.codec) :
      Fresh (Column × Expr)))
    Prod.snd (fun _ _ => ⟨rfl, rfl⟩) t.columns n

/-- **The columns for the items of a query** are new expressions. -/
theorem OfferedColumn.ofItems_minted (source : Identifier) (items : List Item) (n : ExprId) :
    Minted n (((ofItems source items).run n).1.map OfferedColumn.expr)
      ((ofItems source items).run n).2 :=
  Minted.mapM _ OfferedColumn.expr (fun _ _ => ⟨rfl, rfl⟩) _ n

/-- Placing a declared column puts nothing else in a place. -/
theorem View.of_place {view : Identifier} {places places' : List (Item × Option ViewColumn)}
    {c : ViewColumn} (h : place view places c = .ok places') :
    ∀ d ∈ places'.filterMap Prod.snd, d = c ∨ d ∈ places.filterMap Prod.snd := by
  unfold place at h
  split at h
  · next i _ =>
    obtain rfl := Except.ok.inj h
    intro d hd
    obtain ⟨p, hp, hpd⟩ := List.mem_filterMap.mp hd
    obtain ⟨j, hj⟩ := List.mem_iff_getElem?.mp hp
    rw [List.getElem?_modify] at hj
    split at hj
    · obtain ⟨q, hq, rfl⟩ := Option.map_eq_some_iff.mp hj
      exact .inl (Option.some.inj hpd).symm
    · rw [id_map'] at hj
      exact .inr (List.mem_filterMap.mpr ⟨p, List.mem_of_getElem? hj, hpd⟩)
  · cases h

/-- Nor does placing several of them. -/
theorem View.of_foldlM_place {view : Identifier} {columns : List ViewColumn}
    {places places' : List (Item × Option ViewColumn)}
    (h : columns.foldlM (place view) places = .ok places') :
    ∀ d ∈ places'.filterMap Prod.snd, d ∈ columns ∨ d ∈ places.filterMap Prod.snd := by
  induction columns generalizing places with
  | nil =>
    obtain rfl := Except.ok.inj h
    exact fun d hd => .inr hd
  | cons c columns ih =>
    rw [List.foldlM_cons] at h
    obtain ⟨next, hplace, h⟩ := exists_of_bind_eq_ok h
    intro d hd
    rcases ih h d hd with hd | hd
    · exact .inl (List.mem_cons_of_mem c hd)
    · rcases of_place hplace d hd with rfl | hd
      · exact .inl List.mem_cons_self
      · exact .inr hd

/-- The columns of a view in their order are the ones that were declared. -/
theorem View.mem_of_mem_arrange {view : Identifier} {items : List Item}
    {columns arranged : List ViewColumn} (h : arrange view items columns = .ok arranged) :
    ∀ c ∈ arranged, c ∈ columns := by
  unfold arrange at h
  obtain ⟨places, hplaces, h⟩ := exists_of_bind_eq_ok h
  obtain rfl := Except.ok.inj h
  intro c hc
  refine (of_foldlM_place hplaces c hc).resolve_right fun hnone => ?_
  simp at hnone

/-- **A view** makes a new expression for each item that shows itself, and
none for a declared column. -/
theorem View.of_minted (name : Identifier) (query : Sql) (items : List Item)
    (columns : List ViewColumn) (temporary : Bool) (n : ExprId) :
    ∃ es, Minted n es ((of name query items columns temporary).run.run n).2 ∧
      ∀ v, ((of name query items columns temporary).run.run n).1 = .ok v →
        ∀ e ∈ v.columns.map OfferedColumn.expr, e ∈ es ∨ e ∈ columns.map ViewColumn.expr := by
  have hrefused : ∀ e : ConstructionError, ∃ es, Minted n es n ∧
      ∀ v, (Except.error e : Except ConstructionError View) = .ok v →
        ∀ e ∈ v.columns.map OfferedColumn.expr, e ∈ es ∨ e ∈ columns.map ViewColumn.expr :=
    fun _ => ⟨[], .nil (Nat.le_refl n), fun _ h => by cases h⟩
  unfold of
  split
  · next hslots =>
    split
    · refine ⟨_, OfferedColumn.ofItems_minted name items n, fun v hv e he => .inl ?_⟩
      obtain rfl := Except.ok.inj hv
      exact he
    · split
      · exact hrefused _
      · cases harrange : arrange name items columns with
        | error e => exact hrefused e
        | ok arranged =>
          refine ⟨[], .nil (Nat.le_refl n), fun v hv e he => .inr ?_⟩
          obtain rfl := Except.ok.inj hv
          obtain ⟨c, hc, rfl⟩ := List.mem_map.mp he
          obtain ⟨d, hd, rfl⟩ := List.mem_map.mp hc
          exact List.mem_map_of_mem (mem_of_mem_arrange harrange d hd)
  · exact hrefused _

/-- What is selected comes from the list of what was asked for. -/
theorem mem_of_mem_distinctItems {seen : List ExprId} {items : List Item} {i : Item}
    (h : i ∈ distinctItems seen items) : i ∈ items := by
  induction items generalizing seen with
  | nil => cases h
  | cons j items ih =>
    rw [distinctItems] at h
    split at h
    · exact List.mem_cons_of_mem j (ih h)
    · rcases List.mem_cons.mp h with rfl | h
      · exact List.mem_cons_self
      · exact List.mem_cons_of_mem j (ih h)

/-- A column that is found for an expression is one of the columns, perhaps
under another codec. -/
theorem OfferedColumn.of_find? {columns : List OfferedColumn} {e column : Expr}
    (h : find? columns e = some column) :
    ∃ c ∈ columns, c.origin = e.id ∧ c.expr.id = column.id ∧ c.expr.term = column.term := by
  obtain ⟨c, hc, rfl⟩ := Option.map_eq_some_iff.mp h
  have horigin : (c.origin == e.id) = true := by simpa using List.find?_some hc
  exact ⟨c, List.mem_of_find?_eq_some hc, eq_of_beq horigin, rfl, rfl⟩

/-- What a query with a name gives for an expression is found among its
columns. -/
theorem QueryAlias.find?_of_get {a : QueryAlias} {e column : Expr} (h : a.get e = .ok column) :
    OfferedColumn.find? a.columns e = some column := by
  unfold get at h
  split at h
  · next hfind => exact Except.ok.inj h ▸ hfind
  · cases h

/-- What a view gives for an expression is found among its columns. -/
theorem View.find?_of_get {v : View} {e column : Expr} (h : v.get e = .ok column) :
    OfferedColumn.find? v.columns e = some column := by
  unfold get at h
  split at h
  · next hfind => exact Except.ok.inj h ▸ hfind
  · cases h

/-! ## Identities stand for terms

Two facts go together in the invariant. That identities come from the supply
makes the new ones different from all that are in hand; that an identity stands
for one term is what is wanted. For the step there is one lemma
(`Coherent.extend`): an expression in the stock behind the step is known or
new. What is left for each operation is to tell the two apart. -/

namespace Stock

/-- Whether the computation of an expression is in hand already. -/
def Knows (s : Stock) (e : Expr) : Prop := ∃ f ∈ s.exprs, f.id = e.id ∧ f.term = e.term

/-- **An identity stands for one term**, and no identity has been used before
its turn. -/
structure Coherent (s : Stock) : Prop where
  /-- Identities come from the supply. -/
  old : ∀ e ∈ s.exprs, e.id < s.next
  /-- Two expressions of one identity are the same computation. -/
  same : ∀ e ∈ s.exprs, ∀ f ∈ s.exprs, e.id = f.id → e.term = f.term

theorem knows_of_mem {s : Stock} {h : Held} (hh : h ∈ s.held) {e : Expr} (he : e ∈ h.exprs) :
    s.Knows e :=
  ⟨e, List.mem_flatMap.mpr ⟨h, hh, he⟩, rfl, rfl⟩

/-- A stock to which known and new expressions are added stays coherent. -/
theorem Coherent.extend {s : Stock} (h : s.Coherent) {next : ExprId} {held : List Held}
    {es : List Expr} (hminted : Minted s.next es next)
    (hheld : ∀ e ∈ held.flatMap Held.exprs, s.Knows e ∨ e ∈ es) :
    Coherent ⟨next, held ++ s.held⟩ := by
  have hexprs : ∀ e ∈ exprs ⟨next, held ++ s.held⟩, s.Knows e ∨ e ∈ es := by
    intro e he
    rw [exprs, List.flatMap_append, List.mem_append] at he
    rcases he with he | he
    · exact hheld e he
    · exact .inl ⟨e, he, rfl, rfl⟩
  have hold : ∀ e, s.Knows e → e.id < s.next := by
    rintro e ⟨f, hf, hid, -⟩
    exact hid ▸ h.old f hf
  have hnew : ∀ e, s.Knows e → ∀ f ∈ es, e.id ≠ f.id := fun e he f hf hid =>
    Nat.lt_irrefl _ (Nat.lt_of_lt_of_le (hold e he) (hid ▸ (hminted.le_id hf).1))
  constructor
  · intro e he
    rcases hexprs e he with hknown | hmem
    · exact Nat.lt_of_lt_of_le (hold e hknown) (Nat.le_trans (Nat.le_add_right _ _) hminted.next)
    · exact (hminted.le_id hmem).2
  · intro e he f hf hid
    rcases hexprs e he with hknown | hmem <;> rcases hexprs f hf with hknown' | hmem'
    · obtain ⟨e', he', heid, heterm⟩ := hknown
      obtain ⟨f', hf', hfid, hfterm⟩ := hknown'
      rw [← heterm, ← hfterm]
      exact h.same e' he' f' hf' (by rw [heid, hfid, hid])
    · exact absurd hid (hnew e hknown f hmem')
    · exact absurd hid.symm (hnew f hknown' e hmem)
    · rw [hminted.eq_of_id_eq hmem hmem' hid]

/-- Known expressions in another form keep a stock coherent. -/
theorem Coherent.keep {s : Stock} (h : s.Coherent) {held : Held}
    (hheld : ∀ e ∈ held.exprs, s.Knows e) : (s.keep held).Coherent := by
  have hknown : ∀ e ∈ [held].flatMap Held.exprs, s.Knows e ∨ e ∈ [] := by
    intro e he
    rw [List.flatMap_singleton] at he
    exact .inl (hheld e he)
  exact h.extend (.nil (Nat.le_refl _)) hknown

theorem Coherent.keep_expr {s : Stock} (h : s.Coherent) {e : Expr} (he : s.Knows e) :
    (s.keep (.expr e)).Coherent :=
  h.keep fun _ hf => List.mem_singleton.mp hf ▸ he

theorem Coherent.take {s : Stock} (h : s.Coherent) {α : Type} {m : Fresh α}
    {results : α → List Held} {es : List Expr} (hminted : Minted s.next es (m.run s.next).2)
    (hresults : ∀ e ∈ (results (m.run s.next).1).flatMap Held.exprs, s.Knows e ∨ e ∈ es) :
    (s.take m results).Coherent :=
  h.extend hminted hresults

/-- What is known under one codec is known under all. -/
theorem Knows.of_eq {s : Stock} {e f : Expr} (h : s.Knows e) (hid : e.id = f.id)
    (hterm : e.term = f.term) : s.Knows f := by
  obtain ⟨g, hg, hgid, hgterm⟩ := h
  exact ⟨g, hg, hgid.trans hid, hgterm.trans hterm⟩

theorem knows_item {s : Stock} {source : Source} (h : .source source ∈ s.held) {i : Item}
    (hi : i ∈ source.items) {e : Expr} (he : e ∈ i.exprs) : s.Knows e :=
  knows_of_mem h (List.mem_flatMap.mpr ⟨i, hi, he⟩)

theorem HasItem.knows {s : Stock} {i : Item} (h : s.HasItem i) {e : Expr} (he : e ∈ i.exprs) :
    s.Knows e := by
  cases i with
  | plain f =>
    obtain rfl : e = f := by simpa [Item.exprs, Item.expr, Item.key] using he
    exact knows_of_mem h (List.mem_singleton.mpr rfl)
  | named a => exact knows_of_mem h he

/-- Columns as items have no other expressions. -/
theorem mem_of_mem_plainItems {α : Type} {expr : α → Expr} {as : List α} {e : Expr}
    (h : e ∈ (as.map fun a => Item.plain (expr a)).flatMap Item.exprs) :
    e ∈ as.map expr := by
  simp only [List.mem_flatMap, List.mem_map, Item.exprs, Item.expr, Item.key] at h
  obtain ⟨_, ⟨a, ha, rfl⟩, he⟩ := h
  exact List.mem_map.mpr ⟨a, ha, by simpa [eq_comm] using he⟩

/-- **A step keeps a stock coherent.** -/
theorem Coherent.step {s t : Stock} (h : s.Coherent) (hstep : Step s t) : t.Coherent := by
  cases hstep with
  | compute term c =>
    -- what is computed is new
    refine h.take (.single (e := ((Expr.ofTerm term c).run s.next).1) rfl rfl) fun e he => .inr ?_
    simpa [Held.exprs] using he
  | nullable he =>
    -- another codec does not make another computation
    exact h.keep_expr ((knows_of_mem he (List.mem_singleton.mpr rfl)).of_eq rfl rfl)
  | @name e he name =>
    refine h.take (.single (e := ((e.as name).run s.next).1.reference) rfl rfl) fun f hf => ?_
    rcases List.mem_cons.mp hf with rfl | hf
    · exact .inl (knows_of_mem he (List.mem_singleton.mpr rfl))
    · exact .inr hf
  | reference ha => exact h.keep_expr (knows_of_mem ha (by simp [Held.exprs]))
  | draft name => exact h.keep fun f hf => by cases hf
  | @column d hd name c clauses =>
    obtain ⟨es, hminted, hcolumn⟩ := d.declareColumn_minted name c clauses s.next
    refine h.take hminted fun e he => ?_
    split at he
    · next d' column hrun =>
      obtain ⟨rfl, hcolumns⟩ := hcolumn d' column hrun
      simp only [List.flatMap_cons, List.flatMap_nil, Held.exprs, hcolumns, List.map_append,
        List.append_nil, List.mem_append, List.map_cons, List.map_nil] at he
      rcases he with (he | he) | he
      · exact .inl (knows_of_mem hd he)
      · exact .inr he
      · exact .inr he
    · cases he
  | declare hd hcolumns =>
    refine h.keep fun e he => knows_of_mem hd ?_
    rwa [Held.exprs, hcolumns] at he
  | build hd ht =>
    refine h.keep fun e he => knows_of_mem hd ?_
    rwa [Held.exprs, TableDraft.columns_of_build ht] at he
  | tableColumn ht hc => exact h.keep_expr (knows_of_mem ht (List.mem_map_of_mem hc))
  | @tableAlias t ht name =>
    refine h.take (t.as_minted name s.next) fun e he => .inr ?_
    simpa [Held.exprs] using he
  | tableAliasColumn ha he =>
    unfold TableAlias.get at he
    split at he
    · next p hp =>
      obtain rfl := Except.ok.inj he
      have hknown := knows_of_mem ha (List.mem_map_of_mem (List.mem_of_find?_eq_some hp))
      exact h.keep_expr (hknown.of_eq rfl rfl)
    · cases he
  | tableSource ht => exact h.keep fun e he => knows_of_mem ht (mem_of_mem_plainItems he)
  | tableAliasSource ha => exact h.keep fun e he => knows_of_mem ha (mem_of_mem_plainItems he)
  | @join j hfirst hparts =>
    refine h.keep fun e he => ?_
    obtain ⟨i, hi, he⟩ := List.mem_flatMap.mp he
    rcases List.mem_append.mp hi with hi | hi
    · exact knows_item hfirst hi he
    · obtain ⟨p, hp, hi⟩ := List.mem_flatMap.mp hi
      exact knows_item (hparts p hp) hi he
  | @select source hs items hitems clauses =>
    refine h.keep fun e he => ?_
    obtain ⟨i, hi, he⟩ := List.mem_flatMap.mp he
    rw [(Select.foldl_refine clauses _).1] at hi
    have hi := mem_of_mem_distinctItems hi
    split at hi
    · exact knows_item hs hi he
    · exact (hitems i hi).knows he
  | @queryAlias q hq name =>
    refine h.take (OfferedColumn.ofItems_minted name q.items s.next) fun e he => .inr ?_
    rwa [List.flatMap_singleton] at he
  | queryAliasColumn ha he =>
    obtain ⟨c, hc, -, hid, hterm⟩ := OfferedColumn.of_find? (QueryAlias.find?_of_get he)
    exact h.keep_expr ((knows_of_mem ha (List.mem_map_of_mem hc)).of_eq hid hterm)
  | queryAliasSource ha => exact h.keep fun e he => knows_of_mem ha (mem_of_mem_plainItems he)
  | @viewColumn shown he view name =>
    refine h.take (.single (e := ((ViewColumn.of view name shown).run s.next).1.expr) rfl rfl)
      fun f hf => ?_
    rcases List.mem_cons.mp hf with rfl | hf
    · exact .inl (knows_of_mem he (List.mem_singleton.mpr rfl))
    · rcases List.mem_cons.mp hf with rfl | hf
      · exact .inr (List.mem_singleton.mpr rfl)
      · exact .inr hf
  | @view q hq name columns hcolumns temporary =>
    obtain ⟨es, hminted, hview⟩ := View.of_minted name q.sql q.items columns temporary s.next
    refine h.take hminted fun e he => ?_
    split at he
    · next v hrun =>
      rw [List.flatMap_singleton] at he
      rcases hview v hrun e he with hnew | hdeclared
      · exact .inr hnew
      · obtain ⟨c, hc, rfl⟩ := List.mem_map.mp hdeclared
        exact .inl (knows_of_mem (hcolumns c hc) (by simp [Held.exprs]))
    · cases he
  | viewGet hv he =>
    obtain ⟨c, hc, -, hid, hterm⟩ := OfferedColumn.of_find? (View.find?_of_get he)
    exact h.keep_expr ((knows_of_mem hv (List.mem_map_of_mem hc)).of_eq hid hterm)
  | viewSource hv => exact h.keep fun e he => knows_of_mem hv (mem_of_mem_plainItems he)

/-- **In every program an identity stands for one term.** -/
theorem Reachable.coherent {s : Stock} (h : Reachable s) : s.Coherent := by
  induction h with
  | start next => exact ⟨fun _ he => (by cases he), fun _ he => (by cases he)⟩
  | step _ hstep ih => exact ih.step hstep

end Stock

end TypedSql

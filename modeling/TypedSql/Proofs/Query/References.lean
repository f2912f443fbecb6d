import TypedSql.Proofs.Query.Columns

/-!
# References through a name

A query with a name, and a view that declares no columns, are read from
outside by names: the reference to an item is `"name"."column"`, where the
column is the name that the item exposes. Inside, items are told apart by
identity; outside there is only the name, and it stands for the first item
that exposes it (`itemOfName?`).

So a reference reaches the item it was made for unless an earlier item exposes
the same name, and all references of a query reach their items exactly when
the exposed names differ (`Select.references_reach`). Nothing sees to it that
they do: two columns of one name, from two tables of a join, are two items
with one reference (`Select.not_reaches_of_shared_name`).
-/

namespace TypedSql

/-! ## Names and what they stand for -/

/-- **What a name stands for** outside of a query: the place of the first item
that exposes it. -/
def itemOfName? (items : List Item) (name : Identifier) : Option Nat :=
  items.findIdx? fun i => i.exposedName? == some name

/-- A name stands for an item that exposes it when no earlier item does. -/
theorem itemOfName?_eq_some_iff {items : List Item} {name : Identifier} {i : Nat} {k : Item}
    (hk : items[i]? = some k) (hname : k.exposedName? = some name) :
    itemOfName? items name = some i ↔
      ∀ j < i, ∀ l, items[j]? = some l → l.exposedName? ≠ some name := by
  obtain ⟨hi, rfl⟩ := List.getElem?_eq_some_iff.mp hk
  rw [itemOfName?, List.findIdx?_eq_some_iff_getElem]
  constructor
  · rintro ⟨_, _, hfirst⟩ j hj l hl hlname
    obtain ⟨_, rfl⟩ := List.getElem?_eq_some_iff.mp hl
    exact hfirst j hj (beq_iff_eq.mpr hlname)
  · intro hfirst
    refine ⟨hi, beq_iff_eq.mpr hname, fun j hj hfound => ?_⟩
    exact hfirst j hj _ (List.getElem?_eq_getElem (Nat.lt_trans hj hi)) (eq_of_beq hfound)

/-- Every exposed name stands for its own item exactly when the exposed names
differ. -/
theorem forall_itemOfName?_iff (items : List Item) :
    (∀ i k name, items[i]? = some k → k.exposedName? = some name →
      itemOfName? items name = some i) ↔ (items.filterMap Item.exposedName?).Nodup := by
  rw [List.Nodup, List.pairwise_filterMap, List.pairwise_iff_getElem]
  constructor
  · intro h i j hi hj hij a ha b hb heq
    subst heq
    have hk := List.getElem?_eq_getElem hj
    have hplace := h j _ a hk hb
    exact (itemOfName?_eq_some_iff hk hb).mp hplace i hij _ (List.getElem?_eq_getElem hi) ha
  · intro h i k name hk hname
    refine (itemOfName?_eq_some_iff hk hname).mpr fun j hj l hl hlname => ?_
    obtain ⟨hi, rfl⟩ := List.getElem?_eq_some_iff.mp hk
    obtain ⟨hj', rfl⟩ := List.getElem?_eq_some_iff.mp hl
    exact h j i hj' hi hj name hlname name hname rfl

/-! ## References

References are made in four ways, by a query with a name and by a view, for an
expression that is asked for and as one of the columns that are offered.
`Select.Refers` lists them, and all four come down to one column among those
made for the items (`Refers.exists_column`). What a reference is written as
does not depend on the supply of identities, so the supply is forgotten early
(`mapM_run_map`). -/

/-- An operation that is done for each element of a list, seen through what of
its results does not depend on the supply. -/
theorem mapM_run_map {α β γ : Type} (f : α → Fresh β) (g : β → γ) (h : α → γ)
    (hf : ∀ a n, g ((f a).run n).1 = h a) (as : List α) (n : ExprId) :
    ((as.mapM f).run n).1.map g = as.map h := by
  induction as generalizing n with
  | nil => rfl
  | cons a as ih =>
    rw [List.mapM_cons]
    show g ((f a).run n).1 :: ((as.mapM f).run ((f a).run n).2).1.map g = h a :: as.map h
    rw [hf, ih]

/-- The columns for the items of a query: for each item that exposes a name,
that name under the name of the query. -/
theorem OfferedColumn.ofItems_map (source : Identifier) (items : List Item) (n : ExprId) :
    (((ofItems source items).run n).1.map fun c => (c.origin, c.expr.term))
      = items.filterMap fun i =>
          i.exposedName?.map fun name => (i.key.id, Term.column source name) := by
  unfold ofItems
  rw [mapM_run_map _ (fun c : OfferedColumn => (c.origin, c.expr.term))
    (fun p => (p.1.key.id, Term.column source p.2)) (fun _ _ => rfl), List.map_filterMap]
  refine List.filterMap_congr fun i _ => ?_
  rw [Option.map_map]
  rfl

/-- **The references to an item** of a query: what is made for it under a name
of the query, or by a view over the query that declares no columns. -/
inductive Select.Refers (q : Select) (name : Identifier) (k : Item) : Expr → Prop where
  /-- What the query with its name gives for an expression. -/
  | aliasGet {n : ExprId} {e r : Expr} (he : e.id = k.key.id)
    (hr : ((q.as name).run n).1.get e = .ok r) : Refers q name k r
  /-- The column among those of the query with its name. -/
  | aliasItem {n : ExprId} {c : OfferedColumn} (hc : c ∈ ((q.as name).run n).1.columns)
    (ho : c.origin = k.key.id) : Refers q name k c.expr
  /-- What the view gives for an expression. -/
  | viewGet {n : ExprId} {temporary : Bool} {v : View} {e r : Expr}
    (hv : ((View.of name q.sql q.items [] temporary).run.run n).1 = .ok v)
    (he : e.id = k.key.id) (hr : v.get e = .ok r) : Refers q name k r
  /-- The column among those of the view. -/
  | viewItem {n : ExprId} {temporary : Bool} {v : View} {c : OfferedColumn}
    (hv : ((View.of name q.sql q.items [] temporary).run.run n).1 = .ok v)
    (hc : c ∈ v.columns) (ho : c.origin = k.key.id) : Refers q name k c.expr

/-- A view that declares no columns has those of the items of its query. -/
theorem View.columns_of_undeclared {name : Identifier} {query : Sql} {items : List Item}
    {temporary : Bool} {n : ExprId} {v : View}
    (h : ((of name query items [] temporary).run.run n).1 = .ok v) :
    v.columns = ((OfferedColumn.ofItems name items).run n).1 := by
  unfold of at h
  split at h
  · rw [if_pos List.isEmpty_nil] at h
    exact Except.ok.inj h ▸ rfl
  · cases h

namespace Select

variable {q : Select} {name : Identifier} {k : Item} {r : Expr}

/-- Every reference to an item is one of the columns for the items of the
query. -/
theorem Refers.exists_column (h : q.Refers name k r) :
    ∃ n, ∃ c ∈ ((OfferedColumn.ofItems name q.items).run n).1,
      c.origin = k.key.id ∧ r.term = c.expr.term := by
  cases h with
  | @aliasGet n e _ he hr =>
    obtain ⟨c, hc, ho, -, hterm⟩ := OfferedColumn.of_find? (QueryAlias.find?_of_get hr)
    exact ⟨n, c, hc, ho.trans he, hterm.symm⟩
  | @aliasItem n c hc ho => exact ⟨n, c, hc, ho, rfl⟩
  | @viewGet n _ v e _ hv he hr =>
    obtain ⟨c, hc, ho, -, hterm⟩ := OfferedColumn.of_find? (View.find?_of_get hr)
    exact ⟨n, c, View.columns_of_undeclared hv ▸ hc, ho.trans he, hterm.symm⟩
  | @viewItem n _ v c hv hc ho => exact ⟨n, c, View.columns_of_undeclared hv ▸ hc, ho, rfl⟩

/-- **What a reference is**: the name that its item exposes, under the name of
the query. -/
theorem Refers.term_eq (hkeys : (q.items.map fun k => k.key.id).Nodup) (hk : k ∈ q.items)
    (h : q.Refers name k r) :
    ∃ column, k.exposedName? = some column ∧ r.term = .column name column := by
  obtain ⟨n, c, hc, ho, hterm⟩ := h.exists_column
  have hmem := List.mem_map_of_mem (f := fun c => (c.origin, c.expr.term)) hc
  rw [OfferedColumn.ofItems_map] at hmem
  obtain ⟨l, hl, hname⟩ := List.mem_filterMap.mp hmem
  obtain ⟨column, hcolumn, heq⟩ := Option.map_eq_some_iff.mp hname
  obtain ⟨horigin, hcterm⟩ := Prod.mk.inj heq
  obtain rfl : l = k := List.inj_on_of_nodup_map hkeys hl hk (horigin.trans ho)
  exact ⟨column, hcolumn, hterm.trans hcterm.symm⟩

/-- **An item that exposes a name is found** among the columns for the items
of the query. -/
theorem exists_find? {items : List Item} (hk : k ∈ items) {column : Identifier}
    (hname : k.exposedName? = some column) (name : Identifier) (n : ExprId) {e : Expr}
    (he : e.id = k.key.id) :
    ∃ r, OfferedColumn.find? ((OfferedColumn.ofItems name items).run n).1 e = some r := by
  have hmem : (k.key.id, Term.column name column) ∈
      ((OfferedColumn.ofItems name items).run n).1.map fun c => (c.origin, c.expr.term) := by
    rw [OfferedColumn.ofItems_map]
    exact List.mem_filterMap.mpr ⟨k, hk, by rw [hname]; rfl⟩
  obtain ⟨c, hc, heq⟩ := List.mem_map.mp hmem
  have horigin : c.origin = e.id := (Prod.mk.inj heq).1.trans he.symm
  obtain ⟨d, hd⟩ := Option.isSome_iff_exists.mp
    (List.find?_isSome (p := fun c : OfferedColumn => c.origin == e.id).mpr
      ⟨c, hc, by rw [horigin, beq_self_eq_true]⟩)
  exact ⟨_, Option.map_eq_some_iff.mpr ⟨d, hd, rfl⟩⟩

/-- A query with its name gives a reference for every item that exposes a
name. -/
theorem exists_aliasGet (hk : k ∈ q.items) {column : Identifier}
    (hcolumn : k.exposedName? = some column) (name : Identifier) (n : ExprId) {e : Expr}
    (he : e.id = k.key.id) : ∃ r, ((q.as name).run n).1.get e = .ok r := by
  obtain ⟨r, hr⟩ := exists_find? hk hcolumn name n he
  exact ⟨r, by rw [QueryAlias.get]; exact hr ▸ rfl⟩

theorem exists_viewGet (hk : k ∈ q.items) {column : Identifier}
    (hcolumn : k.exposedName? = some column) {n : ExprId} {temporary : Bool} {v : View}
    (hv : ((View.of name q.sql q.items [] temporary).run.run n).1 = .ok v) {e : Expr}
    (he : e.id = k.key.id) : ∃ r, v.get e = .ok r := by
  obtain ⟨r, hr⟩ := exists_find? hk hcolumn name n he
  rw [← View.columns_of_undeclared hv] at hr
  exact ⟨r, by rw [View.get, hr]⟩

/-- **A reference is written** with the name that its item exposes. -/
theorem Refers.text_eq (hkeys : (q.items.map fun k => k.key.id).Nodup) (hk : k ∈ q.items)
    (h : q.Refers name k r) {column : Identifier} (hcolumn : k.exposedName? = some column) :
    r.sql.text = name.quoted ++ "." ++ column.quoted := by
  obtain ⟨column', hcolumn', hterm⟩ := h.term_eq hkeys hk
  obtain rfl := Option.some.inj (hcolumn.symm.trans hcolumn')
  rw [Expr.sql, hterm, Term.sql]
  simp only [Sql.text, Sql.name, Sql.words, List.cons_append, List.nil_append, List.map_cons,
    List.map_nil, Piece.text, String.join_cons, String.join_nil, String.append_empty,
    String.append_assoc]

end Select

/-- **A reference reaches a place** of a query when its name stands for the
item there. -/
def Select.Reaches (q : Select) (r : Expr) (i : Nat) : Prop :=
  ∃ source column, r.term = .column source column ∧ itemOfName? q.items column = some i

/-- A reference reaches its item when its item is the first to expose the
name. -/
theorem Select.Refers.reaches_iff {q : Select} (hkeys : (q.items.map fun k => k.key.id).Nodup)
    {name : Identifier} {i : Nat} {k : Item} (hk : q.items[i]? = some k) {r : Expr}
    (h : q.Refers name k r) :
    q.Reaches r i ↔ ∀ j < i, ∀ l, q.items[j]? = some l → l.exposedName? ≠ k.exposedName? := by
  obtain ⟨column, hcolumn, hterm⟩ := h.term_eq hkeys (List.mem_of_getElem? hk)
  rw [hcolumn, ← itemOfName?_eq_some_iff hk hcolumn]
  constructor
  · rintro ⟨source, column', hterm', hplace⟩
    obtain ⟨-, rfl⟩ := Term.column.inj (hterm.symm.trans hterm')
    exact hplace
  · exact fun hplace => ⟨name, column, hterm, hplace⟩

/-- **All references reach their items** exactly when all exposed names
differ. -/
theorem Select.forall_reaches_iff {q : Select} (hkeys : (q.items.map fun k => k.key.id).Nodup)
    (name : Identifier) :
    (∀ i k r, q.items[i]? = some k → q.Refers name k r → q.Reaches r i) ↔
      (q.items.filterMap Item.exposedName?).Nodup := by
  rw [← forall_itemOfName?_iff]
  constructor
  · intro h i k column hk hcolumn
    obtain ⟨r, hr⟩ := exists_aliasGet (List.mem_of_getElem? hk) hcolumn name 0 (e := k.key) rfl
    have hrefers : q.Refers name k r := .aliasGet rfl hr
    exact (itemOfName?_eq_some_iff hk hcolumn).mpr
      (hcolumn ▸ (hrefers.reaches_iff hkeys hk).mp (h i k r hk hrefers))
  · intro h i k r hk hr
    obtain ⟨column, hcolumn, hterm⟩ := hr.term_eq hkeys (List.mem_of_getElem? hk)
    exact ⟨name, column, hterm, h i k column hk hcolumn⟩

/-- **What references reach.** Every item that exposes a name has references,
and they are written with that name; such a reference reaches its item when no
earlier item exposes the same name; and all references of a query reach their
items exactly when all exposed names differ. -/
theorem Select.references_reach (source : Source) (items : List Item)
    (clauses : List SelectClause) (name : Identifier) :
    let q := clauses.foldl Select.refine (Select.of source items)
    (∀ k ∈ q.items, ∀ column, k.exposedName? = some column →
      (∀ n e, e.id = k.key.id → ∃ r, ((q.as name).run n).1.get e = .ok r) ∧
      (∀ n temporary v e, ((View.of name q.sql q.items [] temporary).run.run n).1 = .ok v →
        e.id = k.key.id → ∃ r, v.get e = .ok r) ∧
      ∀ r, q.Refers name k r → r.sql.text = name.quoted ++ "." ++ column.quoted) ∧
    (∀ i k r, q.items[i]? = some k → q.Refers name k r →
      (q.Reaches r i ↔
        ∀ j < i, ∀ l, q.items[j]? = some l → l.exposedName? ≠ k.exposedName?)) ∧
    ((∀ i k r, q.items[i]? = some k → q.Refers name k r → q.Reaches r i) ↔
      (q.items.filterMap Item.exposedName?).Nodup) := by
  intro q
  have hkeys : (q.items.map fun k => k.key.id).Nodup := by
    rw [(Select.foldl_refine clauses _).1]
    exact (nodup_distinctItems [] _).1
  refine ⟨fun k hk column hcolumn => ⟨fun n e he => ?_, fun n temporary v e hv he => ?_, ?_⟩,
    fun i k r hk hr => hr.reaches_iff hkeys hk, forall_reaches_iff hkeys name⟩
  · exact exists_aliasGet hk hcolumn name n he
  · exact exists_viewGet hk hcolumn hv he
  · exact fun r hr => hr.text_eq hkeys hk hcolumn

/-- Two tables joined, and the column `_id` of each selected. -/
def Select.bothIds : Select :=
  .of { tree := .join (.named ⟨"Artist"⟩) [.mk .cross (.named ⟨"Album"⟩) none], items := [] }
    [.plain { id := 0, term := .column ⟨"Artist"⟩ ⟨"_id"⟩, offered := .long, codec := .long },
      .plain { id := 1, term := .column ⟨"Album"⟩ ⟨"_id"⟩, offered := .long, codec := .long }]

/-- The reference to the second of two columns of one name reaches the
first. -/
theorem Select.not_reaches_of_shared_name :
    ¬ ∀ i k r, bothIds.items[i]? = some k → bothIds.Refers ⟨"q"⟩ k r → bothIds.Reaches r i := by
  intro h
  obtain ⟨source, column, hterm, hplace⟩ := h 1 _ _ rfl
    (.aliasGet (n := 2)
      (e := { id := 1, term := .column ⟨"Album"⟩ ⟨"_id"⟩, offered := .long, codec := .long })
      rfl rfl)
  obtain ⟨-, rfl⟩ := Term.column.inj hterm
  exact absurd hplace (by decide)

end TypedSql

import TypedSql.Proofs.Query.Program
import TypedSql.Query

/-!
# Result columns are read from where they were written

A query is written with a select list and read by expression. Between the two
lies a list of items without repetitions, and `Query.ordinalOf?` finds an
expression in it in one of two ways: as the key of an item, or, if it is no
key, as what was selected under a name.

`firstOfKeys` says what is left of the items that were asked for.
`Stock.Reachable.readsColumns` then says for every query of every program
that the text and the reading agree: the n-th item of the text is in the n-th
place for the reader, and what an expression reads is what the expression of
its identity has computed.
-/

namespace TypedSql

/-! ## What is left of a list of items

`distinctItems` goes through the list with the keys it has seen. The set of
keys is a means of the program; what it comes to is said by positions: an item
stays if no item in front of it has its key. The induction is over what is left
of the list, and the keys that were seen are those of a prefix. -/

/-- **The items whose key has not come before.** -/
def firstOfKeys (items : List Item) : List Item :=
  (items.zipIdx.filter fun p =>
    (items.take p.2).all fun earlier => earlier.key.id != p.1.key.id).map Prod.fst

/-- The items that are left behind a prefix whose keys have been seen. -/
theorem distinctItems_append {seen : List ExprId} {before : List Item}
    (hseen : ∀ id, id ∈ seen ↔ id ∈ before.map fun i => i.key.id) (items : List Item) :
    distinctItems seen items
      = ((items.zipIdx before.length).filter fun p =>
          ((before ++ items).take p.2).all fun earlier =>
            earlier.key.id != p.1.key.id).map Prod.fst := by
  induction items generalizing seen before with
  | nil => rfl
  | cons i items ih =>
    have hfirst : (((before ++ i :: items).take before.length).all fun earlier =>
        earlier.key.id != i.key.id) = !seen.contains i.key.id := by
      rw [List.take_left]
      cases hcontains : seen.contains i.key.id
      · refine List.all_eq_true.mpr fun j hj => bne_iff_ne.mpr fun hkey => ?_
        have hmem := (hseen i.key.id).mpr (List.mem_map.mpr ⟨j, hj, hkey⟩)
        exact Bool.false_ne_true (hcontains ▸ List.contains_iff_mem.mpr hmem)
      · obtain ⟨j, hj, hkey⟩ :=
          List.mem_map.mp ((hseen i.key.id).mp (List.contains_iff_mem.mp hcontains))
        exact List.all_eq_false.mpr ⟨j, hj, by simp [hkey]⟩
    -- the item has been seen now, whether it was kept or not
    have happend : before ++ i :: items = (before ++ [i]) ++ items := by simp
    have hlength : before.length + 1 = (before ++ [i]).length := by simp
    rw [distinctItems, List.zipIdx_cons, List.filter_cons, hfirst, happend, hlength]
    cases hcontains : seen.contains i.key.id
    · rw [if_neg Bool.false_ne_true, Bool.not_false, if_pos rfl, List.map_cons]
      refine congrArg (i :: ·) (ih fun id => ?_)
      simp [hseen, or_comm]
    · rw [if_pos rfl, if_neg (by simp)]
      refine ih fun id => ?_
      have hmem : i.key.id ∈ seen := List.contains_iff_mem.mp hcontains
      rw [hseen] at hmem
      simp only [hseen, List.map_append, List.mem_append, List.map_cons, List.map_nil,
        List.mem_singleton]
      exact ⟨.inl, fun h => h.elim (fun h => h) fun heq => heq ▸ hmem⟩

/-- **A query selects every key once**, where it comes first. -/
theorem distinctItems_nil (items : List Item) : distinctItems [] items = firstOfKeys items :=
  @distinctItems_append [] [] (by simp) items

/-- The keys that are left are those that have not been seen, each of them
once. -/
theorem nodup_distinctItems (seen : List ExprId) (items : List Item) :
    ((distinctItems seen items).map fun i => i.key.id).Nodup ∧
      ∀ i ∈ distinctItems seen items, i.key.id ∉ seen := by
  induction items generalizing seen with
  | nil => exact ⟨List.nodup_nil, by simp [distinctItems]⟩
  | cons i items ih =>
    rw [distinctItems]
    split
    · exact ih seen
    · next hnew =>
      obtain ⟨hnodup, hunseen⟩ := ih (i.key.id :: seen)
      refine ⟨List.nodup_cons.mpr ⟨fun hmem => ?_, hnodup⟩, fun j hj => ?_⟩
      · obtain ⟨j, hj, hkey⟩ := List.mem_map.mp hmem
        exact hunseen j hj (hkey ▸ List.mem_cons_self)
      · rcases List.mem_cons.mp hj with rfl | hj
        · exact fun hmem => hnew (List.contains_iff_mem.mpr hmem)
        · exact fun hmem => hunseen j hj (List.mem_cons_of_mem _ hmem)

/-! ## The place of an expression

A key is looked for from the end of the list and what was selected under a name
from its beginning, so the two differ on lists with repetitions. Keys are there
once only, and this is what lets the two rules stand side by side. -/

theorem lastIdx?_eq_none_iff {α : Type} {p : α → Bool} {as : List α} :
    lastIdx? p as = none ↔ ∀ a ∈ as, p a = false := by
  induction as with
  | nil => simp [lastIdx?]
  | cons a as ih =>
    rw [lastIdx?, Option.or_eq_none_iff, Option.map_eq_none_iff, ih]
    cases hp : p a <;> simp [hp]

/-- The only element with a property is found. -/
theorem lastIdx?_eq_some {α : Type} {p : α → Bool} {as : List α} {i : Nat} {a : α}
    (ha : as[i]? = some a) (hp : p a = true)
    (honly : ∀ j b, as[j]? = some b → p b = true → j = i) : lastIdx? p as = some i := by
  induction as generalizing i with
  | nil => cases ha
  | cons b as ih =>
    cases i with
    | zero =>
      obtain rfl : b = a := by simpa using ha
      have hnone : lastIdx? p as = none := by
        refine lastIdx?_eq_none_iff.mpr fun c hc => Bool.eq_false_iff.mpr fun hpc => ?_
        obtain ⟨j, hj⟩ := List.mem_iff_getElem?.mp hc
        exact absurd (honly (j + 1) c hj hpc) (Nat.succ_ne_zero j)
      rw [lastIdx?, hnone, if_pos hp]
      rfl
    | succ i =>
      have hrest : lastIdx? p as = some i :=
        ih ha fun j c hj hpc => Nat.succ.inj (honly (j + 1) c hj hpc)
      rw [lastIdx?, hrest]
      rfl

/-- **No two places share a key.** -/
theorem Item.place_eq {items : List Item} (hkeys : (items.map fun k => k.key.id).Nodup)
    {i j : Nat} {k l : Item} (hk : items[i]? = some k) (hl : items[j]? = some l)
    (hkey : k.key.id = l.key.id) : i = j := by
  have hkkey : (items.map fun k => k.key.id)[i]? = some l.key.id := by
    simp only [List.getElem?_map, hk, Option.map_some, hkey]
  have hlkey : (items.map fun k => k.key.id)[j]? = some l.key.id := by
    simp only [List.getElem?_map, hl, Option.map_some]
  obtain ⟨hi, -⟩ := List.getElem?_eq_some_iff.mp hkkey
  exact (List.getElem?_inj hi hkeys).mp (hkkey.trans hlkey.symm)

/-- An item that is not found by its key is found only by its name. -/
theorem Item.expr_id_iff {k : Item} {id : ExprId} (hkey : k.key.id ≠ id) :
    k.expr.id = id ↔ ∃ a, k = .named a ∧ a.aliased.id = id := by
  cases k with
  | plain e => exact ⟨fun h => absurd h hkey, fun ⟨a, ha, _⟩ => by cases ha⟩
  | named a => exact ⟨fun h => ⟨a, rfl, h⟩, fun ⟨b, hb, hid⟩ => by cases hb; exact hid⟩

namespace Query

variable {q : Query}

/-- **The key of an item is in the place of the item**, when no two items
share a key. -/
theorem ordinalOf?_key (hkeys : (q.items.map fun k => k.key.id).Nodup) {i : Nat} {k : Item}
    (hk : q.items[i]? = some k) {e : Expr} (he : k.key.id = e.id) :
    q.ordinalOf? e = some i := by
  have honly : ∀ j l, q.items[j]? = some l → (l.key.id == e.id) = true → j = i :=
    fun j l hl hkey => Item.place_eq hkeys hl hk ((eq_of_beq hkey).trans he.symm)
  rw [ordinalOf?, lastIdx?_eq_some hk (by simp [he]) honly]
  rfl

/-- An expression that is no key is in the first place where it was
selected. -/
theorem ordinalOf?_of_not_key {e : Expr} (he : ∀ k ∈ q.items, k.key.id ≠ e.id) :
    q.ordinalOf? e = q.items.findIdx? fun k => k.expr.id == e.id := by
  have hnone : lastIdx? (fun k => k.key.id == e.id) q.items = none :=
    lastIdx?_eq_none_iff.mpr fun k hk => by simpa using he k hk
  rw [ordinalOf?, hnone]
  rfl

/-- **An expression that is no key** is in the first place where it was
selected under a name. -/
theorem ordinalOf?_eq_some_iff {e : Expr} (he : ∀ k ∈ q.items, k.key.id ≠ e.id) {i : Nat} :
    q.ordinalOf? e = some i ↔
      (∃ a, q.items[i]? = some (.named a) ∧ a.aliased.id = e.id) ∧
        ∀ j < i, ∀ a, q.items[j]? = some (.named a) → a.aliased.id ≠ e.id := by
  have hnamed : ∀ (j : Nat) (hj : j < q.items.length),
      (q.items[j].expr.id == e.id) = true ↔
        ∃ a, q.items[j]? = some (.named a) ∧ a.aliased.id = e.id := by
    intro j hj
    rw [beq_iff_eq, Item.expr_id_iff (he _ (List.getElem_mem hj)), List.getElem?_eq_getElem hj]
    simp only [Option.some.injEq]
  rw [ordinalOf?_of_not_key he, List.findIdx?_eq_some_iff_getElem]
  constructor
  · rintro ⟨hi, hfound, hfirst⟩
    refine ⟨(hnamed i hi).mp hfound, fun j hj a ha haid => hfirst j hj ?_⟩
    exact (hnamed j (Nat.lt_trans hj hi)).mpr ⟨a, ha, haid⟩
  · rintro ⟨⟨a, ha, haid⟩, hfirst⟩
    obtain ⟨hi, -⟩ := List.getElem?_eq_some_iff.mp ha
    refine ⟨hi, (hnamed i hi).mpr ⟨a, ha, haid⟩, fun j hj hfound => ?_⟩
    obtain ⟨b, hb, hbid⟩ := (hnamed j (Nat.lt_trans hj hi)).mp hfound
    exact hfirst j hj b hb hbid

/-- **Every other expression is not found.** -/
theorem ordinalOf?_eq_none_iff {e : Expr} :
    q.ordinalOf? e = none ↔
      ∀ k ∈ q.items, k.key.id ≠ e.id ∧ ∀ a, k = .named a → a.aliased.id ≠ e.id := by
  rw [ordinalOf?, Option.or_eq_none_iff, lastIdx?_eq_none_iff, List.findIdx?_eq_none_iff,
    ← forall₂_and]
  refine forall₂_congr fun k _ => ?_
  rw [beq_eq_false_iff_ne, beq_eq_false_iff_ne]
  refine and_congr_right fun hkey => ?_
  rw [Ne, Item.expr_id_iff hkey]
  exact ⟨fun h a ha haid => h ⟨a, ha, haid⟩, fun h ⟨a, ha, haid⟩ => h a ha haid⟩

end Query

/-! ## Writing and reading -/

/-- An item as it is written in a select list. -/
def Item.sql (i : Item) : Sql :=
  i.expr.sql ++
    match i.alias? with
    | some name => Sql.words " AS " ++ Sql.name name
    | none => []

theorem Term.sqlItems_entry (items : List Item) :
    Term.sqlItems (items.map Item.entry) = items.map Item.sql := by
  induction items with
  | nil => rfl
  | cons i items ih =>
    rw [List.map_cons, List.map_cons, ← ih]
    rfl

/-- **A query reads its columns from where it writes them.** `kept` is the
list of its items. -/
structure Select.ReadsColumns (q : Select) (kept : List Item) : Prop where
  /-- The text begins with the items, separated by commas. -/
  text : ∃ head rest, (head = "SELECT " ∨ head = "SELECT DISTINCT ") ∧
    q.sql = Sql.words head ++ Sql.commaList (kept.map Item.sql) ++ Sql.words " FROM " ++ rest
  /-- The key of every item is found in the place of the item, whatever else
  it was selected as. -/
  key : ∀ e i k, kept[i]? = some k → k.key.id = e.id → q.toQuery.ordinalOf? e = some i
  /-- An expression that is no key is found in the first place where it was
  selected under a name. -/
  named : ∀ e, (∀ k ∈ kept, k.key.id ≠ e.id) → ∀ i, q.toQuery.ordinalOf? e = some i ↔
    (∃ a, kept[i]? = some (.named a) ∧ a.aliased.id = e.id) ∧
      ∀ j < i, ∀ a, kept[j]? = some (.named a) → a.aliased.id ≠ e.id
  /-- Every other expression is not found. -/
  unmapped : ∀ e, q.toQuery.ordinalOf? e = none ↔
    ∀ k ∈ kept, k.key.id ≠ e.id ∧ ∀ a, k = .named a → a.aliased.id ≠ e.id
  /-- Reading an expression reads the cell in its place with its own codec. -/
  get_cell : ∀ row e i cell, q.toQuery.ordinalOf? e = some i → row.cells[i]? = some cell →
    (Cursor.mk q.toQuery row).get e = e.codec.decode cell
  /-- A row that is too short is refused. -/
  get_missing : ∀ row e i, q.toQuery.ordinalOf? e = some i → row.cells.length ≤ i →
    (Cursor.mk q.toQuery row).get e = .error (.missingColumn i)
  /-- An expression that is not found is refused. -/
  get_unmapped : ∀ row e, q.toQuery.ordinalOf? e = none →
    (Cursor.mk q.toQuery row).get e = .error .columnNotMapped

namespace Select

/-- **Every query reads its columns from where it writes them**, when no two
of its items share a key. -/
theorem readsColumns_of_nodup {q : Select} (hkeys : (q.items.map fun k => k.key.id).Nodup) :
    q.ReadsColumns q.items where
  text := by
    have hhead : (if q.isDistinct then "SELECT DISTINCT " else "SELECT ") = "SELECT " ∨
        (if q.isDistinct then "SELECT DISTINCT " else "SELECT ") = "SELECT DISTINCT " := by
      split
      · exact .inr rfl
      · exact .inl rfl
    exact ⟨_, _, hhead, by
      rw [sql, tree, SelectTerm.sql.eq_def]
      simp only [Term.sqlItems_entry, List.append_assoc]
      rfl⟩
  key := fun _ _ _ hk he => Query.ordinalOf?_key hkeys hk he
  named := fun _ he _ => Query.ordinalOf?_eq_some_iff he
  unmapped := fun _ => Query.ordinalOf?_eq_none_iff
  get_cell := by
    intro row e i cell hplace hcell
    simp only [Cursor.get, Cursor.cell, hplace, Row.cell, Row.cell?, hcell]
    rfl
  get_missing := by
    intro row e i hplace hlength
    simp only [Cursor.get, Cursor.cell, hplace, Row.cell, Row.cell?,
      List.getElem?_eq_none hlength]
    rfl
  get_unmapped := by
    intro row e hplace
    simp only [Cursor.get, Cursor.cell, hplace]
    rfl

end Select

namespace Stock

/-- **In every program every query reads its columns from where it writes
them**: its items are those that were asked for, each key where it comes
first, and what an expression reads is what was computed for its identity. -/
theorem Reachable.readsColumns {s : Stock} (hs : s.Reachable) {source : Source}
    (hsource : .source source ∈ s.held) {items : List Item} (hitems : ∀ i ∈ items, s.HasItem i)
    (clauses : List SelectClause) :
    let q := clauses.foldl Select.refine (Select.of source items)
    let kept := firstOfKeys (if items.isEmpty then source.items else items)
    q.ReadsColumns kept ∧
      ∀ e, .expr e ∈ s.held → ∀ i, q.toQuery.ordinalOf? e = some i →
        ∃ k, kept[i]? = some k ∧
          (k.key.id = e.id ∧ k.key.term = e.term ∨ k.expr.id = e.id ∧ k.expr.term = e.term) := by
  intro q kept
  have hdistinct : kept = distinctItems [] (if items.isEmpty then source.items else items) :=
    (distinctItems_nil _).symm
  have hkept : q.items = kept :=
    (Select.foldl_refine clauses _).1.trans (distinctItems_nil _)
  have hreads : q.ReadsColumns kept := by
    have hnodup := (nodup_distinctItems [] (if items.isEmpty then source.items else items)).1
    rw [distinctItems_nil] at hnodup
    exact hkept ▸ Select.readsColumns_of_nodup (hkept ▸ hnodup)
  refine ⟨hreads, fun e he i hi => ?_⟩
  have hknown : ∀ k ∈ kept, ∀ f ∈ k.exprs, f.id = e.id → f.term = e.term := by
    intro k hk f hf hid
    have hasked : s.Knows f := by
      have hmem := mem_of_mem_distinctItems (hdistinct ▸ hk)
      split at hmem
      · exact knows_item hsource hmem hf
      · exact (hitems k hmem).knows hf
    obtain ⟨g, hg, hgid, hgterm⟩ := hasked
    have hmem : e ∈ s.exprs := List.mem_flatMap.mpr ⟨_, he, List.mem_singleton.mpr rfl⟩
    exact hgterm.symm.trans (hs.coherent.same g hg e hmem (hgid.trans hid))
  -- an expression is a key of an item, or it was selected under a name
  by_cases hkey : ∀ k ∈ kept, k.key.id ≠ e.id
  · obtain ⟨⟨a, ha, haid⟩, -⟩ := (hreads.named e hkey i).mp hi
    exact ⟨_, ha, .inr ⟨haid, hknown _ (List.mem_of_getElem? ha) _ (by simp [Item.exprs, Item.expr])
      haid⟩⟩
  · simp only [not_forall, not_not] at hkey
    obtain ⟨k, hk, hkid⟩ := hkey
    obtain ⟨j, hj⟩ := List.mem_iff_getElem?.mp hk
    obtain rfl : i = j := Option.some.inj (hi.symm.trans (hreads.key e j k hj hkid))
    exact ⟨k, hj, .inl ⟨hkid, hknown k hk _ (by simp [Item.exprs]) hkid⟩⟩

/-- A table of one column, the column under a name, and a query that selects
it three times. -/
theorem readsColumns_repeated : ∃ (s : Stock) (source : Source) (e : Expr) (a : NamedExpr),
    s.Reachable ∧ .source source ∈ s.held ∧
      (∀ i ∈ [Item.named a, .plain e, .named a], s.HasItem i) ∧
      (Select.of source [.named a, .plain e, .named a]).ReadsColumns [.named a, .plain e] := by
  let column : Column :=
    { id := 0, table := ⟨"Album"⟩, name := ⟨"Year"⟩, codec := .long, constraints := [],
      default? := none }
  let table : Table :=
    { name := ⟨"Album"⟩, columns := [column], compositeKey := [], foreignKeys := [], indices := [],
      checks := [], withoutRowid := false }
  let year : NamedExpr := ((column.expr.as ⟨"y"⟩).run 1).1
  let held : List Held := [.named year, .source table.source, .table table,
    .draft { name := ⟨"Album"⟩, columns := [column] }, .expr column.expr,
    .draft { name := ⟨"Album"⟩ }]
  have hdraft : Reachable ⟨0, held.drop 5⟩ := (Reachable.start 0).step (.draft _)
  have hcolumn : Reachable ⟨1, held.drop 3⟩ :=
    hdraft.step (Step.column (s := ⟨0, held.drop 5⟩) (d := { name := ⟨"Album"⟩ })
      List.mem_cons_self "Year" .long [])
  have htable : Reachable ⟨1, held.drop 2⟩ :=
    hcolumn.step (.build (t := table) List.mem_cons_self rfl)
  have hsource : Reachable ⟨1, held.drop 1⟩ := htable.step (.tableSource List.mem_cons_self)
  have hname : Reachable ⟨2, held⟩ :=
    hsource.step (.name (e := column.expr) (by simp [held]) ⟨"y"⟩)
  have hheld : Held.source table.source ∈ held := by simp [held]
  have hitems : ∀ i ∈ [Item.named year, .plain column.expr, .named year],
      HasItem ⟨2, held⟩ i := by
    simp [HasItem, held]
  exact ⟨_, table.source, column.expr, year, hname, hheld, hitems,
    (hname.readsColumns hheld hitems []).1⟩

end Stock

end TypedSql

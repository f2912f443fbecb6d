import Mathlib.Data.List.Forall2
import Mathlib.Data.List.Induction
import Mathlib.Data.List.Perm.Subperm
import TypedSql.Proofs.Query.Columns
import TypedSql.Proofs.Sql.Text

/-!
# Declared columns of views

The columns of a view are declared one by one, each with the expression of
the query that it shows. In which order they are declared means nothing: the
view has them in the order of its query.

`View.arrange` looks for a free item for one column after the other. The
items of a query are told apart by their keys, so what has been placed is
known without the search: every item holds the column that shows its key
(`View.placed`). One more column finds its place if what it shows is selected
and has not been shown before. So all of them find one if they show different
keys (`View.Fits`), and if there are as many columns as items, this is to say
that they show a permutation of the keys.

`View.followsSources` says what comes of it for every query and every way to
declare columns.
-/

namespace TypedSql

/-! ## Declaring columns -/

/-- **What is said of a column of a view.** -/
structure Exposure where
  /-- The name that it gets. -/
  name : String
  /-- The expression of the query that it shows. -/
  shown : Expr

namespace ViewColumn

/-- **Columns that are declared one after the other.** Other identities may
be taken in between, so `n` is only some identity behind theirs. -/
inductive Declared (view : Identifier) : List Exposure → List ViewColumn → ExprId → Prop where
  /-- No column has been declared. -/
  | none (n : ExprId) : Declared view [] [] n
  /-- One more column. -/
  | more {xs : List Exposure} {cs : List ViewColumn} {n m : ExprId} (x : Exposure) :
    Declared view xs cs n → n ≤ m →
      Declared view (xs ++ [x]) (cs ++ [((of view x.name x.shown).run m).1])
        ((of view x.name x.shown).run m).2

/-- What was said of a column. -/
def exposure (c : ViewColumn) : Exposure := ⟨c.name.name, c.shown⟩

/-- What the columns of a list show. -/
def shownIds (cs : List ViewColumn) : List ExprId := cs.map fun c => c.shown.id

/-- **The first column that shows an expression.** -/
def showing? (cs : List ViewColumn) (id : ExprId) : Option ViewColumn :=
  cs.find? fun c => c.shown.id == id

theorem showing?_eq_none_iff {cs : List ViewColumn} {id : ExprId} :
    showing? cs id = none ↔ id ∉ shownIds cs := by
  rw [showing?, List.find?_eq_none, shownIds, List.mem_map, not_exists]
  simp only [beq_iff_eq, not_and]

theorem of_showing?_eq_some {cs : List ViewColumn} {id : ExprId} {c : ViewColumn}
    (h : showing? cs id = some c) : c ∈ cs ∧ c.shown.id = id := by
  have hid : (c.shown.id == id) = true := by simpa using List.find?_some h
  exact ⟨List.mem_of_find?_eq_some h, beq_iff_eq.mp hid⟩

theorem showing?_concat (cs : List ViewColumn) (c : ViewColumn) (id : ExprId) :
    showing? (cs ++ [c]) id = (showing? cs id).or (if c.shown.id = id then some c else none) := by
  rw [showing?, List.find?_append, List.find?_singleton]
  simp only [beq_iff_eq]
  rfl

namespace Declared

variable {view : Identifier} {xs : List Exposure} {cs : List ViewColumn} {n : ExprId}

theorem exposures (h : Declared view xs cs n) : cs.map exposure = xs := by
  induction h with
  | none n => rfl
  | more x _ _ ih =>
    rw [List.map_append, ih]
    rfl

theorem shownIds_eq (h : Declared view xs cs n) : shownIds cs = xs.map fun x => x.shown.id := by
  rw [← h.exposures, List.map_map]
  rfl

theorem term_eq (h : Declared view xs cs n) : ∀ c ∈ cs, c.expr.term = .column view c.name := by
  induction h with
  | none n => exact List.forall_mem_nil _
  | more x _ _ ih => exact List.forall_mem_append.mpr ⟨ih, List.forall_mem_singleton.mpr rfl⟩

/-- **Columns are told apart by their identities**, which have all been taken. -/
theorem ids (h : Declared view xs cs n) :
    (cs.map fun c => c.expr.id).Nodup ∧ ∀ c ∈ cs, c.expr.id < n := by
  induction h with
  | none n => exact ⟨List.nodup_nil, List.forall_mem_nil _⟩
  | @more xs cs n m x _ hnm ih =>
    obtain ⟨hnodup, hlt⟩ := ih
    have hbefore : ∀ c ∈ cs, c.expr.id < m := fun c hc => Nat.lt_of_lt_of_le (hlt c hc) hnm
    have hnew : m ∉ cs.map fun c => c.expr.id := by
      intro hmem
      obtain ⟨c, hc, hid⟩ := List.mem_map.mp hmem
      exact Nat.ne_of_lt (hbefore c hc) hid
    constructor
    · rw [List.map_append, List.map_singleton, ← List.concat_eq_append]
      exact hnodup.concat hnew
    · exact List.forall_mem_append.mpr ⟨fun c hc => Nat.lt_succ_of_lt (hbefore c hc),
        List.forall_mem_singleton.mpr (Nat.lt_succ_self m)⟩

end Declared

end ViewColumn

/-! ## A place for every column

The search changes a list of places as it goes. `placed` is that list in closed
form: every item with the column that shows its key, by a lookup in the columns
that have been declared so far. A step of the search is then one column more in
that lookup (`place_placed`), and the fold has no invariant but this equation.
-/

/-- The keys of items. -/
def Item.keyIds (items : List Item) : List ExprId := items.map fun i => i.key.id

namespace View

open ViewColumn (shownIds showing? showing?_eq_none_iff of_showing?_eq_some showing?_concat)

/-- **What finds a place**: different expressions that are selected. -/
structure Fits (keys shown : List ExprId) : Prop where
  /-- No expression is shown twice. -/
  distinct : shown.Nodup
  /-- Every one of them is selected. -/
  selected : ∀ id ∈ shown, id ∈ keys

/-- One more expression finds a place if it is selected and not shown. -/
theorem fits_concat {keys shown : List ExprId} {id : ExprId} :
    Fits keys (shown ++ [id]) ↔ Fits keys shown ∧ id ∈ keys ∧ id ∉ shown := by
  constructor
  · rintro ⟨hdistinct, hselected⟩
    rw [← List.concat_eq_append, List.nodup_concat] at hdistinct
    rw [List.forall_mem_append, List.forall_mem_singleton] at hselected
    exact ⟨⟨hdistinct.2, hselected.1⟩, hselected.2, hdistinct.1⟩
  · rintro ⟨⟨hdistinct, hselected⟩, hkey, hnew⟩
    refine ⟨?_, List.forall_mem_append.mpr ⟨hselected, List.forall_mem_singleton.mpr hkey⟩⟩
    rw [← List.concat_eq_append]
    exact hdistinct.concat hnew

/-- **As many expressions as keys** find a place exactly if they are the keys
in some order. -/
theorem fits_iff_perm {keys shown : List ExprId} (hkeys : keys.Nodup)
    (hlength : shown.length = keys.length) : Fits keys shown ↔ shown.Perm keys := by
  constructor
  · rintro ⟨hdistinct, hselected⟩
    exact (List.subperm_of_subset hdistinct hselected).perm_of_length_le (Nat.le_of_eq hlength.symm)
  · intro hperm
    exact ⟨hperm.nodup_iff.mpr hkeys, fun id hid => hperm.subset hid⟩

/-- The items with the columns that show them. -/
def placed (items : List Item) (cs : List ViewColumn) : List (Item × Option ViewColumn) :=
  items.map fun i => (i, showing? cs i.key.id)

/-- **Why a column is refused** that finds no place. -/
def refusal (view : Identifier) (keys : List ExprId) (x : Exposure) : ConstructionError :=
  .invalidViewColumn view.name x.name
    (if x.shown.id ∈ keys then .alreadyExposed x.shown.sql.text
      else .notSelected x.shown.sql.text)

variable {view : Identifier} {items : List Item} {cs : List ViewColumn} {c : ViewColumn}

/-- A place that is free for an expression is that of its item, and nobody
has shown it. -/
theorem isFree_placed {i : Item} {id : ExprId} :
    (i.key.id == id && (showing? cs i.key.id).isNone) = true ↔
      i.key.id = id ∧ id ∉ shownIds cs := by
  rw [Bool.and_eq_true, beq_iff_eq, Option.isNone_iff_eq_none, showing?_eq_none_iff]
  exact and_congr_right fun hkey => by rw [hkey]

/-- The place that is found for an expression is that of its item. -/
theorem getElem?_of_freeItem? {id : ExprId} {n : Nat}
    (h : freeItem? id (placed items cs) = some n) :
    ∃ i, items[n]? = some i ∧ i.key.id = id ∧ id ∉ shownIds cs := by
  obtain ⟨hlt, hfree, -⟩ := List.findIdx?_eq_some_iff_getElem.mp h
  have hn : n < items.length := by rwa [placed, List.length_map] at hlt
  simp only [placed, List.getElem_map] at hfree
  exact ⟨items[n], List.getElem?_eq_getElem hn, isFree_placed.mp hfree⟩

/-- Where an item is selected and not shown there is a place. -/
theorem exists_freeItem? {id : ExprId} (hselected : id ∈ Item.keyIds items)
    (hnew : id ∉ shownIds cs) : ∃ n, freeItem? id (placed items cs) = some n := by
  obtain ⟨i, hi, hkey⟩ := List.mem_map.mp hselected
  rw [← Option.isSome_iff_exists, freeItem?, List.findIdx?_isSome, List.any_eq_true]
  exact ⟨_, List.mem_map_of_mem hi, isFree_placed.mpr ⟨hkey, hnew⟩⟩

/-- **A column finds its place.** -/
theorem place_placed (hkeys : (Item.keyIds items).Nodup)
    (hselected : c.shown.id ∈ Item.keyIds items) (hnew : c.shown.id ∉ shownIds cs) :
    place view (placed items cs) c = .ok (placed items (cs ++ [c])) := by
  obtain ⟨n, hn⟩ := exists_freeItem? hselected hnew
  obtain ⟨i, hi, hkey, -⟩ := getElem?_of_freeItem? hn
  rw [place, hn]
  refine congrArg Except.ok (List.ext_getElem? fun j => ?_)
  rw [List.getElem?_modify, placed, placed, List.getElem?_map, List.getElem?_map]
  cases hj : items[j]? with
  | none => split <;> rfl
  | some k =>
    rw [Option.map_some, Option.map_some, Option.map_eq_map, Option.map_some, showing?_concat]
    split
    · next heq =>
      -- the item is the one that was found, and nothing has shown it
      obtain rfl : i = k := Option.some.inj (hi.symm.trans (heq ▸ hj))
      rw [showing?_eq_none_iff.mpr (hkey ▸ hnew), Option.none_or, if_pos hkey.symm]
    · next hne =>
      have hother : c.shown.id ≠ k.key.id := fun hsame =>
        hne (Item.place_eq hkeys hi hj (hkey.trans hsame))
      rw [if_neg hother, Option.or_none]

/-- **A column that finds none is refused.** -/
theorem place_placed_refused
    (hrefused : c.shown.id ∈ Item.keyIds items → c.shown.id ∈ shownIds cs) :
    place view (placed items cs) c = .error (refusal view (Item.keyIds items) c.exposure) := by
  have hnone : freeItem? c.shown.id (placed items cs) = none := by
    cases hfree : freeItem? c.shown.id (placed items cs) with
    | none => rfl
    | some n =>
      obtain ⟨i, hi, hkey, hnew⟩ := getElem?_of_freeItem? hfree
      exact absurd (hrefused (hkey ▸ List.mem_map_of_mem (List.mem_of_getElem? hi))) hnew
  have hany : ((placed items cs).any fun p => p.1.key.id == c.shown.id) = true ↔
      c.shown.id ∈ Item.keyIds items := by
    simp only [placed, List.any_map, List.any_eq_true, Item.keyIds, List.mem_map,
      Function.comp_apply, beq_iff_eq]
  rw [place, hnone]
  refine congrArg (fun fault =>
    Except.error (ConstructionError.invalidViewColumn view.name c.name.name fault)) ?_
  exact if_congr hany rfl rfl

/-- **All columns find their places** if they fit. -/
theorem foldlM_place (hkeys : (Item.keyIds items).Nodup)
    (hfits : Fits (Item.keyIds items) (shownIds cs)) :
    cs.foldlM (place view) (placed items []) = .ok (placed items cs) := by
  induction cs using List.reverseRecOn with
  | nil => rfl
  | append_singleton cs c ih =>
    rw [shownIds, List.map_append] at hfits
    obtain ⟨hfits, hselected, hnew⟩ := fits_concat.mp hfits
    rw [List.foldlM_append, ih hfits]
    show [c].foldlM (place view) (placed items cs) = _
    rw [List.foldlM_cons, place_placed hkeys hselected hnew]
    rfl

/-- **The first column that does not fit is refused**, if there is one. -/
theorem foldlM_place_refused (view : Identifier) (hkeys : (Item.keyIds items).Nodup)
    (hrefused : ¬ Fits (Item.keyIds items) (shownIds cs)) :
    ∃ earlier c later, cs = earlier ++ c :: later ∧
      Fits (Item.keyIds items) (shownIds earlier) ∧
      (c.shown.id ∈ Item.keyIds items → c.shown.id ∈ shownIds earlier) ∧
      cs.foldlM (place view) (placed items []) =
        .error (refusal view (Item.keyIds items) c.exposure) := by
  induction cs using List.reverseRecOn with
  | nil => exact absurd ⟨List.nodup_nil, List.forall_mem_nil _⟩ hrefused
  | append_singleton cs c ih =>
    -- either the last column is the first that does not fit, or an earlier one is
    by_cases hfits : Fits (Item.keyIds items) (shownIds cs)
    · have hlast : c.shown.id ∈ Item.keyIds items → c.shown.id ∈ shownIds cs := by
        intro hselected
        by_contra hnew
        rw [shownIds, List.map_append] at hrefused
        exact hrefused (fits_concat.mpr ⟨hfits, hselected, hnew⟩)
      refine ⟨cs, c, [], rfl, hfits, hlast, ?_⟩
      rw [List.foldlM_append, foldlM_place hkeys hfits]
      show [c].foldlM (place view) (placed items cs) = _
      rw [List.foldlM_cons, place_placed_refused hlast]
      rfl
    · obtain ⟨earlier, first, later, rfl, hearlier, hfirst, herror⟩ := ih hfits
      refine ⟨earlier, first, later ++ [c], by simp, hearlier, hfirst, ?_⟩
      rw [List.foldlM_append, herror]
      rfl

/-! ## The columns in the order of the items

When all items have been shown the places are full, and reading them off gives
the columns in the order of the items. What they show are the keys, in that
order, so two ways to declare the same columns differ in nothing that is
written. -/

/-- The columns in the order of the items that they show. -/
def arranged (items : List Item) (cs : List ViewColumn) : List ViewColumn :=
  items.filterMap fun i => showing? cs i.key.id

theorem arrange_eq_ok (hkeys : (Item.keyIds items).Nodup)
    (hfits : Fits (Item.keyIds items) (shownIds cs)) :
    arrange view items cs = .ok (arranged items cs) := by
  have hplaces : cs.foldlM (place view) (items.map fun i => (i, none)) = .ok (placed items cs) :=
    foldlM_place hkeys hfits
  rw [arrange, hplaces, arranged]
  show Except.ok _ = _
  rw [placed, List.filterMap_map]
  rfl

/-- **Every item has its column** when all of them are shown. -/
theorem forall₂_arranged (hshown : ∀ id ∈ Item.keyIds items, id ∈ shownIds cs) :
    List.Forall₂ (fun i c => c ∈ cs ∧ c.shown.id = i.key.id) items (arranged items cs) := by
  induction items with
  | nil => exact .nil
  | cons i items ih =>
    obtain ⟨hfirst, hrest⟩ := List.forall_mem_cons.mp hshown
    cases hshows : showing? cs i.key.id with
    | none => exact absurd hfirst (showing?_eq_none_iff.mp hshows)
    | some c =>
      rw [arranged, List.filterMap_cons, hshows]
      exact .cons (of_showing?_eq_some hshows) (ih hrest)

/-- The columns show the keys one after the other. -/
theorem shownIds_arranged (hshown : ∀ id ∈ Item.keyIds items, id ∈ shownIds cs) :
    shownIds (arranged items cs) = Item.keyIds items := by
  have heq : List.Forall₂ Eq (shownIds (arranged items cs)) (Item.keyIds items) := by
    rw [shownIds, Item.keyIds, List.forall₂_map_left_iff, List.forall₂_map_right_iff]
    exact ((forall₂_arranged hshown).imp fun _ _ hc => hc.2).flip
  rwa [List.forall₂_eq_eq_eq] at heq

/-- **The name of an item** among what was said of the columns. -/
def Names (xs : List Exposure) (i : Item) (name : Identifier) : Prop :=
  ∃ x ∈ xs, x.shown.id = i.key.id ∧ name = ⟨x.name⟩

theorem forall₂_names (hshown : ∀ id ∈ Item.keyIds items, id ∈ shownIds cs) :
    List.Forall₂ (Names (cs.map ViewColumn.exposure)) items
      ((arranged items cs).map ViewColumn.name) := by
  rw [List.forall₂_map_right_iff]
  exact (forall₂_arranged hshown).imp fun _ c hc => ⟨_, List.mem_map_of_mem hc.1, hc.2, rfl⟩

/-- **An item has one name**, whatever order the columns were declared in. -/
theorem eq_of_names {xs ys : List Exposure} (hperm : ys.Perm xs)
    (hdistinct : (xs.map fun x => x.shown.id).Nodup) {names names' : List Identifier}
    (h : List.Forall₂ (Names xs) items names) (h' : List.Forall₂ (Names ys) items names') :
    names = names' := by
  have hunique : Relator.RightUnique (Names xs) := by
    rintro i _ _ ⟨x, hx, hxid, rfl⟩ ⟨y, hy, hyid, rfl⟩
    rw [List.inj_on_of_nodup_map hdistinct hx hy (hxid.trans hyid.symm)]
  refine List.right_unique_forall₂' hunique h (h'.imp ?_)
  rintro i _ ⟨y, hy, hyid, rfl⟩
  exact ⟨y, hperm.subset hy, hyid, rfl⟩

end View

/-! ## Reading from the view -/

/-- Items with different keys are all selected. -/
theorem distinctItems_of_nodup {seen : List ExprId} {items : List Item}
    (hkeys : (Item.keyIds items).Nodup) (hnew : ∀ id ∈ Item.keyIds items, id ∉ seen) :
    distinctItems seen items = items := by
  induction items generalizing seen with
  | nil => rfl
  | cons i items ih =>
    obtain ⟨hfirst, hkeys⟩ := List.nodup_cons.mp hkeys
    obtain ⟨hunseen, hnew⟩ := List.forall_mem_cons.mp hnew
    rw [distinctItems, if_neg (mt List.contains_iff_mem.mp hunseen)]
    refine congrArg (i :: ·) (ih hkeys fun id hid => ?_)
    rw [List.mem_cons, not_or]
    exact ⟨fun h => hfirst (h ▸ hid : i.key.id ∈ Item.keyIds items), hnew id hid⟩

/-- The text of a query that has no clauses. -/
theorem Select.text_of (source : Source) (items : List Item) :
    (Select.of source items).sql.text =
      "SELECT " ++ ", ".intercalate ((Select.of source items).items.map fun i => i.sql.text) ++
        " FROM " ++ source.tree.sql.text := by
  have hsql : (of source items).sql = Sql.words "SELECT " ++
      Sql.commaList ((of source items).items.map Item.sql) ++ Sql.words " FROM " ++
      source.tree.sql := by
    rw [sql, tree, SelectTerm.sql.eq_def, ← Term.sqlItems_entry]
    show _ ++ [] ++ [] ++ [] ++ [] ++ [] = _
    simp only [List.append_nil]
    rfl
  rw [hsql, Sql.text_append, Sql.text_append, Sql.text_append, Sql.text_words, Sql.text_words,
    Sql.text_commaList, List.map_map]
  rfl

namespace View

open ViewColumn (shownIds)

/-- **A view shows the items of a query under names.** `said` is what was
said of its columns. -/
structure Shows (v : View) (name : Identifier) (q : Select) (said : List Exposure)
    (temporary : Bool) (names : List Identifier) : Prop where
  /-- There are as many names as items. -/
  width : names.length = q.items.length
  /-- The name of an item is the only one that was declared for it. -/
  named : ∀ (i : Nat) item, q.items[i]? = some item → ∃ x ∈ said,
    x.shown.id = item.key.id ∧ names[i]? = some ⟨x.name⟩ ∧
      ∀ y ∈ said, y.shown.id = item.key.id → y = x
  /-- The statement that makes the view lists the names. -/
  text : ∀ connection, (v.sql connection).text =
    (if connection || temporary then "CREATE TEMP VIEW IF NOT EXISTS "
      else "CREATE VIEW IF NOT EXISTS ") ++ name.quoted ++
      " (" ++ ", ".intercalate (names.map Identifier.quoted) ++ ") AS " ++ q.sql.text
  /-- What an item is found by has become the column of that name. -/
  get : ∀ (i : Nat) item column, q.items[i]? = some item → names[i]? = some column →
    ∀ e : Expr, e.id = item.key.id →
      ∃ e', v.get e = .ok e' ∧ e'.codec = e.codec ∧ e'.sql.text = Sql.qualified name column
  /-- Whoever selects nothing else gets all columns in the order of the query. -/
  select : (Select.of v.source []).sql.text =
    "SELECT " ++ ", ".intercalate (names.map (Sql.qualified name)) ++ " FROM " ++ name.quoted

/-- The view of some columns that have found their places. -/
def declared (name : Identifier) (query : Sql) (columns : List ViewColumn) (temporary : Bool)
    (h : query.slots = []) : View where
  name := name
  declared? := some (columns.map ViewColumn.name)
  columns := columns.map ViewColumn.offered
  query := query
  slots_nil := h
  temporary := temporary

section

variable {name : Identifier} {query : Sql} {columns : List ViewColumn} {temporary : Bool}
  {h : query.slots = []}

/-- The statement that makes the view. -/
theorem text_declared (connection : Bool) :
    ((declared name query columns temporary h).sql connection).text =
      (if connection || temporary then "CREATE TEMP VIEW IF NOT EXISTS "
        else "CREATE VIEW IF NOT EXISTS ") ++ name.quoted ++ " (" ++
        ", ".intercalate ((columns.map ViewColumn.name).map Identifier.quoted) ++ ") AS " ++
        query.text := by
  have hopen : (" (" : String) = " " ++ "(" := rfl
  have hclose : (") AS " : String) = ")" ++ " AS " := rfl
  rw [sql, hopen, hclose]
  simp only [Sql.text_append, Sql.text_words, Sql.text_name, declared, Sql.text_parenthesized,
    Sql.text_names, String.append_assoc]
  rfl

/-- What a column shows has become that column. -/
theorem get_declared (hdistinct : (shownIds columns).Nodup)
    (hterm : ∀ c ∈ columns, c.expr.term = .column name c.name) {c : ViewColumn}
    (hc : c ∈ columns) {e : Expr} (he : e.id = c.shown.id) :
    ∃ e', (declared name query columns temporary h).get e = .ok e' ∧ e'.codec = e.codec ∧
      e'.sql.text = Sql.qualified name c.name := by
  obtain ⟨d, hd⟩ : ∃ d, (columns.map ViewColumn.offered).find? (fun d => d.origin == e.id)
      = some d := by
    rw [← Option.isSome_iff_exists, List.find?_isSome]
    exact ⟨c.offered, List.mem_map_of_mem hc, beq_iff_eq.mpr he.symm⟩
  obtain ⟨c', hc', rfl⟩ := List.mem_map.mp (List.mem_of_find?_eq_some hd)
  have hid : c'.shown.id = e.id := by simpa [ViewColumn.offered] using List.find?_some hd
  obtain rfl := List.inj_on_of_nodup_map hdistinct hc' hc (hid.trans he)
  have hget : (declared name query columns temporary h).get e
      = .ok { c'.expr with codec := e.codec } := by
    rw [get, OfferedColumn.find?, declared, hd]
    rfl
  refine ⟨_, hget, rfl, ?_⟩
  rw [Expr.sql, hterm c' hc, Sql.text_column]

/-- Who selects nothing else gets the columns one after the other. -/
theorem text_select_declared (hids : (columns.map fun c => c.expr.id).Nodup)
    (hterm : ∀ c ∈ columns, c.expr.term = .column name c.name) :
    (Select.of (declared name query columns temporary h).source []).sql.text =
      "SELECT " ++ ", ".intercalate ((columns.map ViewColumn.name).map (Sql.qualified name)) ++
        " FROM " ++ name.quoted := by
  have hitems : (Select.of (declared name query columns temporary h).source []).items
      = columns.map fun c => .plain c.expr := by
    have hall : (declared name query columns temporary h).source.items
        = columns.map fun c => .plain c.expr := by
      rw [source, OfferedColumn.items, declared, List.map_map]
      rfl
    rw [Select.of, List.isEmpty_nil, if_pos rfl, hall]
    refine distinctItems_of_nodup ?_ fun id _ => List.not_mem_nil
    rw [Item.keyIds, List.map_map]
    exact hids
  have hname : (declared name query columns temporary h).source.tree.sql.text = name.quoted :=
    Sql.text_name name
  rw [Select.text_of, hitems, hname, List.map_map, List.map_map]
  refine congrArg (fun ss => "SELECT " ++ ", ".intercalate ss ++ " FROM " ++ name.quoted) ?_
  refine List.map_congr_left fun c hc => ?_
  rw [Function.comp_apply, Item.sql, Item.alias?, List.append_nil, Item.expr, Expr.sql, hterm c hc,
    Sql.text_column]
  rfl

end

/-! ## What comes of declared columns

The outcome is decided in stages: placeholders in the query, the number of
columns, a place for each of them. Each stage has its error, and a lemma for
each says that the run ends there. What passes all of them is a permutation of
the keys. -/

/-- Lists that belong together belong together in every place. -/
theorem exists_getElem?_of_forall₂ {α β : Type} {R : α → β → Prop} {as : List α} {bs : List β}
    (h : List.Forall₂ R as bs) {i : Nat} {a : α} (ha : as[i]? = some a) :
    ∃ b, bs[i]? = some b ∧ R a b := by
  induction h generalizing i with
  | nil => cases ha
  | cons hab _ ih =>
    cases i with
    | zero => exact ⟨_, rfl, Option.some.inj ha ▸ hab⟩
    | succ i => exact ih ha

/-- **What comes of declaring columns.** -/
structure FollowsSources (name : Identifier) (q : Select) (said : List Exposure)
    (temporary : Bool) (outcome : Except ConstructionError View) : Prop where
  /-- There is a view exactly if there is nothing to bind and the columns show
  the keys of the items in some order. -/
  ok_iff : (∃ v, outcome = .ok v) ↔
    q.sql.slots = [] ∧ (said.map fun x => x.shown.id).Perm (q.items.map fun i => i.key.id)
  /-- Then it shows the items of the query under the names that were declared
  for them. -/
  shows : ∀ v, outcome = .ok v → ∃ names, v.Shows name q said temporary names
  /-- Whoever declares the same columns in another order makes it by the same
  statement. -/
  reordered : ∀ v, outcome = .ok v → ∀ said' cs n m, said'.Perm said →
    ViewColumn.Declared name said' cs n →
      ∃ w, ((of name q.sql q.items cs temporary).run.run m).1 = .ok w ∧
        ∀ connection, w.sql connection = v.sql connection
  /-- Placeholders are refused before all else. -/
  placeholders : q.sql.slots ≠ [] →
    outcome = .error (.unexpectedBindArgument .view name.name q.sql.text)
  /-- Then there have to be as many columns as items. -/
  count : q.sql.slots = [] → said.length ≠ q.items.length →
    outcome = .error (.viewColumnCount name.name said.length q.items.length)
  /-- Then it is the first column that shows what is not selected, or what has
  been shown before. -/
  misplaced : q.sql.slots = [] → said.length = q.items.length →
    ¬ (said.map fun x => x.shown.id).Perm (q.items.map fun i => i.key.id) →
      ∃ earlier x later, said = earlier ++ x :: later ∧
        (earlier.map fun y => y.shown.id).Nodup ∧
        (∀ y ∈ earlier, ∃ i ∈ q.items, i.key.id = y.shown.id) ∧
        ((∀ i ∈ q.items, i.key.id ≠ x.shown.id) ∧
            outcome = .error (.invalidViewColumn name.name x.name
              (.notSelected x.shown.sql.text)) ∨
          (∃ i ∈ q.items, i.key.id = x.shown.id) ∧ (∃ y ∈ earlier, y.shown.id = x.shown.id) ∧
            outcome = .error (.invalidViewColumn name.name x.name
              (.alreadyExposed x.shown.sql.text)))

section

variable {name : Identifier} {q : Select} {xs : List Exposure} {cs : List ViewColumn} {n : ExprId}

/-- **Columns that show a permutation of the keys** make the view that shows
the items under their names. -/
theorem shows_declared (hkeys : (Item.keyIds q.items).Nodup)
    (h : ViewColumn.Declared name xs cs n) (hslots : q.sql.slots = []) (temporary : Bool)
    (hperm : (xs.map fun x => x.shown.id).Perm (Item.keyIds q.items)) :
    (declared name q.sql (arranged q.items cs) temporary hslots).Shows name q xs temporary
      ((arranged q.items cs).map ViewColumn.name) := by
  have hdistinct : (xs.map fun x => x.shown.id).Nodup := hperm.nodup_iff.mpr hkeys
  have hshown : ∀ id ∈ Item.keyIds q.items, id ∈ shownIds cs := fun id hid =>
    h.shownIds_eq ▸ hperm.symm.subset hid
  have hmem : ∀ c ∈ arranged q.items cs, c ∈ cs := by
    intro c hc
    obtain ⟨i, -, hshows⟩ := List.mem_filterMap.mp hc
    exact (ViewColumn.of_showing?_eq_some hshows).1
  have hcolumns := forall₂_arranged hshown
  have hnodup : (shownIds (arranged q.items cs)).Nodup := shownIds_arranged hshown ▸ hkeys
  have hterm : ∀ c ∈ arranged q.items cs, c.expr.term = .column name c.name := fun c hc =>
    h.term_eq c (hmem c hc)
  refine ⟨?_, fun i item hitem => ?_, text_declared, fun i item column hitem hcolumn e he => ?_, ?_⟩
  · rw [List.length_map]
    exact hcolumns.length_eq.symm
  · obtain ⟨column, hcolumn, x, hx, hxid, rfl⟩ :=
      exists_getElem?_of_forall₂ (h.exposures ▸ forall₂_names hshown) hitem
    exact ⟨x, hx, hxid, hcolumn, fun y hy hyid =>
      List.inj_on_of_nodup_map hdistinct hy hx (hyid.trans hxid.symm)⟩
  · obtain ⟨c, hc, -, hcid⟩ := exists_getElem?_of_forall₂ hcolumns hitem
    rw [List.getElem?_map, hc] at hcolumn
    obtain rfl := Option.some.inj hcolumn
    exact get_declared hnodup hterm (List.mem_of_getElem? hc) (he.trans hcid.symm)
  · refine text_select_declared (List.Nodup.map_on (fun c hc d hd heq => ?_) ?_) hterm
    · exact List.inj_on_of_nodup_map h.ids.1 (hmem c hc) (hmem d hd) heq
    · exact List.Nodup.of_map _ hnodup

/-- **Names find the same places** in whatever order they are declared. -/
theorem names_arranged {ys : List Exposure} {ds : List ViewColumn} {k : ExprId}
    (hkeys : (Item.keyIds q.items).Nodup) (h : ViewColumn.Declared name xs cs n)
    (h' : ViewColumn.Declared name ys ds k) (hys : ys.Perm xs)
    (hperm : (shownIds cs).Perm (Item.keyIds q.items))
    (hperm' : (shownIds ds).Perm (Item.keyIds q.items)) :
    (arranged q.items cs).map ViewColumn.name = (arranged q.items ds).map ViewColumn.name :=
  eq_of_names hys (h.shownIds_eq ▸ hperm.nodup_iff.mpr hkeys)
    (h.exposures ▸ forall₂_names fun _ hid => hperm.symm.subset hid)
    (h'.exposures ▸ forall₂_names fun _ hid => hperm'.symm.subset hid)

/-- As soon as columns are declared they have to be as many as the items. -/
theorem run_of_count (hcs : cs ≠ []) (hslots : q.sql.slots = [])
    (hlength : cs.length ≠ q.items.length) (temporary : Bool) (m : ExprId) :
    ((of name q.sql q.items cs temporary).run.run m).1 =
      .error (.viewColumnCount name.name cs.length q.items.length) := by
  rw [of, dif_pos hslots, if_neg (mt List.isEmpty_iff.mp hcs), if_pos hlength]
  rfl

/-- Else they are arranged. -/
theorem run_of_arrange (hcs : cs ≠ []) (hslots : q.sql.slots = [])
    (hlength : cs.length = q.items.length) (temporary : Bool) (m : ExprId) :
    ((of name q.sql q.items cs temporary).run.run m).1 =
      (arrange name q.items cs).map fun columns =>
        declared name q.sql columns temporary hslots := by
  rw [of, dif_pos hslots, if_neg (mt List.isEmpty_iff.mp hcs), if_neg (not_not.mpr hlength)]
  cases arrange name q.items cs <;> rfl

/-- Columns that show a permutation of the keys make a view. -/
theorem run_of_perm (hkeys : (Item.keyIds q.items).Nodup) (hcs : cs ≠ [])
    (hslots : q.sql.slots = []) (hperm : (shownIds cs).Perm (Item.keyIds q.items))
    (temporary : Bool) (m : ExprId) :
    ((of name q.sql q.items cs temporary).run.run m).1 =
      .ok (declared name q.sql (arranged q.items cs) temporary hslots) := by
  have hlength : (shownIds cs).length = (Item.keyIds q.items).length := hperm.length_eq
  have hfits := (fits_iff_perm hkeys hlength).mpr hperm
  rw [shownIds, Item.keyIds, List.length_map, List.length_map] at hlength
  rw [run_of_arrange hcs hslots hlength, arrange_eq_ok hkeys hfits]
  rfl

/-- Columns that do not are refused with the first one that does not fit. -/
theorem run_of_not_perm (hkeys : (Item.keyIds q.items).Nodup) (hcs : cs ≠ [])
    (hslots : q.sql.slots = []) (hlength : cs.length = q.items.length)
    (hperm : ¬ (shownIds cs).Perm (Item.keyIds q.items)) (temporary : Bool) (m : ExprId) :
    ∃ earlier c later, cs = earlier ++ c :: later ∧
      Fits (Item.keyIds q.items) (shownIds earlier) ∧
      (c.shown.id ∈ Item.keyIds q.items → c.shown.id ∈ shownIds earlier) ∧
      ((of name q.sql q.items cs temporary).run.run m).1 =
        .error (refusal name (Item.keyIds q.items) c.exposure) := by
  have hlengths : (shownIds cs).length = (Item.keyIds q.items).length := by
    rw [shownIds, Item.keyIds, List.length_map, List.length_map, hlength]
  have hfits : ¬ Fits (Item.keyIds q.items) (shownIds cs) :=
    mt (fits_iff_perm hkeys hlengths).mp hperm
  obtain ⟨earlier, c, later, hsplit, hearlier, hfirst, herror⟩ :=
    foldlM_place_refused name hkeys hfits
  refine ⟨earlier, c, later, hsplit, hearlier, hfirst, ?_⟩
  have harrange : arrange name q.items cs =
      .error (refusal name (Item.keyIds q.items) c.exposure) := by
    rw [arrange]
    show (cs.foldlM (place name) (placed q.items []) >>= _) = _
    rw [herror]
    rfl
  rw [run_of_arrange hcs hslots hlength, harrange]
  rfl

/-- Placeholders are refused before all else. -/
theorem run_of_slots (hslots : q.sql.slots ≠ []) (temporary : Bool) (m : ExprId) :
    ((of name q.sql q.items cs temporary).run.run m).1 =
      .error (.unexpectedBindArgument .view name.name q.sql.text) := by
  rw [of, dif_neg hslots]
  rfl

/-- **Only such a view is made**: nothing is to be bound, and its columns show
a permutation of the keys. -/
theorem eq_declared_of_run (hkeys : (Item.keyIds q.items).Nodup) (hcs : cs ≠ [])
    {temporary : Bool} {m : ExprId} {v : View}
    (hv : ((of name q.sql q.items cs temporary).run.run m).1 = .ok v) :
    (shownIds cs).Perm (Item.keyIds q.items) ∧ ∃ hslots : q.sql.slots = [],
      v = declared name q.sql (arranged q.items cs) temporary hslots := by
  by_cases hslots : q.sql.slots = []
  · by_cases hlength : cs.length = q.items.length
    · by_cases hperm : (shownIds cs).Perm (Item.keyIds q.items)
      · rw [run_of_perm hkeys hcs hslots hperm] at hv
        exact ⟨hperm, hslots, (Except.ok.inj hv).symm⟩
      · obtain ⟨earlier, c, later, -, -, -, hrefused⟩ :=
          run_of_not_perm hkeys hcs hslots hlength hperm temporary m
        cases hrefused.symm.trans hv
    · cases (run_of_count hcs hslots hlength temporary m).symm.trans hv
  · cases (run_of_slots hslots temporary m).symm.trans hv

end

/-- **Declared columns follow their sources**, for every query and every way
to declare columns of a view of it. -/
theorem followsSources (source : Source) (items : List Item) (clauses : List SelectClause)
    {name : Identifier} {xs : List Exposure} {cs : List ViewColumn} {n : ExprId} (hxs : xs ≠ [])
    (h : ViewColumn.Declared name xs cs n) (temporary : Bool) (m : ExprId) :
    let q := clauses.foldl Select.refine (Select.of source items)
    FollowsSources name q xs temporary ((of name q.sql q.items cs temporary).run.run m).1 := by
  intro q
  have hkeys : (Item.keyIds q.items).Nodup := by
    rw [(Select.foldl_refine clauses _).1]
    exact (nodup_distinctItems [] _).1
  have hids := h.shownIds_eq
  have hlength : cs.length = xs.length := by rw [← h.exposures, List.length_map]
  have hcs : cs ≠ [] := fun hnil => hxs (by rw [← h.exposures, hnil]; rfl)
  constructor
  case ok_iff =>
    constructor
    · rintro ⟨v, hv⟩
      obtain ⟨hperm, hslots, -⟩ := eq_declared_of_run hkeys hcs hv
      exact ⟨hslots, hids ▸ hperm⟩
    · rintro ⟨hslots, hperm⟩
      exact ⟨_, run_of_perm hkeys hcs hslots (hids ▸ hperm) temporary m⟩
  case shows =>
    intro v hv
    obtain ⟨hperm, hslots, rfl⟩ := eq_declared_of_run hkeys hcs hv
    exact ⟨_, shows_declared hkeys h hslots temporary (hids ▸ hperm)⟩
  case reordered =>
    intro v hv ys ds l k hys hds
    obtain ⟨hperm, hslots, rfl⟩ := eq_declared_of_run hkeys hcs hv
    have hpermYs : (shownIds ds).Perm (Item.keyIds q.items) := by
      rw [hds.shownIds_eq]
      exact (hys.map fun x => x.shown.id).trans (hids ▸ hperm)
    have hds' : ds ≠ [] := by
      rintro rfl
      exact hxs (hds.exposures ▸ hys).symm.eq_nil
    refine ⟨_, run_of_perm hkeys hds' hslots hpermYs temporary k, fun connection => ?_⟩
    -- the two views differ only in their columns, and the statement shows their names
    rw [sql, sql, declared, declared, names_arranged hkeys h hds hys hperm hpermYs]
  case placeholders => exact fun hslots => run_of_slots hslots temporary m
  case count =>
    intro hslots hcount
    rw [← hlength] at hcount ⊢
    exact run_of_count hcs hslots hcount temporary m
  case misplaced =>
    intro hslots hcount hperm
    obtain ⟨earlier, c, later, rfl, ⟨hdistinct, hselected⟩, hfirst, hrefused⟩ :=
      run_of_not_perm hkeys hcs hslots (hlength.trans hcount) (hids ▸ hperm) temporary m
    -- columns are told back as what was said of them
    refine ⟨earlier.map ViewColumn.exposure, c.exposure, later.map ViewColumn.exposure,
      ?_, ?_, ?_, ?_⟩
    · rw [← h.exposures, List.map_append, List.map_cons]
    · rw [List.map_map]
      exact hdistinct
    · intro y hy
      obtain ⟨d, hd, rfl⟩ := List.mem_map.mp hy
      exact List.mem_map.mp (hselected _ (List.mem_map_of_mem hd))
    · rw [hrefused, refusal]
      by_cases hkey : c.exposure.shown.id ∈ Item.keyIds q.items
      · rw [if_pos hkey]
        obtain ⟨d, hd, hdid⟩ := List.mem_map.mp (hfirst hkey)
        exact .inr ⟨List.mem_map.mp hkey, ⟨_, List.mem_map_of_mem hd, hdid⟩, rfl⟩
      · rw [if_neg hkey]
        exact .inl ⟨fun i hi hid => hkey (List.mem_map.mpr ⟨i, hi, hid⟩), rfl⟩

/-- A column that is selected twice, once more under a name, and a view that
names the last item first. -/
theorem followsSources_reversed : ∃ (source : Source) (items : List Item) (xs : List Exposure)
    (cs : List ViewColumn) (n : ExprId) (v : View),
    let q := Select.of source items
    items.length = 3 ∧ xs ≠ [] ∧ ViewColumn.Declared ⟨"V"⟩ xs cs n ∧
      ((of ⟨"V"⟩ q.sql q.items cs false).run.run n).1 = .ok v ∧
      v.declared? = some [⟨"First"⟩, ⟨"Last"⟩] ∧ FollowsSources ⟨"V"⟩ q xs false (.ok v) := by
  let year : Expr :=
    { id := 0, term := .column ⟨"Album"⟩ ⟨"Year"⟩, offered := .long, codec := .long }
  let named : NamedExpr := ((year.as ⟨"y"⟩).run 1).1
  let source : Source := { tree := .named ⟨"Album"⟩, items := [.plain year] }
  let items : List Item := [.plain year, .named named, .plain year]
  let last : Exposure := ⟨"Last", named.reference⟩
  let first : Exposure := ⟨"First", year⟩
  let column : Exposure → ExprId → ViewColumn := fun x m =>
    ((ViewColumn.of ⟨"V"⟩ x.name x.shown).run m).1
  have h : ViewColumn.Declared ⟨"V"⟩ [last, first] [column last 2, column first 3] 4 :=
    ((ViewColumn.Declared.none 2).more last (Nat.le_refl 2)).more first (Nat.le_refl 3)
  have hfollows := followsSources source items [] (List.cons_ne_nil last [first]) h false 4
  have hslots : (Select.of source items).sql.slots = [] := by decide +kernel
  have hperm : ([last, first].map fun x => x.shown.id).Perm
      ((Select.of source items).items.map fun i => i.key.id) := List.Perm.swap 0 1 []
  obtain ⟨v, hv⟩ := hfollows.ok_iff.mpr ⟨hslots, hperm⟩
  have hkeys : (Item.keyIds (Select.of source items).items).Nodup :=
    (nodup_distinctItems [] items).1
  obtain ⟨-, hslots, rfl⟩ := eq_declared_of_run hkeys (List.cons_ne_nil _ _) hv
  exact ⟨source, items, [last, first], _, 4, _, rfl, List.cons_ne_nil _ _, h, hv, rfl,
    hv ▸ hfollows⟩

end View

end TypedSql

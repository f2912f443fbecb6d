import TypedSql.Proofs.Codec.Recoverable
import TypedSql.Proofs.Schema.Identities
import TypedSql.Proofs.Statement.Placeholders

/-!
# Values are bound where their columns are named

A statement that adds a row names columns and has a placeholder for each. The
columns are named in the order of their first assignment, however often they
are assigned after that (`Table.Distinct.assigned`), and this is the order of
the placeholders. So the place of a column among the names is the place
where its value has to be bound, and a program that binds every value there,
in any order and any number of times, gets one argument for each column
(`Table.Distinct.bound`).
-/

namespace TypedSql

/-- **The columns of a table.** -/
abbrev Table.OwnColumn (t : Table) : Type := { c : Column // c ∈ t.columns }

/-- The placeholder for a column, with its name. -/
def Column.entry (c : Column) : Identifier × Term := (c.name, .slot c.codec)

namespace Table

/-- **Assigns a placeholder** to columns of a table, one after the other. -/
def assign (t : Table) (columns : List t.OwnColumn) (a : Assignments) : Assignments :=
  columns.foldl (fun a c => a.set c.val .slot) a

/-- Placeholders for columns of a table. -/
def entries {t : Table} (columns : List t.OwnColumn) : List (Identifier × Term) :=
  columns.map fun c => c.val.entry

end Table

/-- **The places of a statement on the way**, those of the columns that have
been supplied filled with their values. -/
structure Bindings.Filled {t : Table} (b : Bindings) (order : List t.OwnColumn)
    (value : (c : t.OwnColumn) → c.val.codec.Value) (supplied : List t.OwnColumn) : Prop where
  /-- There is a place for each column. -/
  length : b.slots.length = order.length
  /-- It has the codec of the column. -/
  codec : ∀ (i : Nat) (c : t.OwnColumn), order[i]? = some c →
    ∃ a?, b.slots[i]? = some (c.val.codec, a?)
  /-- It is filled with the value of the column. -/
  argument : ∀ (i : Nat) (c : t.OwnColumn), order[i]? = some c → c ∈ supplied →
    b.slots[i]? = some (c.val.codec, some (c.val.codec.encode (value c)))

namespace Insert

/-- **The place of a column** among the names of a statement. -/
def place (s : Insert) (c : Column) : Nat := (s.entries.map Prod.fst).idxOf c.name

/-- **A caller that supplies the values of columns**, one after the other, each
at the place of its column. -/
def supply {t : Table} (s : Insert) (value : (c : t.OwnColumn) → c.val.codec.Value)
    (columns : List t.OwnColumn) : Binder := fun b =>
  columns.foldlM (fun b c => b.set (s.place c.val) (c.val.codec.supply (value c))) b

end Insert

namespace Table.Distinct

variable {t : Table} (ht : t.Distinct)

include ht

theorem eq_of_name_eq {c d : t.OwnColumn} (h : c.val.name = d.val.name) : c = d :=
  Subtype.ext (List.inj_on_of_nodup_map ht.names c.property d.property h)

theorem eq_of_id_eq {c d : t.OwnColumn} (h : c.val.id = d.val.id) : c = d :=
  Subtype.ext (List.inj_on_of_nodup_map ht.ids c.property d.property h)

/-! ## Assignments

Columns of one table are told apart by their names, so that assigning a
placeholder for one of them is a matter of the list of columns alone: it is in
the list already, or it comes last. -/

/-- A placeholder that is assigned again stays where it is. -/
theorem put_of_mem {order : List t.OwnColumn} {c : t.OwnColumn} (hc : c ∈ order) :
    Assignments.put c.val.name (.slot c.val.codec) (entries order)
      = entries order := by
  induction order with
  | nil => cases hc
  | cons d ds ih =>
    rw [entries, List.map_cons, Assignments.put]
    by_cases hname : d.val.entry.1 = c.val.name
    · rw [if_pos hname]
      obtain rfl := ht.eq_of_name_eq hname
      rfl
    · have hrest : c ∈ ds := (List.mem_cons.mp hc).resolve_left fun heq => hname (heq ▸ rfl)
      rw [if_neg hname, ← entries, ih hrest]

/-- A new one comes last. -/
theorem put_of_notMem {order : List t.OwnColumn} {c : t.OwnColumn} (hc : c ∉ order) :
    Assignments.put c.val.name (.slot c.val.codec) (entries order)
      = entries (order ++ [c]) := by
  induction order with
  | nil => rfl
  | cons d ds ih =>
    have hname : d.val.entry.1 ≠ c.val.name := fun heq =>
      hc (ht.eq_of_name_eq heq ▸ List.mem_cons_self)
    rw [entries, List.map_cons, Assignments.put, if_neg hname, ← entries,
      ih fun hmem => hc (List.mem_cons_of_mem d hmem)]
    rfl

/-- **The columns that are assigned** are named once each. -/
theorem assigned (columns : List t.OwnColumn) : ∃ order : List t.OwnColumn, order.Nodup ∧
    (∀ c, c ∈ order ↔ c ∈ columns) ∧
    t.assign columns { table := t.name } = { table := t.name, entries := entries order } := by
  -- the columns that are there already grow in the induction, so they are named
  suffices hrun : ∀ before : List t.OwnColumn, before.Nodup → ∃ order : List t.OwnColumn,
      order.Nodup ∧ (∀ c, c ∈ order ↔ c ∈ before ∨ c ∈ columns) ∧
      t.assign columns { table := t.name, entries := entries before }
        = { table := t.name, entries := entries order } by
    obtain ⟨order, hnodup, hmem, hassign⟩ := hrun [] List.nodup_nil
    exact ⟨order, hnodup, fun c => (hmem c).trans (by simp), hassign⟩
  induction columns with
  | nil => exact fun before hnodup => ⟨before, hnodup, fun c => by simp, rfl⟩
  | cons c columns ih =>
    intro before hnodup
    have hown : c.val.table = t.name := ht.own c.val c.property
    rw [assign, List.foldl_cons, Assignments.set, Assignments.assign, if_pos hown, Operand.term]
    by_cases hc : c ∈ before
    · rw [ht.put_of_mem hc]
      obtain ⟨order, hnodup', hmem, hfold⟩ := ih before hnodup
      refine ⟨order, hnodup', fun d => (hmem d).trans ?_, hfold⟩
      rw [List.mem_cons, or_left_comm]
      exact ⟨.inr, fun h => h.elim (fun heq => .inl (heq ▸ hc)) id⟩
    · rw [ht.put_of_notMem hc]
      have hnew : (before ++ [c]).Nodup := List.nodup_append'.mpr
        ⟨hnodup, List.nodup_singleton c, List.disjoint_singleton.mpr hc⟩
      obtain ⟨order, hnodup', hmem, hfold⟩ := ih (before ++ [c]) hnew
      refine ⟨order, hnodup', fun d => (hmem d).trans ?_, hfold⟩
      rw [List.mem_append, List.mem_singleton, List.mem_cons, or_assoc]

/-! ## Places

The place of a column is counted among the names of the statement. As the names
are distinct, a place belongs to one column. -/

section Order

variable {order : List t.OwnColumn} (horder : order.Nodup) {s : Insert}
  (hs : s.entries = entries order)

include horder hs

/-- **The place of a column** is where it was assigned first. -/
theorem place_eq {i : Nat} {c : t.OwnColumn} (hi : order[i]? = some c) : s.place c.val = i := by
  have hnames : s.entries.map Prod.fst = order.map fun c => c.val.name := by
    rw [hs, entries, List.map_map]
    rfl
  have hnodup : (order.map fun c : t.OwnColumn => c.val.name).Nodup :=
    horder.map_on fun c _ d _ => ht.eq_of_name_eq
  obtain ⟨hlt, rfl⟩ := List.getElem?_eq_some_iff.mp hi
  have hlt' : i < (order.map fun c : t.OwnColumn => c.val.name).length := by
    rwa [List.length_map]
  have hplace := hnodup.idxOf_getElem i hlt'
  rw [List.getElem_map] at hplace
  rw [Insert.place, hnames, hplace]

end Order

end Table.Distinct

/-! ## Binding

`Bindings.Filled` is the invariant of a caller that supplies columns one after
the other: the places of those that were supplied hold their values, and of the others no
more is known than the codec. It says nothing about the order of the calls, which
is why any order will do, and a column that is supplied twice fills the same
place with the same value. -/

section Binding

variable {t : Table} {order supplied : List t.OwnColumn}
  {value : (c : t.OwnColumn) → c.val.codec.Value} {b : Bindings}

theorem Bindings.Filled.start (order : List t.OwnColumn)
    (value : (c : t.OwnColumn) → c.val.codec.Value) :
    (Bindings.ofCodecs (order.map fun c => c.val.codec)).Filled order value [] where
  length := by rw [ofCodecs, List.length_map, List.length_map]
  codec i c hi := by
    rw [ofCodecs, List.getElem?_map, List.getElem?_map, hi]
    exact ⟨none, rfl⟩
  argument _ _ _ := nofun

/-- One more place is filled. -/
theorem Bindings.Filled.set (hb : b.Filled order value supplied) (horder : order.Nodup) {j : Nat}
    {c : t.OwnColumn} (hj : order[j]? = some c) :
    Filled ⟨b.slots.set j (c.val.codec, some (c.val.codec.encode (value c)))⟩ order value
      (c :: supplied) := by
  obtain ⟨hlt, -⟩ := List.getElem?_eq_some_iff.mp hj
  have hlt' : j < b.slots.length := hb.length.symm ▸ hlt
  -- the place of another column is another place
  have hplace : ∀ (i : Nat) (d : t.OwnColumn), order[i]? = some d →
      (i = j ∧ d = c ∨ i ≠ j ∧ d ≠ c) := by
    intro i d hi
    by_cases heq : i = j
    · exact .inl ⟨heq, Option.some.inj (hi.symm.trans (heq ▸ hj))⟩
    · refine .inr ⟨heq, fun hd => heq ((List.getElem?_inj ?_ horder).mp ?_)⟩
      · exact (List.getElem?_eq_some_iff.mp hi).1
      · rw [hi, hj, hd]
  refine ⟨by rw [List.length_set]; exact hb.length, fun i d hi => ?_, fun i d hi hd => ?_⟩
  · obtain ⟨rfl, rfl⟩ | ⟨hne, -⟩ := hplace i d hi
    · exact ⟨_, List.getElem?_set_self hlt'⟩
    · rw [List.getElem?_set_ne hne.symm]
      exact hb.codec i d hi
  · obtain ⟨rfl, rfl⟩ | ⟨hne, hother⟩ := hplace i d hi
    · exact List.getElem?_set_self hlt'
    · rw [List.getElem?_set_ne hne.symm]
      exact hb.argument i d hi ((List.mem_cons.mp hd).resolve_left hother)

/-- **All places are filled** when all columns have been supplied. -/
theorem Bindings.Filled.arguments? (hb : b.Filled order value supplied)
    (hall : ∀ c ∈ order, c ∈ supplied) :
    b.arguments? = .ok (order.map fun c => c.val.codec.encode (value c)) := by
  -- every place is filled, so that reading them stops at none
  have hslots : b.slots =
      order.map fun c => (c.val.codec, some (c.val.codec.encode (value c))) := by
    refine List.ext_getElem? fun i => ?_
    rw [List.getElem?_map]
    cases hi : order[i]? with
    | some c => exact hb.argument i c hi (hall c (List.mem_of_getElem? hi))
    | none =>
      rw [Option.map_none, List.getElem?_eq_none_iff, hb.length]
      exact List.getElem?_eq_none_iff.mp hi
  have hfrom : ∀ (columns : List t.OwnColumn) (index : Nat), argumentsFrom index
      (columns.map fun c => (c.val.codec, some (c.val.codec.encode (value c)))) =
      .ok (columns.map fun c => c.val.codec.encode (value c)) := by
    intro columns
    induction columns with
    | nil => exact fun _ => rfl
    | cons c columns ih =>
      intro index
      rw [List.map_cons, argumentsFrom, ih]
      rfl
  rw [Bindings.arguments?, hslots, hfrom]

end Binding

namespace Table.Distinct

variable {t : Table} (ht : t.Distinct) {order : List t.OwnColumn} (horder : order.Nodup)
  {s : Insert} (hs : s.entries = entries order) {value : (c : t.OwnColumn) → c.val.codec.Value}
  (hvalue : ∀ c : t.OwnColumn, c.val.codec.Recoverable (value c))

include ht horder hs hvalue

/-- A caller that supplies columns fills their places. -/
theorem filled_supply {columns : List t.OwnColumn} (hcolumns : ∀ c ∈ columns, c ∈ order)
    {supplied : List t.OwnColumn} {b : Bindings} (hb : b.Filled order value supplied) :
    ∃ b', s.supply value columns b = .ok b' ∧
      b'.Filled order value (columns.reverse ++ supplied) := by
  induction columns generalizing supplied b with
  | nil => exact ⟨b, rfl, hb⟩
  | cons c columns ih =>
    obtain ⟨j, hj⟩ := List.mem_iff_getElem?.mp (hcolumns c List.mem_cons_self)
    obtain ⟨a?, hslot⟩ := hb.codec j c hj
    have hset : b.set (s.place c.val) (c.val.codec.supply (value c)) =
        .ok ⟨b.slots.set j (c.val.codec, some (c.val.codec.encode (value c)))⟩ := by
      rw [ht.place_eq horder hs hj, Bindings.set, hslot]
      simp only [Codec.bind_supply (hvalue c)]
    obtain ⟨b', hsupply, hfilled⟩ :=
      ih (fun d hd => hcolumns d (List.mem_cons_of_mem c hd)) (hb.set horder hj)
    refine ⟨b', ?_, ?_⟩
    · rw [Insert.supply, List.foldlM_cons, hset]
      exact hsupply
    · rwa [List.reverse_cons, List.append_assoc]

/-- **A caller that supplies every column** gets one argument for each, in the
order of their names. -/
theorem bound {columns : List t.OwnColumn} (hcolumns : ∀ c, c ∈ columns ↔ c ∈ order) :
    s.sql.bind (s.supply value columns) =
      .ok (order.map fun c => c.val.codec.encode (value c)) := by
  have hslots : s.sql.slots = order.map fun c => c.val.codec := by
    have hbinds : s.sql.slots = s.entries.flatMap fun e => e.2.binds :=
      (Statement.insert s).slots_sql
    rw [hbinds, hs, entries, List.flatMap_map]
    exact List.flatMap_pure_eq_map (fun c => c.val.codec) order
  obtain ⟨b, hsupply, hfilled⟩ := ht.filled_supply horder hs hvalue
    (fun c hc => (hcolumns c).mp hc) (.start order value)
  rw [Sql.bind, hslots, hsupply]
  exact hfilled.arguments? fun c hc => by simpa using (hcolumns c).mpr hc

end Table.Distinct

end TypedSql

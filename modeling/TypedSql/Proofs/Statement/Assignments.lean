import Mathlib.Data.List.Induction
import Mathlib.Data.List.Nodup
import TypedSql.Proofs.Steps
import TypedSql.Statement.Change

/-!
# Assignments one after the other

What a statement assigns after any number of values for columns, own ones and
foreign ones. A column of the table stands among the entries under its name
with the value that it was given last, once however often it was given one; a
column of another table leaves the entries alone, and the first such column is
what `Assignments.finish?` refuses (`Assignments.made`).

A column is one of the table if it has the table's name. Nothing else about
the two is compared.
-/

namespace TypedSql

/-- **A value for a column**, of the codec of the column. -/
structure Assignment where
  /-- The column. -/
  column : Column
  /-- What it is given. -/
  value : Operand column.codec

namespace Assignment

/-- The entry that an assignment makes. -/
def entry (x : Assignment) : Identifier × Term := (x.column.name, x.value.term)

/-- Whether an assignment is to a column of a table of the given name. -/
def Into (table : Identifier) (x : Assignment) : Prop := x.column.table = table

instance (table : Identifier) : DecidablePred (Into table) :=
  fun x => inferInstanceAs (Decidable (x.column.table = table))

/-- What is recorded for a column of another table. -/
def fault (table : Identifier) (x : Assignment) : ConstructionError :=
  .foreignColumnAssignment table.name x.column.qualifiedName

/-- **The entry that values leave**: that of the last value for a column of
the table and the name. -/
def Leaves (table : Identifier) (values : List Assignment) (e : Identifier × Term) : Prop :=
  ∃ earlier x later, values = earlier ++ x :: later ∧ x.Into table ∧ x.entry = e ∧
    ∀ y ∈ later, y.Into table → y.column.name ≠ x.column.name

end Assignment

namespace Assignments

/-- Assigns values to columns, one after the other. -/
def setAll (a : Assignments) (values : List Assignment) : Assignments :=
  values.foldl (fun a x => a.set x.column x.value) a

/-! ## Entries

A write to a list of pairs under a name that occurs once at most: it replaces
that pair or adds one, and it leaves every other name alone. -/

variable {name : Identifier} {value : Term} {entries : List (Identifier × Term)}

/-- The names after a new value for one of them. -/
theorem mem_names_put {other : Identifier} :
    other ∈ (put name value entries).map Prod.fst ↔
      other = name ∨ other ∈ entries.map Prod.fst := by
  induction entries with
  | nil => rw [put, List.map_singleton, List.mem_singleton, List.map_nil, or_iff_left List.not_mem_nil]
  | cons entry entries ih =>
    rw [put]
    split
    · next hname =>
      rw [List.map_cons, List.mem_cons, List.map_cons, List.mem_cons, hname, or_self_left]
    · rw [List.map_cons, List.mem_cons, ih, List.map_cons, List.mem_cons, or_left_comm]

/-- A name stands there once. -/
theorem nodup_names_put (h : (entries.map Prod.fst).Nodup) :
    ((put name value entries).map Prod.fst).Nodup := by
  induction entries with
  | nil => exact List.nodup_singleton name
  | cons entry entries ih =>
    obtain ⟨hnew, hrest⟩ := List.nodup_cons.mp h
    rw [put]
    split
    · next hname => exact List.nodup_cons.mpr ⟨hname ▸ hnew, hrest⟩
    · next hname =>
      refine List.nodup_cons.mpr ⟨fun hmem => ?_, ih hrest⟩
      exact (mem_names_put.mp hmem).elim hname hnew

/-- **The entries after a new value**: the new one, and those of other
names. -/
theorem mem_put (h : (entries.map Prod.fst).Nodup) {e : Identifier × Term} :
    e ∈ put name value entries ↔ e = (name, value) ∨ e.1 ≠ name ∧ e ∈ entries := by
  induction entries with
  | nil => rw [put, List.mem_singleton, and_iff_right_of_imp nofun, or_iff_left List.not_mem_nil]
  | cons entry entries ih =>
    obtain ⟨hnew, hrest⟩ := List.nodup_cons.mp h
    rw [put]
    split
    · next hname =>
      -- the entry that gives way is the only one of its name
      have hother : e ∈ entries → e.1 ≠ name := fun hmem heq =>
        hnew (List.mem_map.mpr ⟨e, hmem, heq.trans hname.symm⟩)
      rw [List.mem_cons, List.mem_cons]
      refine or_congr_right ⟨fun hmem => ⟨hother hmem, .inr hmem⟩, fun ⟨hne, hmem⟩ => ?_⟩
      exact hmem.resolve_left fun heq => hne (heq ▸ hname)
    · next hname =>
      rw [List.mem_cons, ih hrest, List.mem_cons]
      constructor
      · rintro (rfl | heq | ⟨hne, hmem⟩)
        · exact .inr ⟨hname, .inl rfl⟩
        · exact .inl heq
        · exact .inr ⟨hne, .inr hmem⟩
      · rintro (heq | ⟨hne, heq | hmem⟩)
        · exact .inr (.inl heq)
        · exact .inl heq
        · exact .inr (.inr ⟨hne, hmem⟩)

/-! ## Values

What a run of values leaves is decided by the last of them that counts
(`LastIn`), and one value more either counts itself or leaves that to those
before it. The first value for a column of another table is only recorded, and
the run goes on behind it. -/

/-- **What values come to** that are assigned one after the other. -/
structure Made (table : Identifier) (values : List Assignment) (a : Assignments) : Prop where
  /-- It is the same table. -/
  table_eq : a.table = table
  /-- A name stands there once. -/
  nodup : (a.entries.map Prod.fst).Nodup
  /-- The entries are those that the values leave. -/
  mem_entries : ∀ e, e ∈ a.entries ↔ Assignment.Leaves table values e
  /-- The first column of another table is recorded. -/
  error_eq : a.error? =
    (values.find? fun x => ¬ x.Into table).map (Assignment.fault table)

/-- What values leave in an entry is what the last of them left that is for a
column of the table and the name. -/
theorem leaves_iff_lastIn {table : Identifier} {values : List Assignment}
    {e : Identifier × Term} : Assignment.Leaves table values e ↔
      LastIn (fun x => x.Into table ∧ x.entry = e)
        (fun x => x.Into table → x.column.name ≠ e.1) values := by
  refine exists_congr fun earlier => exists_congr fun x => exists_congr fun later =>
    and_congr_right fun _ => ?_
  rw [and_assoc]
  refine and_congr_right fun _ => and_congr_right fun hentry => ?_
  rw [← hentry]
  rfl

/-- **What one value more leaves.** -/
theorem leaves_concat {table : Identifier} {values : List Assignment} {x : Assignment}
    {e : Identifier × Term} : Assignment.Leaves table (values ++ [x]) e ↔
      x.Into table ∧ x.entry = e ∨
        (x.Into table → x.column.name ≠ e.1) ∧ Assignment.Leaves table values e := by
  rw [leaves_iff_lastIn, lastIn_concat, ← leaves_iff_lastIn]

/-- One value more. -/
theorem Made.set {table : Identifier} {values : List Assignment} {a : Assignments}
    (h : a.Made table values) (x : Assignment) :
    (a.set x.column x.value).Made table (values ++ [x]) := by
  rw [Assignments.set, assign, h.table_eq]
  -- a column of another table leaves the entries alone and may be the first such column
  by_cases hinto : x.Into table
  · have hnone : [x].find? (fun x => ¬ x.Into table) = none :=
      List.find?_singleton.trans (if_neg (by simpa using hinto))
    have hnew : ∀ e, (x.column.name, x.value.term) = e ↔ x.Into table ∧ x.entry = e :=
      fun e => (and_iff_right hinto).symm
    rw [if_pos (show x.column.table = table from hinto)]
    refine ⟨rfl, nodup_names_put h.nodup, fun e => ?_, ?_⟩
    · rw [mem_put h.nodup, h.mem_entries, leaves_concat, ← hnew, imp_iff_right hinto,
        eq_comm (a := e), ne_comm]
    · rw [List.find?_append, hnone, Option.or_none, ← h.error_eq]
  · have hsome : [x].find? (fun x => ¬ x.Into table) = some x :=
      List.find?_singleton.trans (if_pos (by simpa using hinto))
    rw [if_neg (show ¬ x.column.table = table from hinto)]
    refine ⟨rfl, h.nodup, fun e => ?_, ?_⟩
    · rw [h.mem_entries, leaves_concat]
      exact ⟨fun hleft => .inr ⟨fun hx => absurd hx hinto, hleft⟩,
        fun hleft => hleft.elim (fun hx => absurd hx.1 hinto) And.right⟩
    · rw [List.find?_append, hsome, Option.map_or, ← h.error_eq]
      rfl

/-- A name is left in an entry if a column of the table has it. -/
theorem exists_leaves {table : Identifier} {values : List Assignment} :
    (∃ e, Assignment.Leaves table values e ∧ e.1 = name) ↔
      ∃ x ∈ values, x.Into table ∧ x.column.name = name := by
  constructor
  · rintro ⟨e, ⟨earlier, x, later, rfl, hinto, rfl, -⟩, hname⟩
    exact ⟨x, List.mem_append_right earlier List.mem_cons_self, hinto, hname⟩
  · rintro ⟨x, hx, hinto, hname⟩
    induction values using List.reverseRecOn with
    | nil => cases hx
    | append_singleton values last ih =>
      by_cases hlast : last.Into table ∧ last.column.name = name
      · exact ⟨last.entry, leaves_concat.mpr (.inl ⟨hlast.1, rfl⟩), hlast.2⟩
      · have hbefore : x ∈ values := (List.mem_append.mp hx).resolve_right fun heq =>
          hlast (List.mem_singleton.mp heq ▸ ⟨hinto, hname⟩)
        obtain ⟨e, hleaves, rfl⟩ := ih hbefore
        exact ⟨e, leaves_concat.mpr (.inr ⟨fun hown heq => hlast ⟨hown, heq⟩, hleaves⟩), rfl⟩

/-- **Values assigned one after the other.** -/
theorem made (table : Identifier) (values : List Assignment) :
    (setAll { table } values).Made table values := by
  induction values using List.reverseRecOn with
  | nil =>
    refine ⟨rfl, List.nodup_nil, fun e => ⟨nofun, fun h => ?_⟩, rfl⟩
    exact absurd (leaves_iff_lastIn.mp h) not_lastIn_nil
  | append_singleton values x ih =>
    rw [setAll, List.foldl_append]
    exact ih.set x

end Assignments

end TypedSql

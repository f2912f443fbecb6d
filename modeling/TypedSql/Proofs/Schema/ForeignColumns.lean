import TypedSql.Proofs.Schema.Builder
import TypedSql.Proofs.Schema.RowReferences
import TypedSql.Proofs.Statement.Assignments

/-!
# Columns of other tables are refused

Six calls name columns as those of a table: a key and an index of it, a
statement that adds or changes rows, the columns behind `UPDATE OF`, and a
reference to the row of a trigger. Each looks at them in its own way – a key
one after the other, an index all at once, assignments when they are made into
a statement, a trigger when its body is opened – and they come to the same:
the first column of another table is refused with the fault that is the
call's own, and without one the names of the columns are listed (`Lists`).

All six tell a column of another table by the name of the table alone.
-/

namespace TypedSql

/-- **The first column of another table**, if there is one. -/
def foreignAmong? (table : Identifier) (columns : List Column) : Option Column :=
  columns.find? fun c => ¬ c.table = table

/-- **What naming columns comes to**, for those of a table. -/
inductive Lists (table : Identifier) (fault : Column → ConstructionError) (columns : List Column) :
    Except ConstructionError (List Identifier) → Prop
  /-- The first column of another table is refused. -/
  | refused {c : Column} : foreignAmong? table columns = some c →
    Lists table fault columns (.error (fault c))
  /-- There is none, and the names of the columns are listed. -/
  | listed {names : List Identifier} : foreignAmong? table columns = none →
    (∀ name, name ∈ names ↔ ∃ c ∈ columns, c.name = name) → Lists table fault columns (.ok names)

section ForeignAmong

variable {table : Identifier} {c : Column} {columns : List Column}

theorem foreignAmong?_eq_none_iff :
    foreignAmong? table columns = none ↔ ∀ c ∈ columns, c.table = table := by
  rw [foreignAmong?, List.find?_eq_none]
  simp

theorem foreignAmong?_cons_of_own (h : c.table = table) :
    foreignAmong? table (c :: columns) = foreignAmong? table columns :=
  List.find?_cons_of_neg (by simpa using h)

theorem foreignAmong?_cons_of_ne (h : c.table ≠ table) :
    foreignAmong? table (c :: columns) = some c :=
  List.find?_cons_of_pos (by simpa using h)

theorem Lists.of_own {fault : Column → ConstructionError}
    (h : foreignAmong? table columns = none) :
    Lists table fault columns (.ok (columns.map Column.name)) :=
  .listed h fun _ => List.mem_map

end ForeignAmong

/-- What a table says of a column of another one. -/
def Identifier.foreign (table : Identifier) (c : Column) : ConstructionError :=
  .foreignColumn table.name c.qualifiedName

/-- What assignments say of a column of another table. -/
def Identifier.foreignAssigned (table : Identifier) (c : Column) : ConstructionError :=
  .foreignColumnAssignment table.name c.qualifiedName

/-- What the body of a trigger says of a column of another table. -/
def TriggerDraft.foreign (d : TriggerDraft) (scope : RowScope) (c : Column) : ConstructionError :=
  d.unreferable scope c (.otherTable c.table.name d.head.table.name.name)

/-! ## Keys and indices

An index looks up all of its columns before it does anything else. A key looks
them up one after the other and asks of each whether it has come before, so a
column that is named twice may be reported in front of one of another table.
This is why the key is asked for columns without a name twice among them. -/

namespace TableBuilder

/-- **The names in a key**, if a builder takes it. -/
def keyNames (b : TableBuilder) (n : ExprId) (columns : List Column) :
    Except ConstructionError (List Identifier) :=
  let (result, b', _) := TableCall.call (b, n) (.primaryKey columns)
  result.map fun _ => b'.compositeKey.map Column.name

/-- **The names in an index**, if a builder takes it. -/
def indexNames (b : TableBuilder) (n : ExprId) (name? : Option String) (columns : List Column)
    (unique : Bool) : Except ConstructionError (List Identifier) :=
  let (result, b', _) := TableCall.call (b, n) (.index name? columns unique)
  result.map fun _ => (b'.indices.getLast?.map IndexSpec.columns).getD []

end TableBuilder

namespace TableDraft

variable {d : TableDraft} {columns : List Column}

theorem ownColumn_of_ne {c : Column} (h : c.table ≠ d.name) :
    d.ownColumn c = .error (d.name.foreign c) := if_neg h

/-- **Columns that are looked at all at once.** -/
theorem mapM_ownColumn (d : TableDraft) (columns : List Column) :
    columns.mapM d.ownColumn =
      match foreignAmong? d.name columns with
      | none => .ok columns
      | some c => .error (d.name.foreign c) := by
  induction columns with
  | nil => rfl
  | cons c columns ih =>
    rw [List.mapM_cons]
    by_cases hown : c.table = d.name
    · rw [foreignAmong?_cons_of_own hown, ownColumn_eq_ok_iff.mpr ⟨rfl, hown⟩, ih]
      cases foreignAmong? d.name columns <;> rfl
    · rw [foreignAmong?_cons_of_ne hown, ownColumn_of_ne hown]
      rfl

/-- **Columns that are looked at one after the other**, with no name among them
twice. -/
theorem readKey_eq {key : List Column}
    (h : (key.map Column.name ++ columns.map Column.name).Nodup) :
    d.readKey key columns =
      match foreignAmong? d.name columns with
      | none => .ok (key ++ columns)
      | some c => .error (d.name.foreign c) := by
  induction columns generalizing key with
  | nil =>
    rw [List.append_nil]
    rfl
  | cons c columns ih =>
    rw [readKey]
    by_cases hown : c.table = d.name
    · have hnew : (key.any fun k => k.name == c.name) = false := by
        refine List.any_eq_false.mpr fun k hk heq => ?_
        exact (List.nodup_append'.mp h).2.2 (List.mem_map_of_mem hk)
          (List.mem_cons.mpr (.inl (eq_of_beq heq)))
      have hrest : ((key ++ [c]).map Column.name ++ columns.map Column.name).Nodup := by
        rwa [List.map_append, List.append_assoc]
      rw [foreignAmong?_cons_of_own hown, ownColumn_eq_ok_iff.mpr ⟨rfl, hown⟩]
      simp only [bind, Except.bind, hnew, ih hrest, List.append_assoc]
      rfl
    · rw [foreignAmong?_cons_of_ne hown, ownColumn_of_ne hown]
      rfl

/-- **A key names columns of its table**, if there is none yet and no column is
named twice. -/
theorem lists_key (hkey : d.hasKey = false) (hne : columns ≠ [])
    (hnodup : (columns.map Column.name).Nodup) (n : ExprId) :
    Lists d.name d.name.foreign columns (d.builder.keyNames n columns) := by
  have hread := @readKey_eq d columns [] hnodup
  have hcall := TableCall.call_builder d n (.primaryKey columns)
  have hrun : ((TableCall.primaryKey columns).declare d).run.run n = (d.declareKey columns, n) :=
    rfl
  rw [hrun] at hcall
  cases hforeign : foreignAmong? d.name columns with
  | none =>
    have hdeclare : d.declareKey columns = .ok { d with compositeKey := columns } := by
      rw [hforeign] at hread
      have hempty : columns.isEmpty = false := by simpa using hne
      simp only [declareKey, hkey, hread, bind, Except.bind, List.nil_append, hempty]
      rfl
    rw [hdeclare] at hcall
    rw [TableBuilder.keyNames, hcall]
    exact .of_own hforeign
  | some c =>
    have hdeclare : d.declareKey columns = .error (d.name.foreign c) := by
      rw [hforeign] at hread
      simp only [declareKey, hkey, hread, bind, Except.bind]
      rfl
    rw [hdeclare] at hcall
    rw [TableBuilder.keyNames, hcall]
    exact .refused hforeign

/-- **An index names columns of its table.** -/
theorem lists_index (hne : columns ≠ []) (n : ExprId) (name? : Option String) (unique : Bool) :
    Lists d.name d.name.foreign columns (d.builder.indexNames n name? columns unique) := by
  have hown := d.mapM_ownColumn columns
  have hcall := TableCall.call_builder d n (.index name? columns unique)
  have hrun : ((TableCall.index name? columns unique).declare d).run.run n =
      (d.declareIndex name? columns unique, n) := rfl
  rw [hrun] at hcall
  cases hforeign : foreignAmong? d.name columns with
  | none =>
    have hdeclare : d.declareIndex name? columns unique =
        .ok { d with indices := d.indices ++ [⟨name?, columns.map Column.name, unique⟩] } := by
      rw [hforeign] at hown
      have hempty : columns.isEmpty = false := by simpa using hne
      simp only [declareIndex, hown, bind, Except.bind, hempty]
      rfl
    rw [hdeclare] at hcall
    rw [TableBuilder.indexNames, hcall]
    show Lists _ _ _ (.ok (((d.indices ++ [_]).getLast?.map IndexSpec.columns).getD []))
    rw [List.getLast?_concat]
    exact .of_own hforeign
  | some c =>
    have hdeclare : d.declareIndex name? columns unique = .error (d.name.foreign c) := by
      rw [hforeign] at hown
      simp only [declareIndex, hown, bind, Except.bind]
    rw [hdeclare] at hcall
    rw [TableBuilder.indexNames, hcall]
    exact .refused hforeign

end TableDraft

/-! ## Assignments -/

namespace Assignments

variable {values : List Assignment}

/-- **Assignments name columns of their table.** -/
theorem lists_finish? (table : Identifier) (values : List Assignment) :
    Lists table table.foreignAssigned (values.map Assignment.column)
      ((setAll { table } values).finish?.map fun entries => entries.map Prod.fst) := by
  have hmade := made table values
  have hforeign : foreignAmong? table (values.map Assignment.column) =
      (values.find? fun x => ¬ x.Into table).map Assignment.column := List.find?_map ..
  rw [finish?, hmade.error_eq]
  cases hfind : values.find? fun x => ¬ x.Into table with
  | none =>
    rw [hfind] at hforeign
    refine .listed hforeign fun name => ?_
    have hown := foreignAmong?_eq_none_iff.mp hforeign
    rw [List.mem_map]
    simp only [hmade.mem_entries]
    rw [exists_leaves]
    simp only [List.mem_map, exists_exists_and_eq_and]
    exact exists_congr fun x => and_congr_right fun hx =>
      and_iff_right (hown x.column (List.mem_map_of_mem hx))
  | some x =>
    rw [hfind] at hforeign
    exact .refused hforeign

theorem lists_insert (table : Identifier) (values : List Assignment) (onConflict : OnConflict) :
    Lists table table.foreignAssigned (values.map Assignment.column)
      ((Insert.of? onConflict (setAll { table } values)).map fun s => s.entries.map Prod.fst) := by
  have hlists := lists_finish? table values
  rw [Insert.of?]
  cases hfinish : (setAll { table } values).finish? <;> rw [hfinish] at hlists <;> exact hlists

/-- The names in a statement that changes rows, if it assigns anything. -/
theorem lists_update (table : Identifier) (hne : values ≠ []) (onConflict : OnConflict) :
    Lists table table.foreignAssigned (values.map Assignment.column)
      ((Update.of? onConflict (setAll { table } values)).map fun s => s.entries.map Prod.fst) := by
  have hlists := lists_finish? table values
  rw [Update.of?]
  cases hfinish : (setAll { table } values).finish? with
  | error e =>
    rw [hfinish] at hlists
    exact hlists
  | ok entries =>
    rw [hfinish] at hlists
    have hempty : entries.isEmpty = false := by
      cases hlists with
      | listed _ hnames =>
        obtain ⟨x, hx⟩ := List.exists_mem_of_ne_nil values hne
        obtain ⟨e, he, -⟩ :=
          List.mem_map.mp ((hnames _).mpr ⟨x.column, List.mem_map_of_mem hx, rfl⟩)
        simpa using List.ne_nil_of_mem he
    simp only [bind, Except.bind, hempty]
    exact hlists

end Assignments

/-! ## Triggers

The columns behind `UPDATE OF` are given in parts, and a column of another
table in one of them is noted and not reported. It ends its own part, while
later parts are still read; the first note stays, and it decides when the body
is opened. -/

namespace TriggerHead

/-- Columns are added up to the first of another table, which is noted. -/
theorem addColumns_spec (h : TriggerHead) (columns : List Column) :
    (h.addColumns columns).table = h.table ∧ (h.addColumns columns).event = h.event ∧
      (h.addColumns columns).error? =
        h.error?.or ((foreignAmong? h.table.name columns).map h.table.name.foreign) ∧
      (foreignAmong? h.table.name columns = none →
        (h.addColumns columns).updateOf = h.updateOf ++ columns.map Column.name) := by
  induction columns generalizing h with
  | nil => exact ⟨rfl, rfl, (Option.or_none).symm, fun _ => (List.append_nil _).symm⟩
  | cons c columns ih =>
    rw [addColumns]
    by_cases hown : c.table = h.table.name
    · rw [if_pos hown, foreignAmong?_cons_of_own hown]
      obtain ⟨htable, hevent, herror, hnames⟩ := ih { h with updateOf := h.updateOf ++ [c.name] }
      refine ⟨htable, hevent, herror, fun hnone => (hnames hnone).trans ?_⟩
      rw [List.append_assoc]
      rfl
    · rw [if_neg hown, foreignAmong?_cons_of_ne hown]
      exact ⟨rfl, rfl, rfl, nofun⟩

/-- **The columns behind `UPDATE OF`** are those of the trigger's table, in
however many parts they are given. -/
theorem lists_updateOf {h : TriggerHead} (hevent : h.event = .update) (herror : h.error? = none)
    (hnames : h.updateOf = []) (parts : List (List Column)) :
    Lists h.table.name h.table.name.foreign parts.flatten
      ((Trigger.start (parts.foldl onUpdateOf h)).map fun d => d.head.updateOf) := by
  have hfold : ∀ (parts : List (List Column)) (h : TriggerHead), h.event = .update →
      (parts.foldl onUpdateOf h).error? =
          h.error?.or ((foreignAmong? h.table.name parts.flatten).map h.table.name.foreign) ∧
        (foreignAmong? h.table.name parts.flatten = none →
          (parts.foldl onUpdateOf h).updateOf = h.updateOf ++ parts.flatten.map Column.name) := by
    intro parts
    induction parts with
    | nil => exact fun h _ => ⟨Option.or_none.symm, fun _ => (List.append_nil _).symm⟩
    | cons columns parts ih =>
      intro h hevent
      obtain ⟨htable, hsame, herror, hnames⟩ := h.addColumns_spec columns
      obtain ⟨herrors, hall⟩ := ih (h.addColumns columns) (hsame.trans hevent)
      have hboth : foreignAmong? h.table.name (columns ++ parts.flatten) =
          (foreignAmong? h.table.name columns).or (foreignAmong? h.table.name parts.flatten) :=
        List.find?_append
      rw [List.foldl_cons, onUpdateOf, if_pos hevent, List.flatten_cons, hboth]
      rw [htable] at herrors hall
      refine ⟨by rw [herrors, herror, Option.map_or, Option.or_assoc], fun hnone => ?_⟩
      obtain ⟨hfirst, hrest⟩ := Option.or_eq_none_iff.mp hnone
      rw [hall hrest, hnames hfirst, List.append_assoc, List.map_append]
  obtain ⟨herrors, hall⟩ := hfold parts h hevent
  rw [herror, Option.none_or] at herrors
  rw [Trigger.start, herrors]
  cases hforeign : foreignAmong? h.table.name parts.flatten with
  | none =>
    have hupdateOf := hall hforeign
    rw [hnames, List.nil_append] at hupdateOf
    show Lists _ _ _ (.ok (parts.foldl onUpdateOf h).updateOf)
    rw [hupdateOf]
    exact .of_own hforeign
  | some c => exact .refused hforeign

end TriggerHead

namespace TriggerDraft

/-- **The name in a reference**, if the body hands it out. -/
def referenceNames (d : TriggerDraft) (n : ExprId) (scope : RowScope) (c : Column) :
    Except ConstructionError (List Identifier) :=
  (TriggerCall.call (d, n) (.reference scope c)).1.map fun e? =>
    (e?.map fun e => e.sql.rowColumns.map Prod.snd).getD []

/-- **A reference names a column of the trigger's table**, if there is such a
row. -/
theorem lists_reference {d : TriggerDraft} {scope : RowScope}
    (hrow : scope.existsIn d.head.event = true) (n : ExprId) (c : Column) :
    Lists d.head.table.name (d.foreign scope) [c] (d.referenceNames n scope c) := by
  rw [referenceNames]
  by_cases hown : c.table = d.head.table.name
  · rw [TriggerCall.call_reference hrow hown]
    exact .of_own (foreignAmong?_eq_none_iff.mpr (List.forall_mem_singleton.mpr hown))
  · rw [TriggerCall.call_reference_of_otherTable hrow hown]
    exact .refused (foreignAmong?_cons_of_ne hown)

end TriggerDraft

end TypedSql

import TypedSql.Proofs.Steps
import TypedSql.Schema.Builder
import Mathlib.Data.List.Nodup

/-!
# A builder through every run

A builder that is changed in place does what a draft does that is replaced.
`TableDraft.builder` is the draft with the mark for its key, and
`TableCall.call_builder` says what a call comes to on it: the builder of the
next draft, or, if the draft refuses, the very builder that was there. So no
refusal leaves anything behind, and whatever builder a program comes to is
that of a draft, with the mark where it belongs.

What a declaration can do is said once, by `TableDraft.Declares`. That the
names of the columns are distinct and that there is one primary key at most
(`TableBuilder.Sound`) follows declaration by declaration, and for every
list of calls by induction.
-/

namespace TypedSql

/-! ## Drafts and builders

A draft is a value and a declaration gives the next one. A builder is a state
and a call changes it. That both do the same is not seen from their code, which
is written in two ways, so each operation is run on the builder of a draft and
brought into the form of a branch for each way in which it ends. The mark for
the key is the one thing that a builder has and a draft has not; what keeps it
right is that it is set with the first column that is the key and asked before
a second one is taken. -/

/-- **The builder of a draft**: what a program has in its hands that declared
the same. -/
def TableDraft.builder (d : TableDraft) : TableBuilder where
  name := d.name
  columns := d.columns
  hasColumnKey := d.columns.any Column.isPrimaryKey
  compositeKey := d.compositeKey
  foreignKeys := d.foreignKeys
  indices := d.indices
  checks := d.checks
  withoutRowid := d.withoutRowid

/-- **The declaration of a call**, on a draft. -/
def TableCall.declare (d : TableDraft) : TableCall → ExceptT ConstructionError Fresh TableDraft
  | column name c clauses => do return (← d.declareColumn name c clauses).1
  | primaryKey columns => .mk (pure (d.declareKey columns))
  | index name? columns unique => .mk (pure (d.declareIndex name? columns unique))
  | check name condition => .mk (pure (d.declareCheck name condition))
  | withoutRowid => pure d.declareWithoutRowid

/-- A draft that is finished is the column it stands for. -/
theorem ColumnDraft.eq_column_of_finish? {c : Codec} {draft : ColumnDraft c}
    {column : Column} (h : draft.finish? = .ok column) : column = draft.column := by
  unfold ColumnDraft.finish? at h
  split at h
  · cases h
  · split at h
    · cases h
    · exact (Except.ok.inj h).symm

namespace TableDraft

/-- A column of a name that is taken is refused before it is opened. -/
theorem run_declareColumn_of_taken {d : TableDraft} {name : String}
    (h : d.hasColumn ⟨name⟩ = true) (c : Codec) (clauses : List (ColumnClause c)) (n : ExprId) :
    (d.declareColumn name c clauses).run.run n =
      (.error (.duplicateColumn d.name.name name), n) := by
  simp only [declareColumn, openColumn, h, if_true]
  rfl

/-- A column of a new name is opened and closed. -/
theorem run_declareColumn {d : TableDraft} {name : String} (h : d.hasColumn ⟨name⟩ = false)
    (c : Codec) (clauses : List (ColumnClause c)) (n : ExprId) :
    (d.declareColumn name c clauses).run.run n =
      (d.closeColumn (clauses.foldl ColumnDraft.apply
        { id := n, table := d.name, name := ⟨name⟩ }), n + 1) := by
  simp only [declareColumn, openColumn, h]
  rfl

/-- **A draft with a column more.** -/
def withColumn (d : TableDraft) {c : Codec} (draft : ColumnDraft c) : TableDraft :=
  { d with
    columns := d.columns ++ [draft.column]
    foreignKeys := d.foreignKeys ++ (draft.reference?.map (foreignKey draft.column)).toList
    indices := d.indices ++
      (draft.index?.map fun unique => IndexSpec.mk none [draft.column.name] unique).toList
    checks := d.checks ++ draft.checks }

theorem closeColumn_eq {d : TableDraft} {c : Codec} {draft : ColumnDraft c} {column : Column}
    (h : draft.finish? = .ok column) :
    d.closeColumn draft =
      if column.isPrimaryKey && d.hasKey then .error (.duplicatePrimaryKey d.name.name)
      else .ok (d.withColumn draft, column) := by
  obtain rfl := ColumnDraft.eq_column_of_finish? h
  simp only [closeColumn, h, bind, Except.bind]
  split <;> rfl

/-- A draft that can not be finished is refused for its own reason. -/
theorem closeColumn_of_error {d : TableDraft} {c : Codec} {draft : ColumnDraft c}
    {e : ConstructionError} (h : draft.finish? = .error e) : d.closeColumn draft = .error e := by
  rw [closeColumn, h]
  rfl

end TableDraft

namespace Building

variable {b : TableBuilder} {n : ExprId}

theorem run_builder : builder.run.run (b, n) = (.ok b, b, n) := rfl

theorem run_accept_ok {α : Type} (a : α) (s : TableBuilder × ExprId) :
    (accept (.ok a)).run.run s = (.ok a, s) := rfl

theorem run_accept_error {α : Type} (e : ConstructionError) (s : TableBuilder × ExprId) :
    (accept (.error e : Except ConstructionError α)).run.run s = (.error e, s) := rfl

section RefuseIf

variable {condition : TableBuilder → Bool} {cause : TableBuilder → ConstructionError}

theorem run_refuseIf (h : condition b = true) :
    (refuseIf condition cause).run.run (b, n) = (.error (cause b), b, n) := by
  rw [refuseIf, run_bind_of_ok run_builder, h]
  rfl

theorem run_refuseIf_of_not (h : condition b = false) :
    (refuseIf condition cause).run.run (b, n) = (.ok (), b, n) := by
  rw [refuseIf, run_bind_of_ok run_builder, h]
  rfl

end RefuseIf

/-! ### Columns -/

theorem run_markKey_of_not {column : Column} (h : column.isPrimaryKey = false) :
    (markKey column).run.run (b, n) = (.ok (), b, n) := by
  rw [markKey, h]
  rfl

theorem run_markKey_of_free {column : Column} (h : column.isPrimaryKey = true)
    (hfree : b.hasKey = false) :
    (markKey column).run.run (b, n) = (.ok (), { b with hasColumnKey := true }, n) := by
  rw [markKey, if_pos h, run_bind_of_ok (run_refuseIf_of_not hfree)]
  rfl

theorem run_markKey_of_taken {column : Column} (h : column.isPrimaryKey = true)
    (htaken : b.hasKey = true) :
    (markKey column).run.run (b, n) = (.error (.duplicatePrimaryKey b.name.name), b, n) := by
  rw [markKey, if_pos h, run_bind_of_error (run_refuseIf htaken)]

/-- Closing a column in place. -/
theorem run_closeColumn (d : TableDraft) (n : ExprId) {c : Codec} (draft : ColumnDraft c) :
    (closeColumn draft).run.run (d.builder, n) =
      match d.closeColumn draft with
      | .ok (d', column) => (.ok column, d'.builder, n)
      | .error e => (.error e, d.builder, n) := by
  have hkeys : d.builder.hasKey = d.hasKey := rfl
  cases hfinish : draft.finish? with
  | error e =>
    rw [TableDraft.closeColumn_of_error hfinish, closeColumn, hfinish,
      run_bind_of_error (run_accept_error e _)]
  | ok column =>
    rw [closeColumn, hfinish, run_bind_of_ok (run_accept_ok column _)]
    by_cases hsecond : column.isPrimaryKey = true ∧ d.hasKey = true
    · obtain ⟨hkey, htaken⟩ := hsecond
      rw [TableDraft.closeColumn_eq hfinish, hkey, htaken,
        run_bind_of_error (run_markKey_of_taken hkey (hkeys.trans htaken))]
      rfl
    · -- the mark is what the constraints of all columns will say
      have hmark : (markKey column).run.run (d.builder, n) = (.ok (), { d.builder with
          hasColumnKey := (d.columns ++ [column]).any Column.isPrimaryKey }, n) := by
        rw [List.any_append, List.any_cons, List.any_nil, Bool.or_false]
        cases hkey : column.isPrimaryKey with
        | false =>
          rw [run_markKey_of_not hkey, Bool.or_false]
          rfl
        | true =>
          have hfree : d.hasKey = false := by simpa [hkey] using hsecond
          rw [run_markKey_of_free hkey (hkeys.trans hfree), Bool.or_true]
      obtain rfl := ColumnDraft.eq_column_of_finish? hfinish
      rw [TableDraft.closeColumn_eq hfinish, if_neg (by simpa using hsecond),
        run_bind_of_ok hmark]
      rfl

/-- Declaring a column in place. -/
theorem run_column (d : TableDraft) (n : ExprId) (name : String) (c : Codec)
    (clauses : List (ColumnClause c)) :
    (column name c clauses).run.run (d.builder, n) =
      match (d.declareColumn name c clauses).run.run n with
      | (.ok (d', column), n') => (.ok column, d'.builder, n')
      | (.error e, n') => (.error e, d.builder, n') := by
  cases htaken : d.hasColumn ⟨name⟩ with
  | true =>
    have hbuilder : (d.builder.columns.any fun other => other.name == ⟨name⟩) = true := htaken
    rw [TableDraft.run_declareColumn_of_taken htaken, column,
      run_bind_of_error (run_refuseIf hbuilder)]
    rfl
  | false =>
    have hbuilder : (d.builder.columns.any fun other => other.name == ⟨name⟩) = false := htaken
    have hopen : (openColumn name c).run.run (d.builder, n)
        = (.ok { id := n, table := d.name, name := ⟨name⟩ }, d.builder, n + 1) := rfl
    rw [TableDraft.run_declareColumn htaken, column,
      run_bind_of_ok (run_refuseIf_of_not hbuilder), run_bind_of_ok hopen, run_closeColumn]
    cases d.closeColumn (clauses.foldl ColumnDraft.apply
      { id := n, table := d.name, name := ⟨name⟩ }) <;> rfl

/-! ### Declarations for the table -/

/-- Reading a key leaves the builder alone. -/
theorem run_readKey (d : TableDraft) (n : ExprId) (key columns : List Column) :
    (readKey key columns).run.run (d.builder, n) = (d.readKey key columns, d.builder, n) := by
  induction columns generalizing key with
  | nil => rfl
  | cons c cs ih =>
    have hown : d.builder.ownColumn c = d.ownColumn c := rfl
    rw [readKey, TableDraft.readKey, run_bind_of_ok run_builder, hown]
    cases h : d.ownColumn c with
    | error e =>
      rw [run_bind_of_error (run_accept_error e _)]
      rfl
    | ok own =>
      rw [run_bind_of_ok (run_accept_ok own _)]
      cases hrepeated : key.any fun k => k.name == own.name with
      | true =>
        refine Eq.trans (run_bind_of_error (run_refuseIf rfl)) ?_
        simp only [bind, Except.bind, hrepeated, if_true]
        rfl
      | false =>
        refine Eq.trans (run_bind_of_ok (run_refuseIf_of_not rfl)) ?_
        simp only [ih, bind, Except.bind, hrepeated]
        rfl

/-- Declaring a key in place. -/
theorem run_primaryKey (d : TableDraft) (n : ExprId) (columns : List Column) :
    (primaryKey columns).run.run (d.builder, n) =
      match d.declareKey columns with
      | .ok d' => (.ok (), d'.builder, n)
      | .error e => (.error e, d.builder, n) := by
  have hkeys : d.builder.hasKey = d.hasKey := rfl
  cases hkey : d.hasKey with
  | true =>
    rw [primaryKey, run_bind_of_error (run_refuseIf (hkeys.trans hkey))]
    simp only [TableDraft.declareKey, hkey, bind, Except.bind]
    rfl
  | false =>
    have hread := run_readKey d n [] columns
    rw [primaryKey, run_bind_of_ok (run_refuseIf_of_not (hkeys.trans hkey))]
    unfold TableDraft.declareKey
    rw [hkey]
    -- reading the key is the only part that can fail before the list is looked at
    cases h : d.readKey [] columns with
    | error e =>
      rw [h] at hread
      rw [run_bind_of_error hread]
      rfl
    | ok key =>
      rw [h] at hread
      rw [run_bind_of_ok hread]
      cases hempty : key.isEmpty with
      | true =>
        refine Eq.trans (run_bind_of_error (run_refuseIf rfl)) ?_
        simp only [bind, Except.bind, hempty]
        rfl
      | false =>
        refine Eq.trans (run_bind_of_ok (run_refuseIf_of_not rfl)) ?_
        simp only [bind, Except.bind, hempty]
        rfl

/-- Declaring an index in place. -/
theorem run_index (d : TableDraft) (n : ExprId) (name? : Option String) (columns : List Column)
    (unique : Bool) :
    (index name? columns unique).run.run (d.builder, n) =
      match d.declareIndex name? columns unique with
      | .ok d' => (.ok (), d'.builder, n)
      | .error e => (.error e, d.builder, n) := by
  have hown : d.builder.ownColumn = d.ownColumn := rfl
  rw [index, run_bind_of_ok run_builder, hown, TableDraft.declareIndex]
  cases columns.mapM d.ownColumn with
  | error e =>
    rw [run_bind_of_error (run_accept_error e _)]
    rfl
  | ok own =>
    rw [run_bind_of_ok (run_accept_ok own _)]
    cases hempty : own.isEmpty with
    | true =>
      refine Eq.trans (run_bind_of_error (run_refuseIf rfl)) ?_
      simp only [bind, Except.bind, hempty]
      rfl
    | false =>
      refine Eq.trans (run_bind_of_ok (run_refuseIf_of_not rfl)) ?_
      simp only [bind, Except.bind, hempty]
      rfl

/-- Declaring a condition in place. -/
theorem run_condition (d : TableDraft) (n : ExprId) (name : String) (condition : Term) :
    (Building.condition name condition).run.run (d.builder, n) =
      match d.declareCheck name condition with
      | .ok d' => (.ok (), d'.builder, n)
      | .error e => (.error e, d.builder, n) := by
  rw [Building.condition, TableDraft.declareCheck]
  cases Check.of? name condition with
  | error e =>
    rw [run_bind_of_error (run_accept_error e _)]
    rfl
  | ok check =>
    rw [run_bind_of_ok (run_accept_ok check _)]
    rfl

end Building

/-- **A call on the builder of a draft** comes to the builder of the next
draft; a call that is refused leaves the builder as it is. -/
theorem TableCall.call_builder (d : TableDraft) (n : ExprId) (c : TableCall) :
    call (d.builder, n) c =
      match (c.declare d).run.run n with
      | (.ok d', n') => (.ok (), d'.builder, n')
      | (.error e, n') => (.error e, d.builder, n') := by
  have hpure : ∀ m : Except ConstructionError TableDraft,
      ((.mk (pure m) : ExceptT ConstructionError Fresh TableDraft)).run.run n = (m, n) :=
    fun _ => rfl
  cases c with
  | column name c clauses =>
    have hcolumn := Building.run_column d n name c clauses
    rw [call, perform]
    rcases hdeclare : (d.declareColumn name c clauses).run.run n with ⟨e | ⟨d', column⟩, n'⟩ <;>
      rw [hdeclare] at hcolumn
    · have hcall : (declare d (column name c clauses)).run.run n = (.error e, n') :=
        run_bind_of_error hdeclare
      rw [hcall]
      exact run_bind_of_error hcolumn
    · have hcall : (declare d (TableCall.column name c clauses)).run.run n = (.ok d', n') :=
        run_bind_of_ok hdeclare
      rw [hcall]
      exact run_bind_of_ok hcolumn
  | primaryKey columns =>
    rw [call, perform, declare, hpure, Building.run_primaryKey]
    cases d.declareKey columns <;> rfl
  | index name? columns unique =>
    rw [call, perform, declare, hpure, Building.run_index]
    cases d.declareIndex name? columns unique <;> rfl
  | check name condition =>
    rw [call, perform, declare, hpure, Building.run_condition]
    cases d.declareCheck name condition <;> rfl
  | withoutRowid => rfl

/-! ## What a declaration can do

The branches in which a declaration goes through are listed with what they
leave, guards included. From here on no proof about builders opens a
declaration again: an invariant is one case for each entry of the list. -/

/-- **The declarations that go through**, with what they leave. -/
inductive TableDraft.Declares (d : TableDraft) : TableCall → TableDraft → Prop where
  /-- A column of a new name, the key if it says so and there is none. -/
  | column {name : String} {c : Codec} {clauses : List (ColumnClause c)} {id : ExprId}
      {draft : ColumnDraft c} :
    (∀ other ∈ d.columns, other.name ≠ ⟨name⟩) →
    draft = clauses.foldl ColumnDraft.apply { id, table := d.name, name := ⟨name⟩ } →
    (draft.column.isPrimaryKey = true → d.hasKey = false) →
    Declares d (.column name c clauses) (d.withColumn draft)
  /-- A key over columns of the table, each of them once. -/
  | primaryKey {columns : List Column} : d.hasKey = false → columns ≠ [] →
    (∀ c ∈ columns, c.table = d.name) → (columns.map Column.name).Nodup →
    Declares d (.primaryKey columns) { d with compositeKey := columns }
  /-- An index over columns of the table. -/
  | index {name? : Option String} {columns : List Column} {unique : Bool} : columns ≠ [] →
    (∀ c ∈ columns, c.table = d.name) →
    Declares d (.index name? columns unique)
      { d with indices := d.indices ++ [⟨name?, columns.map Column.name, unique⟩] }
  /-- A condition without placeholders. -/
  | check {name : String} {condition : Term} (slots_nil : condition.sql.slots = []) :
    Declares d (.check name condition)
      { d with checks := d.checks ++ [⟨⟨name⟩, condition.sql, slots_nil⟩] }
  /-- Rows are found by the key alone. -/
  | withoutRowid : Declares d .withoutRowid { d with withoutRowid := true }

namespace TableDraft

variable {d d' : TableDraft}

/-- A column is one of the table's exactly if it was declared under its
name. -/
theorem ownColumn_eq_ok_iff {c own : Column} :
    d.ownColumn c = .ok own ↔ own = c ∧ c.table = d.name := by
  unfold ownColumn
  split
  · next h => exact ⟨fun heq => ⟨(Except.ok.inj heq).symm, h⟩, fun heq => heq.1 ▸ rfl⟩
  · next h => exact ⟨(fun heq => by cases heq), fun heq => absurd heq.2 h⟩

/-- A key that is read consists of the columns, all of them the table's, and
none of them twice. -/
theorem of_readKey {key columns key' : List Column} (h : d.readKey key columns = .ok key') :
    key' = key ++ columns ∧ (∀ c ∈ columns, c.table = d.name) ∧
      ((key.map Column.name).Nodup → (key'.map Column.name).Nodup) := by
  induction columns generalizing key with
  | nil =>
    obtain rfl := Except.ok.inj h
    exact ⟨(List.append_nil key).symm, nofun, id⟩
  | cons c cs ih =>
    rw [readKey] at h
    obtain ⟨own, hown, hrest⟩ := exists_of_bind_eq_ok h
    obtain ⟨rfl, htable⟩ := ownColumn_eq_ok_iff.mp hown
    cases hrepeated : key.any fun k => k.name == own.name with
    | true =>
      rw [hrepeated] at hrest
      cases hrest
    | false =>
      rw [hrepeated] at hrest
      obtain ⟨rfl, htables, hnodup⟩ := ih hrest
      refine ⟨by rw [List.append_assoc]; rfl, List.forall_mem_cons.mpr ⟨htable, htables⟩,
        fun hkey => hnodup ?_⟩
      rw [List.map_append, List.map_singleton]
      refine List.nodup_append'.mpr ⟨hkey, List.nodup_singleton _, ?_⟩
      rw [List.disjoint_singleton]
      rintro hmem
      obtain ⟨k, hk, heq⟩ := List.mem_map.mp hmem
      have hnone := List.any_eq_false.mp hrepeated k hk
      exact hnone (beq_iff_eq.mpr heq)

/-- Columns that are all found to be the table's. -/
theorem of_mapM_ownColumn {columns own : List Column} (h : columns.mapM d.ownColumn = .ok own) :
    own = columns ∧ ∀ c ∈ columns, c.table = d.name := by
  induction columns generalizing own with
  | nil =>
    obtain rfl := Except.ok.inj h
    exact ⟨rfl, nofun⟩
  | cons c cs ih =>
    rw [List.mapM_cons] at h
    obtain ⟨first, hown, hfirst⟩ := exists_of_bind_eq_ok h
    obtain ⟨rfl, htable⟩ := ownColumn_eq_ok_iff.mp hown
    obtain ⟨rest, hrest, heq⟩ := exists_of_bind_eq_ok hfirst
    obtain ⟨rfl, htables⟩ := ih hrest
    obtain rfl := Except.ok.inj heq
    exact ⟨rfl, List.forall_mem_cons.mpr ⟨htable, htables⟩⟩

/-- **A column that goes through** has a new name, is finished, and is the key
only if there is none. -/
theorem closed_of_declare {name : String} {c : Codec} {clauses : List (ColumnClause c)}
    {n n' : ExprId}
    (h : ((TableCall.column name c clauses).declare d).run.run n = (.ok d', n')) :
    d.hasColumn ⟨name⟩ = false ∧ ∃ draft : ColumnDraft c,
      draft = clauses.foldl ColumnDraft.apply { id := n, table := d.name, name := ⟨name⟩ } ∧
        draft.finish? = .ok draft.column ∧
        (draft.column.isPrimaryKey = true → d.hasKey = false) ∧ d' = d.withColumn draft := by
  cases htaken : d.hasColumn ⟨name⟩ with
  | true =>
    rw [TableCall.declare, run_bind_of_error (run_declareColumn_of_taken htaken c clauses n)] at h
    cases h
  | false =>
    have hrun := run_declareColumn htaken c clauses n
    generalize clauses.foldl ColumnDraft.apply
      { id := n, table := d.name, name := ⟨name⟩ } = draft at hrun
    cases hfinish : draft.finish? with
    | error e =>
      rw [closeColumn_of_error hfinish] at hrun
      rw [TableCall.declare, run_bind_of_error hrun] at h
      cases h
    | ok column =>
      obtain rfl := ColumnDraft.eq_column_of_finish? hfinish
      rw [closeColumn_eq hfinish] at hrun
      split at hrun
      · rw [TableCall.declare, run_bind_of_error hrun] at h
        cases h
      · next hguard =>
        rw [TableCall.declare, run_bind_of_ok hrun] at h
        cases h
        exact ⟨rfl, draft, rfl, hfinish, fun hkey => by simpa [hkey] using hguard, rfl⟩

/-- **Every declaration that goes through** is one of these. -/
theorem declares {c : TableCall} {n n' : ExprId}
    (h : (c.declare d).run.run n = (.ok d', n')) : d.Declares c d' := by
  have hpure : ∀ m : Except ConstructionError TableDraft,
      ((.mk (pure m) : ExceptT ConstructionError Fresh TableDraft)).run.run n = (m, n) :=
    fun _ => rfl
  cases c with
  | column name c clauses =>
    obtain ⟨htaken, draft, hdraft, -, hkey, rfl⟩ := closed_of_declare h
    have hnew : ∀ other ∈ d.columns, other.name ≠ ⟨name⟩ := fun other hother heq =>
      List.any_eq_false.mp htaken other hother (beq_iff_eq.mpr heq)
    exact .column hnew hdraft hkey
  | primaryKey columns =>
    rw [TableCall.declare, hpure] at h
    replace h := (Prod.mk.inj h).1
    unfold declareKey at h
    cases hkey : d.hasKey with
    | true =>
      rw [hkey] at h
      cases h
    | false =>
      rw [hkey] at h
      obtain ⟨key, hread, hrest⟩ := exists_of_bind_eq_ok h
      obtain ⟨rfl, htables, hnodup⟩ := of_readKey hread
      cases key with
      | nil => cases hrest
      | cons c cs =>
        cases hrest
        exact .primaryKey hkey nofun htables (hnodup List.nodup_nil)
  | index name? columns unique =>
    rw [TableCall.declare, hpure] at h
    replace h := (Prod.mk.inj h).1
    unfold declareIndex at h
    obtain ⟨own, hown, hrest⟩ := exists_of_bind_eq_ok h
    obtain ⟨rfl, htables⟩ := of_mapM_ownColumn hown
    cases own with
    | nil => cases hrest
    | cons c cs =>
      cases hrest
      exact .index nofun htables
  | check name condition =>
    rw [TableCall.declare, hpure] at h
    replace h := (Prod.mk.inj h).1
    unfold declareCheck Check.of? at h
    split at h
    · next hslots =>
      cases h
      exact .check hslots
    · cases h
  | withoutRowid =>
    cases h
    exact .withoutRowid

end TableDraft

/-! ## What clauses leave of a column

The clauses of a column are not told apart in what follows, so all that is
needed of them is what they have in common: there is one key at most, a default
was given as a value or as text, and conditions were given as terms. -/

namespace ColumnDraft

variable {c : Codec}

/-- **A column on the way as clauses leave it.** -/
structure Worded (d : ColumnDraft c) : Prop where
  /-- It is the primary key once at most. -/
  key : d.constraints.countP ColumnConstraint.isPrimaryKey ≤ 1
  /-- Its default is a value or text that was given. -/
  default? : ∀ s, d.default? = some s → (∃ v, s = [.literal c v]) ∨ ∃ text, s = rawDefault text
  /-- Its conditions are terms. -/
  checks : ∀ check ∈ d.checks, ∃ t : Term, check.condition = t.sql

/-- An element that is changed for another one of its kind, or added where
there is none of its kind, is the only one of its kind. -/
theorem countP_updateFirst {α : Type} {p : α → Bool} {change : α → Option α} {new : α}
    (hchange : ∀ a, p a = true → ∃ b, change a = some b ∧ p b = true)
    (hother : ∀ a, p a = false → change a = none) {as : List α} (h : as.countP p ≤ 1) :
    (updateFirst change new as).countP p ≤ 1 := by
  induction as with
  | nil => exact List.countP_le_length
  | cons a as ih =>
    rw [updateFirst]
    cases hp : p a with
    | true =>
      obtain ⟨b, hb, hpb⟩ := hchange a hp
      rw [List.countP_cons_of_pos hp] at h
      rw [hb]
      show (b :: as).countP p ≤ 1
      rwa [List.countP_cons_of_pos hpb]
    | false =>
      have hnone : ¬p a = true := by simp [hp]
      rw [List.countP_cons_of_neg hnone] at h
      rw [hother a hp]
      show (a :: updateFirst change new as).countP p ≤ 1
      rw [List.countP_cons_of_neg hnone]
      exact ih h

/-- An element that is changed within its kind leaves the kinds as they
are. -/
theorem countP_of_changeFirst? {α : Type} {p : α → Bool} {change : α → Option α}
    (hchange : ∀ a b, change a = some b → p b = p a) {as bs : List α}
    (h : changeFirst? change as = some bs) : bs.countP p = as.countP p := by
  induction as generalizing bs with
  | nil => cases h
  | cons a as ih =>
    rw [changeFirst?] at h
    cases hb : change a with
    | some b =>
      rw [hb] at h
      obtain rfl := Option.some.inj h
      rw [List.countP_cons, List.countP_cons, hchange a b hb]
    | none =>
      rw [hb] at h
      obtain ⟨cs, hcs, rfl⟩ := Option.map_eq_some_iff.mp h
      rw [List.countP_cons, List.countP_cons, ih hcs]

/-- Changing the key leaves one key. -/
theorem Worded.changeKey {d : ColumnDraft c} (h : d.Worded) (change : KeyClause → KeyClause) :
    (d.changeKey change).Worded := by
  refine ⟨countP_updateFirst (fun other hkey => ?_) (fun other hother => ?_) h.key, h.default?,
    h.checks⟩
  · cases other with
    | primaryKey key => exact ⟨.primaryKey (change key), rfl, rfl⟩
    | unique | collate => cases hkey
  · cases other with
    | primaryKey => cases hother
    | unique | collate => rfl

theorem Worded.changeReference {d : ColumnDraft c} (h : d.Worded) (fault : ConstraintFault)
    (change : Reference → Reference) : (d.changeReference fault change).Worded := by
  unfold ColumnDraft.changeReference
  split <;> exact ⟨h.key, h.default?, h.checks⟩

/-- **A clause keeps a column worded.** -/
theorem Worded.apply {d : ColumnDraft c} (h : d.Worded) (clause : ColumnClause c) :
    (d.apply clause).Worded := by
  have hmisuse : ∀ e, (d.refuse e).Worded := fun _ => ⟨h.key, h.default?, h.checks⟩
  cases clause with
  | primaryKey => exact h.changeKey _
  | asc => exact h.changeKey _
  | desc => exact h.changeKey _
  | autoIncrement =>
    rw [ColumnDraft.apply]
    split
    · exact h.changeKey _
    · exact hmisuse _
  | unique =>
    rw [ColumnDraft.apply]
    split
    · exact h
    · refine ⟨?_, h.default?, h.checks⟩
      rw [List.countP_append]
      exact h.key
  | onConflict choice =>
    rw [ColumnDraft.apply]
    split
    · next constraints hchange =>
      refine ⟨?_, h.default?, h.checks⟩
      -- a choice for conflicts leaves every constraint of its kind
      have hkinds : ∀ a b, withConflict choice a = some b →
          b.isPrimaryKey = a.isPrimaryKey := by
        intro a b hab
        cases a <;> cases hab <;> rfl
      have hcount := countP_of_changeFirst? hkinds hchange
      rw [List.countP_reverse] at hcount
      rw [List.countP_reverse, hcount]
      exact h.key
    · exact hmisuse _
  | collate collation =>
    refine ⟨?_, h.default?, h.checks⟩
    show (d.constraints.filter _ ++ [ColumnConstraint.collate collation]).countP _ ≤ 1
    rw [List.countP_append]
    -- where a collation is taken out no key is added
    exact Nat.le_trans List.filter_sublist.countP_le h.key
  | defaultValue v => exact ⟨h.key, fun s hs => .inl ⟨v, (Option.some.inj hs).symm⟩, h.checks⟩
  | defaultText sql => exact ⟨h.key, fun s hs => .inr ⟨sql, (Option.some.inj hs).symm⟩, h.checks⟩
  | references column => exact ⟨h.key, h.default?, h.checks⟩
  | onDelete action => exact h.changeReference _ _
  | onUpdate action => exact h.changeReference _ _
  | foreignKeyName name => exact h.changeReference _ _
  | index => exact ⟨h.key, h.default?, h.checks⟩
  | uniqueIndex => exact ⟨h.key, h.default?, h.checks⟩
  | check name condition =>
    rw [ColumnDraft.apply]
    unfold Check.of?
    split
    · next check hcheck =>
      split at hcheck
      · obtain rfl := Except.ok.inj hcheck
        refine ⟨h.key, h.default?, List.forall_mem_append.mpr ⟨h.checks, ?_⟩⟩
        exact List.forall_mem_singleton.mpr ⟨condition, rfl⟩
      · cases hcheck
    · exact hmisuse _

theorem apply_table (d : ColumnDraft c) (clause : ColumnClause c) :
    (d.apply clause).table = d.table := by
  have hreference : ∀ fault change, (d.changeReference fault change).table = d.table := by
    intro fault change
    unfold ColumnDraft.changeReference
    split <;> rfl
  cases clause <;> simp only [ColumnDraft.apply] <;> try split
  all_goals first | rfl | exact hreference _ _

theorem apply_name (d : ColumnDraft c) (clause : ColumnClause c) :
    (d.apply clause).name = d.name := by
  have hreference : ∀ fault change, (d.changeReference fault change).name = d.name := by
    intro fault change
    unfold ColumnDraft.changeReference
    split <;> rfl
  cases clause <;> simp only [ColumnDraft.apply] <;> try split
  all_goals first | rfl | exact hreference _ _

/-- **Whatever the clauses are**, a column comes out worded, under its own
name. -/
theorem worded_foldl (clauses : List (ColumnClause c)) {d : ColumnDraft c} (h : d.Worded) :
    (clauses.foldl ColumnDraft.apply d).Worded ∧
      (clauses.foldl ColumnDraft.apply d).table = d.table ∧
      (clauses.foldl ColumnDraft.apply d).name = d.name := by
  induction clauses generalizing d with
  | nil => exact ⟨h, rfl, rfl⟩
  | cons clause clauses ih =>
    obtain ⟨hworded, htable, hname⟩ := ih (h.apply clause)
    rw [List.foldl_cons]
    exact ⟨hworded, htable.trans (d.apply_table clause), hname.trans (d.apply_name clause)⟩

end ColumnDraft

/-! ## The invariant -/

namespace TableBuilder

/-- **A sound builder.** -/
structure Sound (b : TableBuilder) : Prop where
  /-- No two columns have one name. -/
  distinct : (b.columns.map Column.name).Nodup
  /-- The columns were declared under the table's name. -/
  own : ∀ c ∈ b.columns, c.table = b.name
  /-- The mark says whether a column is the key. -/
  mark : b.hasColumnKey = b.columns.any Column.isPrimaryKey
  /-- One column at most is the key. -/
  single : (b.columns.filter Column.isPrimaryKey).length ≤ 1
  /-- If a column is the key, there is none over several columns. -/
  apart : b.hasColumnKey = true → b.compositeKey = []
  /-- A key over several columns names none of them twice. -/
  keyDistinct : (b.compositeKey.map Column.name).Nodup
  /-- It is over columns of the table. -/
  keyOwn : ∀ c ∈ b.compositeKey, c.table = b.name

/-- **A builder as declarations leave it**, in the parts that are printed. -/
structure Worded (b : TableBuilder) : Prop where
  /-- A column is the primary key once at most. -/
  key : ∀ c ∈ b.columns, c.constraints.countP ColumnConstraint.isPrimaryKey ≤ 1
  /-- A default is a value or text that was given. -/
  default? : ∀ c ∈ b.columns, ∀ s, c.default? = some s →
    (∃ v, s = [.literal c.codec v]) ∨ ∃ text, s = rawDefault text
  /-- A condition is a term. -/
  checks : ∀ check ∈ b.checks, ∃ t : Term, check.condition = t.sql

end TableBuilder

namespace TableDraft

variable {d d' : TableDraft} {call : TableCall}

/-- A draft has a key if a column is one or there is one for the table. -/
theorem hasKey_eq_false_iff : d.hasKey = false ↔
    d.columns.any Column.isPrimaryKey = false ∧ d.compositeKey = [] := by
  rw [hasKey, Bool.or_eq_false_iff, Bool.not_eq_false', List.isEmpty_iff]

/-- **A declaration keeps a builder sound.** -/
theorem Declares.sound (hd : d.Declares call d') (h : d.builder.Sound) : d'.builder.Sound := by
  cases hd with
  | @column name c clauses id draft hnew hdraft hkey =>
    have hstart : ColumnDraft.Worded { id, table := d.name, name := ⟨name⟩ : ColumnDraft c } :=
      ⟨Nat.zero_le 1, nofun, nofun⟩
    obtain ⟨-, htable, hname⟩ := ColumnDraft.worded_foldl clauses hstart
    rw [← hdraft] at htable hname
    constructor
    · show ((d.columns ++ [draft.column]).map Column.name).Nodup
      rw [List.map_append, List.map_singleton]
      refine List.nodup_append'.mpr ⟨h.distinct, List.nodup_singleton _, ?_⟩
      rw [List.disjoint_singleton]
      intro hmem
      obtain ⟨other, hother, heq⟩ := List.mem_map.mp hmem
      exact hnew other hother (heq.trans hname)
    · exact List.forall_mem_append.mpr ⟨h.own, List.forall_mem_singleton.mpr htable⟩
    · rfl
    · show ((d.columns ++ [draft.column]).filter Column.isPrimaryKey).length ≤ 1
      rw [List.filter_append, List.length_append]
      cases hprimary : draft.column.isPrimaryKey with
      | false =>
        rw [List.filter_singleton, hprimary]
        exact h.single
      | true =>
        -- a second key would have been refused
        have hnone := (hasKey_eq_false_iff.mp (hkey hprimary)).1
        rw [List.filter_eq_nil_iff.mpr fun other hother =>
          by simpa using List.any_eq_false.mp hnone other hother]
        rw [List.length_nil, Nat.zero_add]
        exact List.length_filter_le _ _
    · intro hmark
      show d.compositeKey = []
      cases hprimary : draft.column.isPrimaryKey with
      | false =>
        refine h.apart ?_
        have hany : (d.columns ++ [draft.column]).any Column.isPrimaryKey = true := hmark
        -- the mark was there before the column
        rwa [List.any_append, List.any_cons, hprimary, List.any_nil, Bool.or_false,
          Bool.or_false] at hany
      | true => exact (hasKey_eq_false_iff.mp (hkey hprimary)).2
    · exact h.keyDistinct
    · exact h.keyOwn
  | primaryKey hkey hne htables hnodup =>
    refine ⟨h.distinct, h.own, h.mark, h.single, fun hmark => ?_, hnodup, htables⟩
    have hnone : d.columns.any Column.isPrimaryKey = false := (hasKey_eq_false_iff.mp hkey).1
    exact absurd hmark (Bool.eq_false_iff.mp hnone)
  | index hne htables =>
    exact ⟨h.distinct, h.own, h.mark, h.single, h.apart, h.keyDistinct, h.keyOwn⟩
  | check hslots =>
    exact ⟨h.distinct, h.own, h.mark, h.single, h.apart, h.keyDistinct, h.keyOwn⟩
  | withoutRowid =>
    exact ⟨h.distinct, h.own, h.mark, h.single, h.apart, h.keyDistinct, h.keyOwn⟩

/-- **A declaration keeps a builder worded.** -/
theorem Declares.worded (hd : d.Declares call d') (h : d.builder.Worded) : d'.builder.Worded := by
  cases hd with
  | @column name c clauses id draft hnew hdraft hkey =>
    have hstart : ColumnDraft.Worded { id, table := d.name, name := ⟨name⟩ : ColumnDraft c } :=
      ⟨Nat.zero_le 1, nofun, nofun⟩
    have hworded := (ColumnDraft.worded_foldl clauses hstart).1
    rw [← hdraft] at hworded
    exact ⟨List.forall_mem_append.mpr ⟨h.key, List.forall_mem_singleton.mpr hworded.key⟩,
      List.forall_mem_append.mpr ⟨h.default?, List.forall_mem_singleton.mpr hworded.default?⟩,
      List.forall_mem_append.mpr ⟨h.checks, hworded.checks⟩⟩
  | @check name condition hslots =>
    exact ⟨h.key, h.default?, List.forall_mem_append.mpr
      ⟨h.checks, List.forall_mem_singleton.mpr ⟨condition, rfl⟩⟩⟩
  | primaryKey => exact ⟨h.key, h.default?, h.checks⟩
  | index => exact ⟨h.key, h.default?, h.checks⟩
  | withoutRowid => exact ⟨h.key, h.default?, h.checks⟩

end TableDraft

/-! ## The table -/

namespace TableDraft

/-- **The table of a draft** that has what a table needs. -/
def table (d : TableDraft) : Table where
  name := d.name
  columns := d.columns
  compositeKey := d.compositeKey
  foreignKeys := d.foreignKeys
  indices := d.indices.map fun s => s.index d.name
  checks := d.checks
  withoutRowid := d.withoutRowid

/-- A table that is built has columns, and a key if it needs one. -/
theorem of_build {d : TableDraft} {t : Table} (h : d.build = .ok t) :
    d.columns ≠ [] ∧ (d.withoutRowid = true → d.hasKey = true) ∧ t = d.table := by
  unfold build at h
  by_cases hcolumns : d.columns.isEmpty = true
  · rw [if_pos hcolumns] at h
    cases h
  · rw [if_neg hcolumns] at h
    by_cases hrowid : (d.withoutRowid && !d.hasKey) = true
    · rw [if_pos hrowid] at h
      cases h
    · rw [if_neg hrowid] at h
      refine ⟨fun hnil => hcolumns (List.isEmpty_iff.mpr hnil), fun hneeds => ?_,
        (Except.ok.inj h).symm⟩
      simpa [hneeds] using hrowid

/-- **The mark changes nothing**: a builder gives the table of its draft. -/
theorem build_builder {d : TableDraft} (h : d.builder.Sound) : d.builder.build = d.build := by
  have hcomposite : (if d.builder.hasColumnKey then [] else d.builder.key) = d.compositeKey := by
    rw [TableBuilder.key]
    cases hmark : d.builder.hasColumnKey with
    | true => exact (h.apart hmark).symm
    | false => rfl
  rw [TableBuilder.build, hcomposite]
  rfl

end TableDraft

/-! ## Runs

A call that is refused changes nothing, identities aside, so an induction over
the calls never asks which of them went through. -/

namespace TableCall

/-- **What a call comes to**: it is refused and the builder is what it was, or
it is one of the declarations. -/
theorem call_cases (d : TableDraft) (n : ExprId) (c : TableCall) :
    (∃ e n', call (d.builder, n) c = (.error e, d.builder, n')) ∨
      ∃ d' n', call (d.builder, n) c = (.ok (), d'.builder, n') ∧ d.Declares c d' := by
  rw [call_builder]
  rcases h : (c.declare d).run.run n with ⟨e | d', n'⟩
  · exact .inl ⟨e, n', rfl⟩
  · exact .inr ⟨d', n', rfl, TableDraft.declares h⟩

/-- **The builders that programs come to** are those of drafts, sound and
worded, whichever calls were refused. -/
theorem runAll_spec (name : Identifier) (n : ExprId) (calls : List TableCall) :
    ∃ d : TableDraft, (runAll calls ({ name }, n)).1 = d.builder ∧ d.builder.Sound ∧
      d.builder.Worded := by
  suffices hrun : ∀ (d : TableDraft) (n : ExprId), d.builder.Sound → d.builder.Worded →
      ∃ d' : TableDraft, (runAll calls (d.builder, n)).1 = d'.builder ∧ d'.builder.Sound ∧
        d'.builder.Worded from
    hrun { name } n ⟨List.nodup_nil, nofun, rfl, Nat.zero_le 1, fun _ => rfl, List.nodup_nil, nofun⟩
      ⟨nofun, nofun, nofun⟩
  induction calls with
  | nil => exact fun d n hsound hworded => ⟨d, rfl, hsound, hworded⟩
  | cons c calls ih =>
    intro d n hsound hworded
    rw [runAll, List.foldl_cons]
    obtain ⟨e, n', hcall⟩ | ⟨d', n', hcall, hdeclares⟩ := call_cases d n c
    · rw [hcall]
      exact ih d n' hsound hworded
    · rw [hcall]
      exact ih d' n' (hdeclares.sound hsound) (hdeclares.worded hworded)

end TableCall

end TypedSql

import TypedSql.Proofs.Schema.Built
import TypedSql.Proofs.Schema.PrimaryKey

/-!
# Columns that stand for the row number

A row has a number, and a column can stand for it: one of integers that is all
of the primary key and is not sorted downwards. Such a column is filled in
when it is left out, so it counts as one that can be without a value.
`Column.isNullable` has to say that when the column is declared. The key may
still come after it, declared for the table, and so may `WITHOUT ROWID`, which
takes the numbers away.

`Table.RowidAlias` is read off the table that is built. `Table.AliasSaid` says
where it and what was said at the declaration agree, and
`Table.Built.aliasSaid` that they agree there and nowhere else, whatever the
program did. A key that counts up is another matter: it is refused where it
makes no sense on its column, so it is always on a column that would stand for
the row number if there is one.
-/

namespace TypedSql

/-! ## What is said of a key

A key that counts up is refused on columns that do not hold integers, and one
that counts up and is sorted downwards is refused when the column is closed. So
what a column says of counting up can be trusted whatever clauses it was
declared with, unlike what it says of being without a value. -/

/-- **A column whose key may count up**, if it does. -/
structure Column.Counted (c : Column) : Prop where
  /-- It holds integers. -/
  integer : ∀ key, .primaryKey key ∈ c.constraints → key.autoIncrement = true →
    c.codec.isInteger = true
  /-- It is not sorted downwards. -/
  ascending : ∀ key, c.key? = some key → key.autoIncrement = true →
    key.descending? ≠ some true

namespace Column

variable {c : Column}

theorem isPrimaryKey_iff : c.isPrimaryKey = true ↔ ∃ key, c.key? = some key := by
  rw [isPrimaryKey, List.any_eq_true, key?, ← Option.isSome_iff_exists,
    List.isSome_findSome?, List.any_eq_true]
  rfl

/-- A key clause that is the only one is the one that counts. -/
theorem key?_of_mem (hsingle : c.constraints.countP ColumnConstraint.isPrimaryKey ≤ 1)
    {key : KeyClause} (h : .primaryKey key ∈ c.constraints) : c.key? = some key := by
  rw [key?]
  generalize c.constraints = constraints at hsingle h
  induction constraints with
  | nil => cases h
  | cons k constraints ih =>
    cases k with
    | primaryKey first =>
      have hnone : constraints.countP ColumnConstraint.isPrimaryKey = 0 := by
        rw [List.countP_cons_of_pos rfl] at hsingle
        omega
      obtain heq | hlater := List.mem_cons.mp h
      · cases heq
        rfl
      · exact absurd rfl (List.countP_eq_zero.mp hnone _ hlater)
    | unique | collate =>
      rw [List.countP_cons_of_neg Bool.false_ne_true] at hsingle
      exact ih hsingle ((List.mem_cons.mp h).resolve_left nofun)

end Column

namespace ColumnDraft

variable {c : Codec}

/-- A column on the way whose key counts up only if it holds integers. -/
def Counted (d : ColumnDraft c) : Prop :=
  ∀ key, .primaryKey key ∈ d.constraints → key.autoIncrement = true → c.isInteger = true

/-- What is in a list after a change to its first element of a kind. -/
theorem mem_updateFirst {α : Type} {change : α → Option α} {new a : α} {as : List α}
    (h : a ∈ updateFirst change new as) : a = new ∨ a ∈ as ∨ ∃ b ∈ as, change b = some a := by
  induction as with
  | nil => exact .inl (List.mem_singleton.mp h)
  | cons b as ih =>
    rw [updateFirst] at h
    split at h
    · next b' hb =>
      obtain rfl | h := List.mem_cons.mp h
      · exact .inr (.inr ⟨b, List.mem_cons_self, hb⟩)
      · exact .inr (.inl (List.mem_cons_of_mem b h))
    · obtain rfl | h := List.mem_cons.mp h
      · exact .inr (.inl List.mem_cons_self)
      · obtain heq | hold | ⟨b', hb', heq⟩ := ih h
        · exact .inl heq
        · exact .inr (.inl (List.mem_cons_of_mem b hold))
        · exact .inr (.inr ⟨b', List.mem_cons_of_mem b hb', heq⟩)

/-- What is in a list after a change to its first element that admits it. -/
theorem mem_of_changeFirst? {α : Type} {change : α → Option α} {a : α} {as bs : List α}
    (hchange : changeFirst? change as = some bs) (h : a ∈ bs) :
    a ∈ as ∨ ∃ b ∈ as, change b = some a := by
  induction as generalizing bs with
  | nil => cases hchange
  | cons b as ih =>
    rw [changeFirst?] at hchange
    split at hchange
    · next b' hb =>
      obtain rfl := Option.some.inj hchange
      obtain rfl | h := List.mem_cons.mp h
      · exact .inr ⟨b, List.mem_cons_self, hb⟩
      · exact .inl (List.mem_cons_of_mem b h)
    · obtain ⟨cs, hcs, rfl⟩ := Option.map_eq_some_iff.mp hchange
      obtain rfl | h := List.mem_cons.mp h
      · exact .inl List.mem_cons_self
      · obtain hold | ⟨b', hb', heq⟩ := ih hcs h
        · exact .inl (List.mem_cons_of_mem b hold)
        · exact .inr ⟨b', List.mem_cons_of_mem b hb', heq⟩

/-- A change to the key that makes it count up only where it may. -/
theorem Counted.changeKey {d : ColumnDraft c} (h : d.Counted) {change : KeyClause → KeyClause}
    (hchange : ∀ key, (change key).autoIncrement = true →
      key.autoIncrement = true ∨ c.isInteger = true) : (d.changeKey change).Counted := by
  intro key hmem hauto
  obtain heq | hold | ⟨other, hother, heq⟩ := mem_updateFirst hmem
  · cases heq
    exact (hchange {} hauto).resolve_left Bool.false_ne_true
  · exact h key hold hauto
  · cases other with
    | primaryKey before =>
      cases heq
      exact (hchange before hauto).elim (h before hother) fun hinteger => hinteger
    | unique | collate => cases heq

theorem Counted.changeReference {d : ColumnDraft c} (h : d.Counted) (fault : ConstraintFault)
    (change : Reference → Reference) : (d.changeReference fault change).Counted := by
  unfold ColumnDraft.changeReference
  split <;> exact h

/-- **A clause makes a key count up only where it may.** -/
theorem Counted.apply {d : ColumnDraft c} (h : d.Counted) (clause : ColumnClause c) :
    (d.apply clause).Counted := by
  cases clause with
  | primaryKey => exact h.changeKey fun _ hauto => .inl hauto
  | asc => exact h.changeKey fun _ hauto => .inl hauto
  | desc => exact h.changeKey fun _ hauto => .inl hauto
  | autoIncrement =>
    rw [ColumnDraft.apply]
    split
    · next hinteger => exact h.changeKey fun _ _ => .inr hinteger
    · exact h
  | unique =>
    rw [ColumnDraft.apply]
    split
    · exact h
    · intro key hmem
      obtain hold | hnew := List.mem_append.mp hmem
      · exact h key hold
      · cases List.mem_singleton.mp hnew
  | onConflict choice =>
    rw [ColumnDraft.apply]
    split
    · next constraints hchange =>
      intro key hmem hauto
      obtain hold | ⟨other, hother, heq⟩ :=
        mem_of_changeFirst? hchange (List.mem_reverse.mp hmem)
      · exact h key (List.mem_reverse.mp hold) hauto
      · cases other with
        | primaryKey before =>
          cases heq
          exact h before (List.mem_reverse.mp hother) hauto
        | unique | collate => cases heq
    · exact h
  | collate collation =>
    intro key hmem
    obtain hold | hnew := List.mem_append.mp hmem
    · exact h key (List.mem_filter.mp hold).1
    · cases List.mem_singleton.mp hnew
  | onDelete action => exact h.changeReference _ _
  | onUpdate action => exact h.changeReference _ _
  | foreignKeyName name => exact h.changeReference _ _
  | check name condition =>
    rw [ColumnDraft.apply]
    split <;> exact h
  | defaultValue | defaultText | references | index | uniqueIndex => exact h

theorem Counted.foldl {d : ColumnDraft c} (h : d.Counted) (clauses : List (ColumnClause c)) :
    (clauses.foldl ColumnDraft.apply d).Counted := by
  induction clauses generalizing d with
  | nil => exact h
  | cons clause clauses ih => exact ih (h.apply clause)

/-- **A column that is finished** has a key that may count up, if it does. -/
theorem Counted.finish? {d : ColumnDraft c} (h : d.Counted)
    (hfinish : d.finish? = .ok d.column) : d.column.Counted := by
  refine ⟨h, fun key hkey hauto hdesc => ?_⟩
  unfold ColumnDraft.finish? at hfinish
  split at hfinish
  · cases hfinish
  · split at hfinish
    · cases hfinish
    · next hguard =>
      refine hguard ?_
      rw [hkey, Option.any_some, hauto, hdesc]
      rfl

end ColumnDraft

/-- **A declaration makes keys count up only where they may.** -/
theorem TableDraft.counted_of_declare {d d' : TableDraft} (h : ∀ c ∈ d.columns, c.Counted)
    {call : TableCall} {n n' : ExprId} (hrun : (call.declare d).run.run n = (.ok d', n')) :
    ∀ c ∈ d'.columns, c.Counted := by
  cases call with
  | column name c clauses =>
    obtain ⟨-, draft, rfl, hfinish, -, rfl⟩ := closed_of_declare hrun
    refine List.forall_mem_append.mpr ⟨h, List.forall_mem_singleton.mpr ?_⟩
    have hstart : ColumnDraft.Counted { id := n, table := d.name, name := ⟨name⟩ : ColumnDraft c } :=
      fun _ hmem => absurd hmem List.not_mem_nil
    exact (hstart.foldl clauses).finish? hfinish
  | primaryKey | index | check | withoutRowid =>
    have hcolumns : d'.columns = d.columns := by
      cases declares hrun
      rfl
    rwa [hcolumns]

/-- **Every builder that is reached** has keys that count up only where they
may. -/
theorem TableBuilder.Reached.counted {b : TableBuilder} {n : ExprId} (hb : b.Reached n) :
    ∀ c ∈ b.columns, c.Counted := by
  induction hb with
  | start name n => nofun
  | @call b n m call hb hm ih =>
    obtain ⟨d, rfl, -, -, -⟩ := hb.spec
    rw [TableCall.call_builder]
    rcases hrun : (call.declare d).run.run m with ⟨e | d', n'⟩
    · exact ih
    · exact TableDraft.counted_of_declare ih hrun

/-! ## What the key of a table is -/

namespace Table

/-- **A column that stands for the row number**: it is all of the primary key,
however that was declared, holds integers and is not sorted downwards, and
rows have numbers. -/
structure RowidAlias (t : Table) (c : Column) : Prop where
  /-- It is all of the key. -/
  key : t.primaryKey.map Column.name = [c.name]
  /-- It holds integers. -/
  integer : c.codec.isInteger = true
  /-- It is not sorted downwards. -/
  ascending : ∀ key, c.key? = some key → key.descending? ≠ some true
  /-- Rows have numbers. -/
  rowid : t.withoutRowid = false

/-- **What a column says of the row number**, compared with the table. -/
structure AliasSaid (t : Table) (c : Column) : Prop where
  /-- A column that says that it stands for the row number does so unless there
  is none. -/
  said : c.isRowidAlias = true → (t.RowidAlias c ↔ t.withoutRowid = false)
  /-- A column that does not say so stands for it nevertheless if it is of
  integers and alone in the key that was declared for the table. -/
  unsaid : c.isRowidAlias = false →
    (t.RowidAlias c ↔ t.compositeKey.map Column.name = [c.name] ∧ c.codec.isInteger = true ∧
      t.withoutRowid = false)
  /-- So whether it can be without a value is said rightly, but for these two:
  the key was declared with the column and there is no row number, or the key
  was declared for the table and there is one. -/
  nullable : (c.isNullable = true ↔ c.codec.isNullable = true ∨ t.RowidAlias c) ↔
    c.codec.isNullable = true ∨ ¬ (c.isRowidAlias = true ∧ t.withoutRowid = true) ∧
      ¬ (t.compositeKey.map Column.name = [c.name] ∧ c.codec.isInteger = true ∧
        t.withoutRowid = false)
  /-- A key that counts up is on a column that says that it stands for the row
  number, and is all of the key. -/
  autoIncrement : ∀ key, .primaryKey key ∈ c.constraints → key.autoIncrement = true →
    c.isRowidAlias = true ∧ t.primaryKey = [c] ∧ (t.RowidAlias c ↔ t.withoutRowid = false)

end Table

/-- A column that says that it stands for the row number is the key. -/
theorem Column.isRowidAlias_iff {c : Column} : c.isRowidAlias = true ↔
    c.codec.isInteger = true ∧ ∃ key, c.key? = some key ∧ key.descending? ≠ some true := by
  rw [isRowidAlias, Bool.and_eq_true, Option.any_eq_true]
  simp only [bne_iff_ne]

namespace Table.Built

variable {t : Table} {c : Column}

/-- A column that is the key is all of it. -/
theorem primaryKey_eq (h : t.Built) (hc : c ∈ t.columns) (hkey : c.isPrimaryKey = true) :
    t.primaryKey = [c] ∧ t.compositeKey = [] := by
  obtain ⟨d, n, -, hsound, rfl⟩ := h.exists_draft
  have hmark : d.builder.hasColumnKey = true :=
    hsound.mark.trans (List.any_eq_true.mpr ⟨c, hc, hkey⟩)
  refine ⟨?_, hsound.apart hmark⟩
  have hmem : c ∈ d.columns.filter Column.isPrimaryKey := List.mem_filter.mpr ⟨hc, hkey⟩
  have hone : (d.columns.filter Column.isPrimaryKey).length = 1 :=
    Nat.le_antisymm hsound.single (List.length_pos_of_mem hmem)
  obtain ⟨k, hk⟩ := List.length_eq_one_iff.mp hone
  rw [hk] at hmem
  obtain rfl := List.mem_singleton.mp hmem
  rw [TableDraft.primaryKey_table hsound, TableBuilder.key, if_pos hmark]
  exact hk

/-- A column that is not the key is all of it only if the key was declared for
the table. -/
theorem primaryKey_names (h : t.Built) (hc : c ∈ t.columns) (hkey : c.isPrimaryKey = false) :
    t.primaryKey.map Column.name = [c.name] ↔ t.compositeKey.map Column.name = [c.name] := by
  by_cases hcolumn : ∃ k ∈ t.columns, k.isPrimaryKey = true
  · obtain ⟨k, hk, hprimary⟩ := hcolumn
    obtain ⟨hall, hnone⟩ := h.primaryKey_eq hk hprimary
    rw [hall, hnone]
    refine iff_of_false (fun hname => ?_) nofun
    -- two columns of one name are one column
    obtain ⟨b, n, hb, hbuild⟩ := h
    have heq : k = c :=
      List.inj_on_of_nodup_map (hb.distinct hbuild).names hk hc (List.cons.inj hname).1
    rw [heq, hkey] at hprimary
    cases hprimary
  · have hnone : t.columnKey = [] :=
      List.filter_eq_nil_iff.mpr fun k hk hprimary => hcolumn ⟨k, hk, hprimary⟩
    rw [primaryKey, hnone, List.isEmpty_nil, if_pos rfl]

/-- A key that counts up is on a column that says that it stands for the row
number. -/
theorem isRowidAlias_of_autoIncrement (h : t.Built) (hc : c ∈ t.columns) {key : KeyClause}
    (hmem : .primaryKey key ∈ c.constraints) (hauto : key.autoIncrement = true) :
    c.isRowidAlias = true := by
  have hkey := Column.key?_of_mem (h.worded.key c hc) hmem
  obtain ⟨d, n, hb, -, rfl⟩ := h.exists_draft
  have hcounted := hb.counted c hc
  exact Column.isRowidAlias_iff.mpr
    ⟨hcounted.integer key hmem hauto, key, hkey, hcounted.ascending key hkey hauto⟩

/-- A column that says that it stands for the row number is all of the key, and
stands for it if there is one. -/
theorem rowidAlias_of_said (h : t.Built) (hc : c ∈ t.columns) (hsaid : c.isRowidAlias = true) :
    t.primaryKey = [c] ∧ (t.RowidAlias c ↔ t.withoutRowid = false) := by
  obtain ⟨hinteger, key, hkey, hascending⟩ := Column.isRowidAlias_iff.mp hsaid
  obtain ⟨hall, -⟩ := h.primaryKey_eq hc (Column.isPrimaryKey_iff.mpr ⟨key, hkey⟩)
  refine ⟨hall, RowidAlias.rowid, fun hrowid => ⟨by rw [hall]; rfl, hinteger, ?_, hrowid⟩⟩
  intro other hother
  obtain rfl := Option.some.inj (hkey.symm.trans hother)
  exact hascending

/-- A column that does not say so stands for it if the key that was declared
for the table is the column alone. -/
theorem rowidAlias_of_unsaid (h : t.Built) (hc : c ∈ t.columns)
    (hunsaid : c.isRowidAlias = false) :
    t.RowidAlias c ↔ t.compositeKey.map Column.name = [c.name] ∧ c.codec.isInteger = true ∧
      t.withoutRowid = false := by
  cases hkey : c.isPrimaryKey with
  | true =>
    obtain ⟨key, hclause⟩ := Column.isPrimaryKey_iff.mp hkey
    obtain ⟨-, hnone⟩ := h.primaryKey_eq hc hkey
    rw [hnone]
    refine iff_of_false (fun halias => ?_) nofun
    have hsaid := Column.isRowidAlias_iff.mpr
      ⟨halias.integer, key, hclause, halias.ascending key hclause⟩
    rw [hunsaid] at hsaid
    cases hsaid
  | false =>
    have hnames := h.primaryKey_names hc hkey
    constructor
    · exact fun halias => ⟨hnames.mp halias.key, halias.integer, halias.rowid⟩
    · rintro ⟨hname, hinteger, hrowid⟩
      refine ⟨hnames.mpr hname, hinteger, fun key hclause => ?_, hrowid⟩
      rw [Column.isPrimaryKey_iff.mpr ⟨key, hclause⟩] at hkey
      cases hkey

/-- **What a column says of the row number is right**, but for the two cases
that `Table.AliasSaid` names: a key of a column in a table without row
numbers, and a key that was declared for the table. -/
theorem aliasSaid (h : t.Built) (hc : c ∈ t.columns) : t.AliasSaid c := by
  have hsaid : c.isRowidAlias = true → (t.RowidAlias c ↔ t.withoutRowid = false) :=
    fun hsaid => (h.rowidAlias_of_said hc hsaid).2
  have hunsaid := h.rowidAlias_of_unsaid hc
  refine ⟨hsaid, hunsaid, ?_, fun key hmem hauto => ?_⟩
  · rw [Column.isNullable, Bool.or_eq_true]
    cases hcodec : c.codec.isNullable with
    | true => simp
    | false =>
      cases hflag : c.isRowidAlias with
      | true =>
        obtain ⟨hinteger, key, hkey, -⟩ := Column.isRowidAlias_iff.mp hflag
        obtain ⟨-, hnone⟩ := h.primaryKey_eq hc (Column.isPrimaryKey_iff.mpr ⟨key, hkey⟩)
        simp [hsaid hflag, hnone]
      | false => simp [hunsaid hflag]
  · have hflag := h.isRowidAlias_of_autoIncrement hc hmem hauto
    exact ⟨hflag, h.rowidAlias_of_said hc hflag⟩

/-- A key that counts up stands for the row number, and says so. -/
theorem aliasSaid_autoIncrement :
    let calls : List TableCall := [
      .column "id" .long [.autoIncrement], .column "n" (.nullable .text) [.unique]]
    ∃ t, (TableCall.runAll calls ({ name := ⟨"t"⟩ }, 0)).1.build = .ok t ∧
      ∃ c ∈ t.columns, t.AliasSaid c ∧ t.RowidAlias c ∧ c.isNullable = true := by
  intro calls
  have hbuilt : ∀ t, (TableCall.runAll calls ({ name := ⟨"t"⟩ }, 0)).1.build = .ok t → t.Built :=
    fun t ht => ⟨_, _, (TableBuilder.Reached.start ⟨"t"⟩ 0).runAll calls, ht⟩
  have hsaid := aliasSaid (hbuilt _ rfl) List.mem_cons_self
  exact ⟨_, rfl, _, List.mem_cons_self, hsaid, (hsaid.said rfl).mpr rfl, rfl⟩

end Table.Built

/-- **Both cases happen.** A column that was declared without a key stands for
the row number when the table gets it as its key, and does not say so; and one
that was declared with a key that counts up says that it does, when the table
has no row numbers. -/
theorem Table.rowidAlias_said_wrongly :
    (let id : Column :=
        { id := 0, table := ⟨"t"⟩, name := ⟨"id"⟩, codec := .long, constraints := [],
          default? := none }
      ∃ t, (TableCall.runAll [.column "id" .long [], .primaryKey [id]]
          ({ name := ⟨"t"⟩ }, 0)).1.build = .ok t ∧
        id ∈ t.columns ∧ t.RowidAlias id ∧ id.isNullable = false) ∧
    ∃ t, (TableCall.runAll [.column "id" .long [.autoIncrement], .withoutRowid]
        ({ name := ⟨"t"⟩ }, 0)).1.build = .ok t ∧
      ∃ c ∈ t.columns, (∃ key, .primaryKey key ∈ c.constraints ∧ key.autoIncrement = true) ∧
        c.codec.isNullable = false ∧ ¬ t.RowidAlias c ∧ c.isNullable = true := by
  constructor
  · exact ⟨_, rfl, List.mem_cons_self, ⟨rfl, rfl, nofun, rfl⟩, rfl⟩
  · exact ⟨_, rfl, _, List.mem_cons_self, ⟨_, List.mem_cons_self, rfl⟩, rfl,
      fun halias => Bool.noConfusion halias.rowid, rfl⟩

end TypedSql

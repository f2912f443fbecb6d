import TypedSql.Proofs.Schema.ForeignColumns
import TypedSql.Proofs.Schema.Identities

/-!
# Columns in the hands of a program

A builder hands a column out when it is declared, and from then on the program
may name it wherever it likes: to that builder, to another one, in a statement
or a trigger of any table. `TableProgram` is a program that declares any number
of tables at once, with all the columns that it was handed.

A table tells its columns by its name, and two builders may have one name. So
what a table takes is what was handed out under its name
(`TableProgram.Takes`), and every column of a key, an index, a statement or a
trigger of it is one of those. They are the table's own columns unless another
builder of the name handed one out, and then that one is taken as well
(`TableProgram.Guards`). A column that was handed out under another name is
refused by each of the calls (`TableProgram.Reachable.told_by_name`).
-/

namespace TypedSql

/-- The columns that a call names as those of the table. -/
def TableCall.named : TableCall → List Column
  | primaryKey columns => columns
  | index _ columns _ => columns
  | _ => []

/-- **A column that was handed out.** -/
structure Handle where
  /-- The builder that did. -/
  builder : Nat
  /-- The column. -/
  column : Column

/-- Whether a column was handed out. -/
def Handed (handles : List Handle) (c : Column) : Prop := ∃ i, ⟨i, c⟩ ∈ handles

/-- **Whether a table of a name takes a column**: one that was handed out under
the name. -/
structure Takes (handles : List Handle) (table : Identifier) (c : Column) : Prop where
  /-- It was handed out. -/
  handed : Handed handles c
  /-- It has the name of the table. -/
  named : c.table = table

theorem Takes.mono {handles more : List Handle} {table : Identifier} {c : Column}
    (h : Takes handles table c) : Takes (handles ++ more) table c := by
  obtain ⟨i, hi⟩ := h.handed
  exact ⟨⟨i, List.mem_append_left more hi⟩, h.named⟩

/-- **A table that was built.** -/
structure BuiltTable where
  /-- The builder that gave it. -/
  builder : Nat
  /-- The table. -/
  table : Table

/-- **A program that declares tables.** -/
structure TableProgram where
  /-- The next identity. -/
  next : ExprId := 0
  /-- The builders in the order in which they were opened; nothing is left of one
  that gave its table. -/
  builders : List (Option TableBuilder) := []
  /-- The columns that it was handed. -/
  handles : List Handle := []
  /-- The tables that were built. -/
  tables : List BuiltTable := []

namespace TableProgram

/-- Whether a builder is there. -/
def Holds (p : TableProgram) (i : Nat) (b : TableBuilder) : Prop := p.builders[i]? = some (some b)

/-- The program after a call, which hands out the columns that it adds. -/
def call (p : TableProgram) (i : Nat) (b : TableBuilder) (c : TableCall) : TableProgram :=
  let (_, b', next) := TableCall.call (b, p.next) c
  { p with
    next
    builders := p.builders.set i (some b')
    handles := p.handles ++ (b'.columns.drop b.columns.length).map (Handle.mk i) }

/-- **One operation of a program.** Calls may be refused, and name columns that
were handed out, by whichever builder. -/
inductive Step (p : TableProgram) : TableProgram → Prop
  /-- Identities are taken for something else. -/
  | skip {n : ExprId} : p.next ≤ n → Step p { p with next := n }
  /-- A builder is opened. -/
  | opened (name : Identifier) : Step p { p with builders := p.builders ++ [some { name }] }
  /-- A builder is called. -/
  | called {i : Nat} {b : TableBuilder} (c : TableCall) : p.Holds i b →
    (∀ column ∈ c.named, Handed p.handles column) → Step p (p.call i b c)
  /-- A builder gives its table. -/
  | built {i : Nat} {b : TableBuilder} {t : Table} : p.Holds i b → b.build = .ok t →
    Step p { p with builders := p.builders.set i none, tables := ⟨i, t⟩ :: p.tables }
  /-- A builder is given up, or refuses to give a table. -/
  | givenUp {i : Nat} {b : TableBuilder} : p.Holds i b →
    Step p { p with builders := p.builders.set i none }

/-- **The programs that there are.** -/
inductive Reachable : TableProgram → Prop
  /-- Nothing was declared. -/
  | start (n : ExprId) : Reachable { next := n }
  /-- One operation more. -/
  | step {p q : TableProgram} : Reachable p → Step p q → Reachable q

/-! ## What every program keeps

The invariant is about who handed a column out. A handle is the place of a
builder and the column, so that two builders of one name stay two; the columns
of a table are those with its own place, and what its key names are columns
that were handed out under its name, by whichever builder. A step changes one
builder at most, and for the others there are frame lemmas
(`Accounted.builder_ne`, `Kept.mono`). -/

/-- **What there is of a table**, while it is built and afterwards. -/
structure Kept (handles : List Handle) (i : Nat) (name : Identifier) (columns key : List Column)
    (indices : List (List Identifier)) : Prop where
  /-- Its builder handed out its columns and no others. -/
  own : ∀ c, ⟨i, c⟩ ∈ handles ↔ c ∈ columns
  /-- They have its name. -/
  table : ∀ c ∈ columns, c.table = name
  /-- Its key is over columns that it takes. -/
  key : ∀ c ∈ key, Takes handles name c
  /-- Its indices name columns that it takes. -/
  index : ∀ names ∈ indices, ∀ n ∈ names, ∃ c, Takes handles name c ∧ c.name = n

/-- What there is of the table of a draft. -/
def KeptDraft (handles : List Handle) (i : Nat) (d : TableDraft) : Prop :=
  Kept handles i d.name d.columns d.compositeKey (d.indices.map IndexSpec.columns)

/-- What there is of a table that was built. -/
def KeptTable (handles : List Handle) (i : Nat) (t : Table) : Prop :=
  Kept handles i t.name t.columns t.compositeKey (t.indices.map Index.columns)

/-- **A program whose columns are accounted for.** -/
structure Accounted (p : TableProgram) : Prop where
  /-- A builder is that of a draft. -/
  builders : ∀ i b, p.Holds i b →
    ∃ d : TableDraft, b = d.builder ∧ d.builder.Sound ∧ KeptDraft p.handles i d
  /-- A table is all that is left of its builder. -/
  tables : ∀ x ∈ p.tables, p.builders[x.builder]? = some none ∧
    KeptTable p.handles x.builder x.table
  /-- A column was handed out by one of the builders, with an identity that was
  taken. -/
  handles : ∀ h ∈ p.handles, h.builder < p.builders.length ∧ h.column.id < p.next
  /-- No two of them have one identity. -/
  ids : (p.handles.map fun h => h.column.id).Nodup

/-- What other builders hand out changes nothing. -/
theorem Kept.mono {i : Nat} {name : Identifier} {columns key : List Column}
    {indices : List (List Identifier)} {handles more : List Handle}
    (h : Kept handles i name columns key indices) (hmore : ∀ h ∈ more, h.builder ≠ i) :
    Kept (handles ++ more) i name columns key indices where
  own c := by
    rw [List.mem_append, h.own, or_iff_left]
    exact fun hc => hmore _ hc rfl
  table := h.table
  key c hc := (h.key c hc).mono
  index names hnames n hn := by
    obtain ⟨c, hc, hname⟩ := h.index names hnames n hn
    exact ⟨c, hc.mono, hname⟩

/-- **A declaration keeps what there is of its table**, if the columns that it
names were handed out and the column that it adds is. -/
theorem KeptDraft.declares {handles : List Handle} {i : Nat} {d d' : TableDraft} {c : TableCall}
    {more : List Column} (h : KeptDraft handles i d) (hd : d.Declares c d')
    (hsound : d'.builder.Sound) (hnamed : ∀ column ∈ c.named, Handed handles column)
    (hcolumns : d'.columns = d.columns ++ more) :
    KeptDraft (handles ++ more.map (Handle.mk i)) i d' := by
  have hown : ∀ column, ⟨i, column⟩ ∈ handles ++ more.map (Handle.mk i) ↔
      column ∈ d'.columns := by
    intro column
    rw [hcolumns, List.mem_append, h.own, List.mem_append]
    simp
  have htable : ∀ column ∈ d'.columns, column.table = d'.name := hsound.own
  have hkey : ∀ column ∈ d.compositeKey,
      Takes (handles ++ more.map (Handle.mk i)) d.name column :=
    fun column hcolumn => (h.key column hcolumn).mono
  have hindex : ∀ names ∈ d.indices.map IndexSpec.columns, ∀ n ∈ names,
      ∃ c, Takes (handles ++ more.map (Handle.mk i)) d.name c ∧ c.name = n := by
    intro names hnames n hn
    obtain ⟨column, hcolumn, hname⟩ := h.index names hnames n hn
    exact ⟨column, hcolumn.mono, hname⟩
  have htakes : ∀ columns : List Column, (∀ column ∈ columns, Handed handles column) →
      (∀ column ∈ columns, column.table = d.name) →
      ∀ column ∈ columns, Takes (handles ++ more.map (Handle.mk i)) d.name column :=
    fun columns hhanded htables column hcolumn =>
      Takes.mono ⟨hhanded column hcolumn, htables column hcolumn⟩
  refine ⟨hown, htable, ?_, ?_⟩
  · cases hd with
    | primaryKey _ _ htables _ => exact htakes _ hnamed htables
    | column | index | check | withoutRowid => exact hkey
  · cases hd with
    | @column name codec clauses id draft _ _ _ =>
      -- a column that has an index is named in it, and handed out with it
      have hnew : draft.column ∈ (d.withColumn draft).columns :=
        List.mem_append_right _ List.mem_cons_self
      have htaken : Takes (handles ++ more.map (Handle.mk i)) d.name draft.column :=
        ⟨⟨i, (hown _).mpr hnew⟩, htable _ hnew⟩
      show ∀ names ∈ (d.indices ++ _).map IndexSpec.columns, _
      rw [List.map_append]
      refine List.forall_mem_append.mpr ⟨hindex, ?_⟩
      cases draft.index? with
      | none => exact List.forall_mem_nil _
      | some unique =>
        exact List.forall_mem_singleton.mpr (List.forall_mem_singleton.mpr ⟨_, htaken, rfl⟩)
    | @index name? columns unique _ htables =>
      show ∀ names ∈ (d.indices ++ _).map IndexSpec.columns, _
      rw [List.map_append]
      refine List.forall_mem_append.mpr ⟨hindex, List.forall_mem_singleton.mpr fun n hn => ?_⟩
      obtain ⟨column, hcolumn, hname⟩ := List.mem_map.mp hn
      exact ⟨column, htakes columns hnamed htables column hcolumn, hname⟩
    | primaryKey | check | withoutRowid => exact hindex

variable {p q : TableProgram}

/-- **What a call hands out**: nothing, or one column with a new identity. The
builder is that of a draft again, and what there is of its table is kept. -/
theorem Accounted.call_spec (h : p.Accounted) {i : Nat} {b : TableBuilder} (hb : p.Holds i b)
    {c : TableCall} (hnamed : ∀ column ∈ c.named, Handed p.handles column) :
    ∃ (n : ExprId) (d : TableDraft) (more : List Column),
      p.call i b c =
        { p with
          next := n
          builders := p.builders.set i (some d.builder)
          handles := p.handles ++ more.map (Handle.mk i) } ∧
      p.next ≤ n ∧ (more = [] ∨ ∃ column, more = [column] ∧ column.id = p.next ∧ p.next < n) ∧
      d.builder.Sound ∧ KeptDraft (p.handles ++ more.map (Handle.mk i)) i d := by
  obtain ⟨d, rfl, hsound, hkept⟩ := h.builders i b hb
  obtain ⟨hnext, hids⟩ := TableCall.advances d p.next c
  have hcall := TableCall.call_builder d p.next c
  rcases hrun : (c.declare d).run.run p.next with ⟨e | d', n⟩
  · rw [hrun] at hcall hnext
    refine ⟨n, d, [], ?_, hnext, .inl rfl, hsound, hkept.mono (List.forall_mem_nil _)⟩
    rw [call, hcall]
    simp only [List.drop_length]
  · rw [hrun] at hcall hnext hids
    have hdeclares := TableDraft.declares hrun
    have hsound' := hdeclares.sound hsound
    obtain ⟨more, hcolumns, hmore⟩ : ∃ more, d'.columns = d.columns ++ more ∧
        (more = [] ∨ ∃ column, more = [column] ∧ column.id = p.next ∧ p.next < n) := by
      obtain hsame | ⟨column, hadded, hid, hlt⟩ := hids d' rfl
      · exact ⟨[], hsame.trans (List.append_nil _).symm, .inl rfl⟩
      · exact ⟨[column], hadded, .inr ⟨column, rfl, hid, hlt⟩⟩
    refine ⟨n, d', more, ?_, hnext, hmore, hsound',
      hkept.declares hdeclares hsound' hnamed hcolumns⟩
    have hdrop : d'.builder.columns.drop d.builder.columns.length = more := by
      show d'.columns.drop d.columns.length = more
      rw [hcolumns, List.drop_left]
    rw [call, hcall]
    simp only [hdrop]

/-- What stands in the place of a builder, and the others. -/
theorem holds_set {i j : Nat} {b? : Option TableBuilder} {b : TableBuilder}
    (h : (p.builders.set i b?)[j]? = some (some b)) :
    j = i ∧ b? = some b ∨ j ≠ i ∧ p.Holds j b := by
  by_cases hj : i = j
  · subst hj
    rw [List.getElem?_set_self'] at h
    obtain ⟨_, -, heq⟩ := Option.map_eq_some_iff.mp h
    exact .inl ⟨rfl, heq⟩
  · rw [List.getElem?_set_ne hj] at h
    exact .inr ⟨Ne.symm hj, h⟩

/-- A table is not touched by what happens to a builder that is there. -/
theorem Accounted.builder_ne (h : p.Accounted) {i : Nat} {b : TableBuilder} (hb : p.Holds i b)
    {x : BuiltTable} (hx : x ∈ p.tables) : i ≠ x.builder := by
  rintro rfl
  rw [Holds, (h.tables x hx).1] at hb
  cases hb

/-- A builder that is closed. -/
theorem Accounted.closed (h : p.Accounted) {i : Nat} {b : TableBuilder} (hb : p.Holds i b) :
    Accounted { p with builders := p.builders.set i none } where
  builders j b' hb' := by
    obtain ⟨-, hnone⟩ | ⟨-, hold⟩ := holds_set hb'
    · cases hnone
    · exact h.builders j b' hold
  tables x hx := by
    refine ⟨?_, (h.tables x hx).2⟩
    rw [List.getElem?_set_ne (h.builder_ne hb hx)]
    exact (h.tables x hx).1
  handles x hx := by
    rw [List.length_set]
    exact h.handles x hx
  ids := h.ids

/-- A builder that is opened has handed out nothing. -/
theorem Accounted.opened (h : p.Accounted) (name : Identifier) :
    Accounted { p with builders := p.builders ++ [some { name }] } where
  builders i b hb := by
    by_cases hi : i < p.builders.length
    · rw [Holds, List.getElem?_append_left hi] at hb
      exact h.builders i b hb
    · have hnone : ∀ c, (⟨i, c⟩ : Handle) ∉ p.handles := fun c hc => hi (h.handles _ hc).1
      rw [Holds, List.getElem?_append_right (Nat.le_of_not_lt hi)] at hb
      obtain rfl := Option.some.inj (List.mem_singleton.mp (List.mem_of_getElem? hb))
      refine ⟨{ name }, rfl, ?_, fun c => iff_of_false (hnone c) List.not_mem_nil, nofun, nofun,
        nofun⟩
      exact ⟨List.nodup_nil, nofun, rfl, Nat.zero_le 1, fun _ => rfl, List.nodup_nil, nofun⟩
  tables x hx := by
    obtain ⟨hclosed, hkept⟩ := h.tables x hx
    refine ⟨?_, hkept⟩
    rw [List.getElem?_append_left (List.getElem?_eq_some_iff.mp hclosed).1]
    exact hclosed
  handles x hx := by
    obtain ⟨hbuilder, hid⟩ := h.handles x hx
    rw [List.length_append]
    exact ⟨Nat.lt_add_right _ hbuilder, hid⟩
  ids := h.ids

/-- A call keeps the columns accounted for. -/
theorem Accounted.called (h : p.Accounted) {i : Nat} {b : TableBuilder} (hb : p.Holds i b)
    {c : TableCall} (hnamed : ∀ column ∈ c.named, Handed p.handles column) :
    (p.call i b c).Accounted := by
  obtain ⟨n, d, more, hcall, hnext, hmore, hsound, hkept⟩ := h.call_spec hb hnamed
  have hlt : i < p.builders.length := (List.getElem?_eq_some_iff.mp hb).1
  -- nothing is handed out by another builder
  have hothers : ∀ j, i ≠ j → ∀ x ∈ more.map (Handle.mk i), x.builder ≠ j := by
    intro j hj x hx
    obtain ⟨column, -, rfl⟩ := List.mem_map.mp hx
    exact hj
  rw [hcall]
  refine ⟨fun j b' hb' => ?_, fun x hx => ?_, ?_, ?_⟩
  · obtain ⟨rfl, hd⟩ | ⟨hne, hold⟩ := holds_set hb'
    · exact ⟨d, (Option.some.inj hd).symm, hsound, hkept⟩
    · obtain ⟨d', hd', hsound', hkept'⟩ := h.builders j b' hold
      exact ⟨d', hd', hsound', hkept'.mono (hothers j hne.symm)⟩
  · have hne := h.builder_ne hb hx
    obtain ⟨hclosed, hkept'⟩ := h.tables x hx
    refine ⟨?_, hkept'.mono (hothers _ hne)⟩
    rw [List.getElem?_set_ne hne]
    exact hclosed
  · rw [List.length_set]
    refine List.forall_mem_append.mpr ⟨fun x hx => ?_, fun x hx => ?_⟩
    · exact ⟨(h.handles x hx).1, Nat.lt_of_lt_of_le (h.handles x hx).2 hnext⟩
    · obtain ⟨column, hcolumn, rfl⟩ := List.mem_map.mp hx
      obtain rfl | ⟨new, rfl, hid, hnew⟩ := hmore
      · cases hcolumn
      · obtain rfl := List.mem_singleton.mp hcolumn
        exact ⟨hlt, hid ▸ hnew⟩
  · rw [List.map_append]
    obtain rfl | ⟨new, rfl, hid, hnew⟩ := hmore
    · rw [List.map_nil, List.map_nil, List.append_nil]
      exact h.ids
    · refine List.nodup_append'.mpr ⟨h.ids, List.nodup_singleton _, ?_⟩
      rw [List.map_singleton, List.map_singleton, List.disjoint_singleton, hid]
      intro hmem
      obtain ⟨x, hx, heq⟩ := List.mem_map.mp hmem
      exact Nat.ne_of_lt (h.handles x hx).2 heq

/-- A table that is built has what there was of it. -/
theorem Accounted.built (h : p.Accounted) {i : Nat} {b : TableBuilder} {t : Table}
    (hb : p.Holds i b) (hbuild : b.build = .ok t) :
    Accounted { p with builders := p.builders.set i none, tables := ⟨i, t⟩ :: p.tables } := by
  have hclosed := h.closed hb
  obtain ⟨d, rfl, hsound, hkept⟩ := h.builders i b hb
  rw [TableDraft.build_builder hsound] at hbuild
  obtain ⟨-, -, rfl⟩ := TableDraft.of_build hbuild
  have hindices : d.table.indices.map Index.columns = d.indices.map IndexSpec.columns := by
    show (d.indices.map fun s => s.index d.name).map Index.columns = _
    rw [List.map_map]
    rfl
  refine ⟨hclosed.builders, List.forall_mem_cons.mpr ⟨⟨?_, ?_⟩, hclosed.tables⟩,
    hclosed.handles, hclosed.ids⟩
  · exact List.getElem?_set_self (List.getElem?_eq_some_iff.mp hb).1
  · rw [KeptTable, hindices]
    exact hkept

/-- **An operation keeps the columns accounted for.** -/
theorem Accounted.step (h : p.Accounted) (hstep : p.Step q) : q.Accounted := by
  cases hstep with
  | skip hn =>
    exact ⟨h.builders, h.tables, fun x hx => ⟨(h.handles x hx).1,
      Nat.lt_of_lt_of_le (h.handles x hx).2 hn⟩, h.ids⟩
  | opened name => exact h.opened name
  | called c hb hnamed => exact h.called hb hnamed
  | built hb hbuild => exact h.built hb hbuild
  | givenUp hb => exact h.closed hb

/-- **In every program the columns are accounted for.** -/
theorem Reachable.accounted (h : p.Reachable) : p.Accounted := by
  induction h with
  | start n =>
    exact ⟨nofun, List.forall_mem_nil _, List.forall_mem_nil _, List.nodup_nil⟩
  | step _ hstep ih => exact ih.step hstep

end TableProgram

/-! ## What a table takes

Six calls are judged by one relation (`Lists`), with the columns that were
handed out in the place of those that a call names. What remains is to say when
a column that is taken is the table's own: always, unless another builder has
handed one out under the same name, and both directions are needed for it to be
exact. -/

/-- **What naming columns comes to** that were handed out: the first that has
another name than the table is refused, and otherwise what is listed are names
of columns that the table takes. -/
structure ListsTaken (handles : List Handle) (table : Identifier)
    (fault : Column → ConstructionError) (columns : List Column)
    (result : Except ConstructionError (List Identifier)) : Prop where
  /-- The columns are refused or listed. -/
  lists : Lists table fault columns result
  /-- What is listed is taken. -/
  taken : ∀ names, result = .ok names → ∀ name ∈ names,
    ∃ c, Takes handles table c ∧ c.name = name

/-- Columns that were handed out and are listed are taken. -/
theorem Lists.taken {handles : List Handle} {table : Identifier}
    {fault : Column → ConstructionError} {columns : List Column}
    {result : Except ConstructionError (List Identifier)}
    (h : Lists table fault columns result) (hhanded : ∀ c ∈ columns, Handed handles c) :
    ListsTaken handles table fault columns result := by
  refine ⟨h, fun names hnames name hname => ?_⟩
  subst hnames
  cases h with
  | listed hown hlisted =>
    obtain ⟨c, hc, hcname⟩ := (hlisted name).mp hname
    exact ⟨c, ⟨hhanded c hc, foreignAmong?_eq_none_iff.mp hown c hc⟩, hcname⟩

namespace TableProgram

/-- **How a builder looks at columns** that were handed out, if nothing else
stands against the call. -/
structure GuardsBuilder (p : TableProgram) (b : TableBuilder) : Prop where
  /-- The first key, over columns of distinct names. -/
  key : ∀ columns : List Column, b.hasKey = false → columns ≠ [] →
    (columns.map Column.name).Nodup → (∀ c ∈ columns, Handed p.handles c) →
    ListsTaken p.handles b.name b.name.foreign columns (b.keyNames p.next columns)
  /-- An index. -/
  index : ∀ (name? : Option String) (columns : List Column) (unique : Bool), columns ≠ [] →
    (∀ c ∈ columns, Handed p.handles c) →
    ListsTaken p.handles b.name b.name.foreign columns (b.indexNames p.next name? columns unique)

/-- **How a table is guarded** against columns that are not its own. -/
structure Guards (p : TableProgram) (x : BuiltTable) : Prop where
  /-- Its builder handed out its columns and no others. -/
  own : ∀ c, ⟨x.builder, c⟩ ∈ p.handles ↔ c ∈ x.table.columns
  /-- What it takes beside its columns are those that another builder handed out
  under its name. -/
  stray : ∀ c, Takes p.handles x.table.name c ∧ c ∉ x.table.columns ↔
    c.table = x.table.name ∧ ∃ i, i ≠ x.builder ∧ ⟨i, c⟩ ∈ p.handles
  /-- If there are none of those, it takes its columns alone. -/
  sole : (∀ h ∈ p.handles, h.column.table = x.table.name → h.builder = x.builder) →
    ∀ c, Takes p.handles x.table.name c ↔ c ∈ x.table.columns
  /-- Its key is over columns that it takes. -/
  key : ∀ c ∈ x.table.compositeKey, Takes p.handles x.table.name c
  /-- Its indices name columns that it takes. -/
  index : ∀ k ∈ x.table.indices, ∀ name ∈ k.columns,
    ∃ c, Takes p.handles x.table.name c ∧ c.name = name
  /-- A statement that adds a row. -/
  insert : ∀ (values : List Assignment) (onConflict : OnConflict),
    (∀ c ∈ values.map Assignment.column, Handed p.handles c) →
    ListsTaken p.handles x.table.name x.table.name.foreignAssigned
      (values.map Assignment.column)
      ((Insert.of? onConflict (Assignments.setAll { table := x.table.name } values)).map
        fun s => s.entries.map Prod.fst)
  /-- A statement that changes rows, if it assigns anything. -/
  update : ∀ (values : List Assignment) (onConflict : OnConflict), values ≠ [] →
    (∀ c ∈ values.map Assignment.column, Handed p.handles c) →
    ListsTaken p.handles x.table.name x.table.name.foreignAssigned
      (values.map Assignment.column)
      ((Update.of? onConflict (Assignments.setAll { table := x.table.name } values)).map
        fun s => s.entries.map Prod.fst)
  /-- The columns behind `UPDATE OF` in a trigger on changed rows. -/
  updateOf : ∀ (h : TriggerHead) (parts : List (List Column)), h.table = x.table →
    h.event = .update → h.error? = none → h.updateOf = [] →
    (∀ c ∈ parts.flatten, Handed p.handles c) →
    ListsTaken p.handles x.table.name x.table.name.foreign parts.flatten
      ((Trigger.start (parts.foldl TriggerHead.onUpdateOf h)).map fun d => d.head.updateOf)
  /-- A reference to a row that the event of a trigger has. -/
  reference : ∀ (d : TriggerDraft) (n : ExprId) (scope : RowScope) (c : Column),
    d.head.table = x.table → scope.existsIn d.head.event = true → Handed p.handles c →
    ListsTaken p.handles x.table.name (d.foreign scope) [c] (d.referenceNames n scope c)

variable {p : TableProgram}

/-- A column is handed out once. -/
theorem Accounted.builder_eq (h : p.Accounted) {i j : Nat} {c : Column}
    (hi : ⟨i, c⟩ ∈ p.handles) (hj : ⟨j, c⟩ ∈ p.handles) : i = j :=
  congrArg Handle.builder (List.inj_on_of_nodup_map h.ids hi hj rfl)

/-- **A builder looks at columns** by the name of its table. -/
theorem Accounted.guardsBuilder (h : p.Accounted) {i : Nat} {b : TableBuilder}
    (hb : p.Holds i b) : p.GuardsBuilder b := by
  obtain ⟨d, rfl, -, -⟩ := h.builders i b hb
  constructor
  · exact fun columns hkey hne hnodup hhanded =>
      (TableDraft.lists_key (d := d) hkey hne hnodup p.next).taken hhanded
  · exact fun name? columns unique hne hhanded =>
      (TableDraft.lists_index (d := d) hne p.next name? unique).taken hhanded

/-- **A table looks at columns** by its name. -/
theorem Accounted.guards (h : p.Accounted) {x : BuiltTable} (hx : x ∈ p.tables) :
    p.Guards x := by
  obtain ⟨-, hkept⟩ := h.tables x hx
  have hstray : ∀ c, Takes p.handles x.table.name c ∧ c ∉ x.table.columns ↔
      c.table = x.table.name ∧ ∃ i, i ≠ x.builder ∧ ⟨i, c⟩ ∈ p.handles := by
    intro c
    constructor
    · rintro ⟨⟨⟨i, hi⟩, htable⟩, hnot⟩
      refine ⟨htable, i, fun heq => hnot ((hkept.own c).mp (heq ▸ hi)), hi⟩
    · rintro ⟨htable, i, hne, hi⟩
      refine ⟨⟨⟨i, hi⟩, htable⟩, fun hc => hne ?_⟩
      exact h.builder_eq hi ((hkept.own c).mpr hc)
  refine ⟨hkept.own, hstray, fun hsole c => ⟨?_, ?_⟩, hkept.key, ?_, ?_, ?_, ?_, ?_⟩
  · rintro ⟨⟨i, hi⟩, htable⟩
    obtain rfl : i = x.builder := hsole _ hi htable
    exact (hkept.own c).mp hi
  · exact fun hc => ⟨⟨x.builder, (hkept.own c).mpr hc⟩, hkept.table c hc⟩
  · exact fun k hk => hkept.index k.columns (List.mem_map_of_mem hk)
  · exact fun values onConflict hhanded =>
      (Assignments.lists_insert x.table.name values onConflict).taken hhanded
  · exact fun values onConflict hne hhanded =>
      (Assignments.lists_update x.table.name hne onConflict).taken hhanded
  · intro head parts htable hevent herror hnames hhanded
    have hlists := TriggerHead.lists_updateOf hevent herror hnames parts
    rw [htable] at hlists
    exact hlists.taken hhanded
  · intro d n scope c htable hrow hhanded
    have hlists := d.lists_reference hrow n c
    rw [htable] at hlists
    exact hlists.taken (List.forall_mem_singleton.mpr hhanded)

/-- **Columns are told by the name of their table**, in every program. Whatever
builders there are and whatever they handed out, each call that names columns
refuses the first that was handed out under another name; and what gets into
the key, the indices, the statements and the triggers of a table are columns
that were handed out under its name. They are its own columns, unless another
builder of the name handed one out. -/
theorem Reachable.told_by_name (h : p.Reachable) :
    (∀ i b, p.Holds i b → p.GuardsBuilder b) ∧ ∀ x ∈ p.tables, p.Guards x :=
  ⟨fun _ _ hb => h.accounted.guardsBuilder hb, fun _ hx => h.accounted.guards hx⟩

/-- Two builders of one name, of which the second is given the column of the
first for a key and for an index. -/
theorem reachable_same_name :
    let x : Column := ⟨0, ⟨"t"⟩, ⟨"x"⟩, .long, [], none⟩
    let y : Column := ⟨1, ⟨"t"⟩, ⟨"y"⟩, .long, [], none⟩
    let t : Table := ⟨⟨"t"⟩, [y], [x], [], [⟨⟨"t_x"⟩, ⟨"t"⟩, [⟨"x"⟩], false⟩], [], false⟩
    Reachable
      { next := 2, builders := [some { name := ⟨"t"⟩, columns := [x] }, none],
        handles := [⟨0, x⟩, ⟨1, y⟩], tables := [⟨1, t⟩] } := by
  intro x y t
  have first := ((Reachable.start 0).step (.opened ⟨"t"⟩)).step
    (.called (i := 0) (.column "x" .long []) rfl (List.forall_mem_nil _))
  have second := (first.step (.opened ⟨"t"⟩)).step
    (.called (i := 1) (.column "y" .long []) rfl (List.forall_mem_nil _))
  have key := second.step (.called (i := 1) (.primaryKey [x]) rfl
    (List.forall_mem_singleton.mpr ⟨0, List.mem_cons_self⟩))
  have index := key.step (.called (i := 1) (.index none [x] false) rfl
    (List.forall_mem_singleton.mpr ⟨0, List.mem_cons_self⟩))
  exact index.step (.built (i := 1) (t := t) rfl rfl)

/-- The table of two builders of one name takes a column beside its own. -/
theorem guards_same_name :
    let x : Column := ⟨0, ⟨"t"⟩, ⟨"x"⟩, .long, [], none⟩
    let y : Column := ⟨1, ⟨"t"⟩, ⟨"y"⟩, .long, [], none⟩
    let b : TableBuilder := { name := ⟨"t"⟩, columns := [x] }
    let t : Table := ⟨⟨"t"⟩, [y], [x], [], [⟨⟨"t_x"⟩, ⟨"t"⟩, [⟨"x"⟩], false⟩], [], false⟩
    let p : TableProgram :=
      { next := 2, builders := [some b, none], handles := [⟨0, x⟩, ⟨1, y⟩], tables := [⟨1, t⟩] }
    p.Reachable ∧ p.GuardsBuilder b ∧ p.Guards ⟨1, t⟩ ∧
      Takes p.handles t.name x ∧ x ∉ t.columns := by
  intro x y b t p
  have hguards := reachable_same_name.told_by_name
  have htable := hguards.2 ⟨1, t⟩ List.mem_cons_self
  have hstray := (htable.stray x).mpr ⟨rfl, 0, nofun, List.mem_cons_self⟩
  exact ⟨reachable_same_name, hguards.1 0 b rfl, htable, hstray⟩

/-- **A column that the table does not have** gets into its key, into an index
of it, into statements that add and change rows, behind `UPDATE OF` and into a
reference to the row of a trigger: a builder of the same name handed it out. -/
theorem exists_stray :
    ∃ p : TableProgram, p.Reachable ∧ ∃ x ∈ p.tables, ∃ c, Handed p.handles c ∧
      c.name ∉ x.table.columns.map Column.name ∧ c ∈ x.table.compositeKey ∧
      (∃ k ∈ x.table.indices, c.name ∈ k.columns) ∧
      (Insert.of? .unspecified
        (Assignments.setAll { table := x.table.name } [⟨c, .slot⟩])).map
          (fun s => s.entries.map Prod.fst) = .ok [c.name] ∧
      (Update.of? .unspecified
        (Assignments.setAll { table := x.table.name } [⟨c, .slot⟩])).map
          (fun s => s.entries.map Prod.fst) = .ok [c.name] ∧
      let head : TriggerHead :=
        { name := ⟨"upd"⟩, table := x.table, timing := .after, event := .update }
      (Trigger.start (head.onUpdateOf [c])).map (fun d => d.head.updateOf) = .ok [c.name] ∧
      TriggerDraft.referenceNames { head } 0 .new c = .ok [c.name] := by
  refine ⟨_, reachable_same_name, _, List.mem_cons_self, ⟨0, ⟨"t"⟩, ⟨"x"⟩, .long, [], none⟩,
    ⟨0, List.mem_cons_self⟩, ?_, List.mem_cons_self, ⟨_, List.mem_cons_self, List.mem_cons_self⟩,
    rfl, rfl, rfl, rfl⟩
  decide

end TableProgram

end TypedSql

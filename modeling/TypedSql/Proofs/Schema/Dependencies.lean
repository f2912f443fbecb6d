import TypedSql.Proofs.Order.DepthFirst
import TypedSql.Schema.Dependencies

/-!
# The order in which tables are made

What a list of tables depends on is said without the functions that find it
out: of several tables of one name the first counts (`Dependencies.Counts`),
and a table depends on another one of the list that one of its foreign keys
refers to (`Dependencies.DependsOn`). `Dependencies.mem_targets` says that
these are the edges that are visited, and `Dependencies.creationOrder_spec`
what the visit gives: an order of the tables that count in which each stands
behind those it depends on, or the names along a cycle of dependencies – the
one if there is no such cycle, the other if there is.
-/

namespace TypedSql.Dependencies

variable {tables : List Table}

/-! ## The graph of a list of tables -/

/-- **The tables that count**: of several of one name, the first. -/
def Counts (tables : List Table) (t : Table) : Prop :=
  ∃ pre post, tables = pre ++ t :: post ∧ ∀ s ∈ pre, s.name ≠ t.name

/-- **A table depends on another one** of the list if it has a foreign key
that refers to it. -/
def DependsOn (tables : List Table) (a b : Identifier) : Prop :=
  a ≠ b ∧ (∃ t ∈ tables, t.name = b) ∧
    ∃ t, Counts tables t ∧ t.name = a ∧ ∃ k ∈ t.foreignKeys, k.target.table = b

/-- **No table depends on itself**, directly or through others. -/
def Acyclic (tables : List Table) : Prop :=
  ∀ a, ¬ Relation.TransGen (DependsOn tables) a a

/-- **An order in which tables can be made**: those that count, each of them
once and behind everything it depends on. -/
structure IsOrder (tables order : List Table) : Prop where
  /-- No name twice. -/
  nodup : (order.map Table.name).Nodup
  /-- The tables that count and no others. -/
  mem_iff : ∀ t, t ∈ order ↔ Counts tables t
  /-- What a table depends on stands before it. -/
  before : ∀ pre t post, order = pre ++ t :: post →
    ∀ b, DependsOn tables t.name b → ∃ s ∈ pre, s.name = b

/-- **Names along a cycle**: each depends on the next, the last is the first
again, and between them are others, none of them twice. -/
def NamesCycle (tables : List Table) (names : List String) : Prop :=
  ∃ cycle : List Identifier, names = cycle.map Identifier.name ∧
    Order.Cycle (DependsOn tables) cycle ∧ 3 ≤ cycle.length

/-! ## The tables that count -/

/-- The first table counts, and behind it those of another name that count
there. -/
theorem counts_cons {s t : Table} :
    Counts (s :: tables) t ↔ t = s ∨ t.name ≠ s.name ∧ Counts tables t := by
  constructor
  · rintro ⟨_ | ⟨u, pre⟩, post, heq, hpre⟩
    · exact .inl (List.cons.inj heq).1.symm
    · obtain ⟨rfl, htables⟩ := List.cons.inj heq
      exact .inr ⟨(hpre s List.mem_cons_self).symm, pre, post, htables,
        fun r hr => hpre r (List.mem_cons_of_mem s hr)⟩
  · rintro (rfl | ⟨hne, pre, post, rfl, hpre⟩)
    · exact ⟨[], tables, rfl, by simp⟩
    · refine ⟨s :: pre, post, rfl, fun r hr => ?_⟩
      rcases List.mem_cons.mp hr with rfl | hr
      · exact hne.symm
      · exact hpre r hr

theorem Counts.mem {t : Table} (h : Counts tables t) : t ∈ tables := by
  obtain ⟨pre, post, rfl, -⟩ := h
  exact List.mem_append_right pre List.mem_cons_self

/-- Only one table of a name counts. -/
theorem Counts.eq {s t : Table} (hs : Counts tables s) (ht : Counts tables t)
    (hname : s.name = t.name) : s = t := by
  induction tables with
  | nil => exact absurd hs.mem List.not_mem_nil
  | cons u tables ih =>
    rw [counts_cons] at hs ht
    rcases hs with rfl | ⟨hsu, hs⟩ <;> rcases ht with rfl | ⟨htu, ht⟩
    · rfl
    · exact absurd hname.symm htu
    · exact absurd hname hsu
    · exact ih hs ht

/-- For every name in the list there is a table that counts. -/
theorem exists_counts {t : Table} (h : t ∈ tables) : ∃ s, Counts tables s ∧ s.name = t.name := by
  induction tables with
  | nil => exact absurd h List.not_mem_nil
  | cons u tables ih =>
    by_cases hname : t.name = u.name
    · exact ⟨u, counts_cons.mpr (.inl rfl), hname.symm⟩
    · have htail : t ∈ tables :=
        (List.mem_cons.mp h).resolve_left fun htu => hname (congrArg Table.name htu)
      obtain ⟨s, hs, hst⟩ := ih htail
      exact ⟨s, counts_cons.mpr (.inr ⟨hst ▸ hname, hs⟩), hst⟩

/-- **The tables that are kept** are those that count and have no name of
before. -/
theorem mem_distinctTables {seen : List Identifier} {t : Table} :
    t ∈ distinctTables seen tables ↔ t.name ∉ seen ∧ Counts tables t := by
  induction tables generalizing seen with
  | nil =>
    rw [distinctTables]
    exact ⟨fun h => absurd h List.not_mem_nil, fun h => absurd h.2.mem List.not_mem_nil⟩
  | cons s tables ih =>
    rw [distinctTables, counts_cons]
    by_cases hs : s.name ∈ seen
    · rw [if_pos hs, ih]
      constructor
      · rintro ⟨hseen, ht⟩
        exact ⟨hseen, .inr ⟨fun h => hseen (h ▸ hs), ht⟩⟩
      · rintro ⟨hseen, rfl | ⟨-, ht⟩⟩
        · exact absurd hs hseen
        · exact ⟨hseen, ht⟩
    · rw [if_neg hs, List.mem_cons, ih, List.mem_cons, not_or]
      constructor
      · rintro (rfl | ⟨⟨hts, hseen⟩, ht⟩)
        · exact ⟨hs, .inl rfl⟩
        · exact ⟨hseen, .inr ⟨hts, ht⟩⟩
      · rintro ⟨hseen, rfl | ⟨hts, ht⟩⟩
        · exact .inl rfl
        · exact .inr ⟨⟨hts, hseen⟩, ht⟩

/-- No name is kept twice. -/
theorem nodup_distinctTables (seen : List Identifier) :
    ((distinctTables seen tables).map Table.name).Nodup := by
  induction tables generalizing seen with
  | nil => exact List.nodup_nil
  | cons s tables ih =>
    rw [distinctTables]
    by_cases hs : s.name ∈ seen
    · rw [if_pos hs]
      exact ih seen
    · rw [if_neg hs, List.map_cons, List.nodup_cons]
      refine ⟨fun hmem => ?_, ih _⟩
      obtain ⟨t, ht, hname⟩ := List.mem_map.mp hmem
      exact (mem_distinctTables.mp ht).1 (hname ▸ List.mem_cons_self)

/-! ## What is visited

The visit goes by names, since a foreign key has only the name of the table it
refers to. A name that no table of the list has is left out, and so is the
table itself: a table may refer to its own rows. -/

theorem mem_tables_of {t : Table} : t ∈ (of tables).tables ↔ Counts tables t := by
  rw [of, mem_distinctTables]
  exact and_iff_right List.not_mem_nil

theorem mem_names_of {a : Identifier} : a ∈ (of tables).names ↔ ∃ t ∈ tables, t.name = a := by
  rw [names, List.mem_map]
  constructor
  · rintro ⟨t, ht, hname⟩
    exact ⟨t, (mem_tables_of.mp ht).mem, hname⟩
  · rintro ⟨t, ht, rfl⟩
    obtain ⟨s, hs, hst⟩ := exists_counts ht
    exact ⟨s, mem_tables_of.mpr hs, hst⟩

/-- **A name stands for the table that counts.** -/
theorem table?_of_eq_some {a : Identifier} {t : Table} :
    (of tables).table? a = some t ↔ Counts tables t ∧ t.name = a := by
  rw [table?]
  constructor
  · intro h
    exact ⟨mem_tables_of.mp (List.mem_of_find?_eq_some h), by
      simpa using List.find?_some h⟩
  · rintro ⟨ht, rfl⟩
    cases hfind : (of tables).tables.find? (fun s => s.name == t.name) with
    | none => exact absurd (List.find?_eq_none.mp hfind t (mem_tables_of.mpr ht)) (by simp)
    | some s =>
      have hs := mem_tables_of.mp (List.mem_of_find?_eq_some hfind)
      rw [hs.eq ht (by simpa using List.find?_some hfind)]

/-- **The targets of a name are what its table depends on.** -/
theorem mem_targets {a b : Identifier} : b ∈ (of tables).targets a ↔ DependsOn tables a b := by
  rw [targets]
  cases htable : (of tables).table? a with
  | none =>
    rw [Option.elim_none]
    refine ⟨fun h => absurd h List.not_mem_nil, fun ⟨_, _, t, ht, hname, _⟩ => ?_⟩
    rw [table?_of_eq_some.mpr ⟨ht, hname⟩] at htable
    exact absurd htable (by simp)
  | some t =>
    obtain ⟨ht, rfl⟩ := table?_of_eq_some.mp htable
    rw [Option.elim_some, targetsOf, List.mem_eraseDups, List.mem_filter, List.mem_map,
      Bool.and_eq_true, bne_iff_ne, List.contains_iff_mem, mem_names_of]
    constructor
    · rintro ⟨⟨k, hk, rfl⟩, hne, hmem⟩
      exact ⟨hne.symm, hmem, t, ht, rfl, k, hk, rfl⟩
    · rintro ⟨hne, hmem, s, hs, hname, k, hk, rfl⟩
      rw [hs.eq ht hname] at hk
      exact ⟨⟨k, hk, rfl⟩, hne.symm, hmem⟩

/-- The edges that are visited are the dependencies. -/
theorem targets_eq_dependsOn :
    (fun a b => b ∈ (of tables).targets a) = DependsOn tables := by
  funext a b
  exact propext mem_targets

theorem targets_subset_names (a : Identifier) : (of tables).targets a ⊆ (of tables).names := by
  intro b hb
  obtain ⟨-, hmem, -⟩ := mem_targets.mp hb
  exact mem_names_of.mpr hmem

/-- Tables that are looked up by name have these names. -/
theorem map_name_filterMap_table? {names : List Identifier}
    (h : names ⊆ (of tables).names) :
    (names.filterMap (of tables).table?).map Table.name = names := by
  induction names with
  | nil => rfl
  | cons a names ih =>
    rw [List.cons_subset, mem_names_of] at h
    obtain ⟨⟨t, ht, rfl⟩, htail⟩ := h
    obtain ⟨s, hs, hst⟩ := exists_counts ht
    rw [List.filterMap_cons_some (table?_of_eq_some.mpr ⟨hs, hst⟩), List.map_cons, hst,
      ih htail]

/-- **An arrangement of the names is an order of the tables.** -/
theorem isOrder_filterMap_table? {names : List Identifier}
    (h : Order.Arranged (of tables).targets names) (perm : names.Perm (of tables).names) :
    IsOrder tables (names.filterMap (of tables).table?) := by
  have hnames := map_name_filterMap_table? perm.subset
  constructor
  · rw [hnames]
    exact h.nodup
  · intro t
    rw [List.mem_filterMap]
    constructor
    · rintro ⟨a, -, ha⟩
      exact (table?_of_eq_some.mp ha).1
    · intro ht
      refine ⟨t.name, ?_, table?_of_eq_some.mpr ⟨ht, rfl⟩⟩
      exact perm.mem_iff.mpr (mem_names_of.mpr ⟨t, ht.mem, rfl⟩)
  · intro pre t post heq b hb
    -- a table in the order is its name in the arrangement, at the same place
    rw [heq, List.map_append, List.map_cons] at hnames
    exact List.mem_map.mp (h.before _ _ _ hnames.symm b (mem_targets.mpr hb))

/-! ## The order of creation

From the spec of the visit, which knows nothing of tables, there is one step in
each direction: an arrangement of the names is an order of the tables, and a
walk of names from one to itself is a cycle of dependencies. That the two
exclude each other makes either answer an equivalence. -/

theorem IsOrder.arranged {order : List Table} (h : IsOrder tables order) :
    Order.Arranged (of tables).targets (order.map Table.name) := by
  refine ⟨h.nodup, fun pre a post heq b hb => ?_⟩
  obtain ⟨front, back, rfl, rfl, hback⟩ := List.map_eq_append_iff.mp heq
  obtain ⟨t, rest, rfl, rfl, rfl⟩ := List.map_eq_cons_iff.mp hback
  exact List.mem_map.mpr (h.before front t rest rfl b (mem_targets.mp hb))

/-- **Tables that have an order do not depend on themselves.** -/
theorem IsOrder.acyclic {order : List Table} (h : IsOrder tables order) : Acyclic tables := by
  intro a walk
  obtain ⟨b, ⟨-, -, t, ht, rfl, -⟩, -⟩ := Relation.TransGen.head'_iff.mp walk
  rw [← targets_eq_dependsOn] at walk
  exact h.arranged.not_transGen_self (List.mem_map_of_mem ((h.mem_iff t).mpr ht)) walk

/-- Tables along a cycle depend on themselves. -/
theorem NamesCycle.not_acyclic {names : List String} (h : NamesCycle tables names) :
    ¬ Acyclic tables := by
  obtain ⟨cycle, -, hcycle, -⟩ := h
  obtain ⟨a, -, walk⟩ := hcycle.exists_transGen
  exact fun hacyclic => hacyclic a walk

/-- **An order or a cycle**: the tables in an order in which they can be
made, or the names along a cycle. -/
theorem creationOrder_cases (tables : List Table) :
    (∃ order, (of tables).creationOrder = .ok order ∧ IsOrder tables order) ∨
      ∃ names, (of tables).creationOrder = .error (.cyclicDependency names) ∧
        NamesCycle tables names := by
  have hnodup : (of tables).names.Nodup := nodup_distinctTables []
  have hspec := Order.depthFirst_spec hnodup fun a _ => targets_subset_names a
  rw [targets_eq_dependsOn] at hspec
  unfold creationOrder nameOrder
  cases horder : Order.depthFirst (of tables).names (of tables).targets with
  | ok names =>
    rw [horder] at hspec
    exact .inl ⟨_, rfl, isOrder_filterMap_table? hspec.1 hspec.2⟩
  | error cycle =>
    rw [horder] at hspec
    -- no table depends on itself, so there are two on a cycle
    have hlong := hspec.three_le_length fun a ha => ha.1 rfl
    exact .inr ⟨_, rfl, cycle, rfl, hspec, hlong⟩

theorem isOrder_of_creationOrder {order : List Table}
    (h : (of tables).creationOrder = .ok order) : IsOrder tables order := by
  obtain ⟨order', heq, horder⟩ | ⟨names, heq, -⟩ := creationOrder_cases tables
  · rw [h] at heq
    rwa [Except.ok.inj heq]
  · rw [h] at heq
    cases heq

/-- **The order of creation.** Without a cycle of dependencies it is an
order in which the tables can be made, and they are dropped in the reverse
order. With one, both orders are refused with the names along such a
cycle. -/
theorem creationOrder_spec (tables : List Table) :
    match (of tables).creationOrder with
    | .ok order => Acyclic tables ∧ IsOrder tables order ∧
        (of tables).dropOrder = .ok order.reverse ∧ (of tables).hasCycle = false
    | .error e => ¬ Acyclic tables ∧
        (∃ names, e = .cyclicDependency names ∧ NamesCycle tables names) ∧
        (of tables).dropOrder = .error e ∧ (of tables).hasCycle = true := by
  unfold hasCycle dropOrder
  rcases creationOrder_cases tables with ⟨order, heq, horder⟩ | ⟨names, heq, hcycle⟩
  · rw [heq]
    exact ⟨horder.acyclic, horder, rfl, rfl⟩
  · rw [heq]
    exact ⟨hcycle.not_acyclic, ⟨names, rfl, hcycle⟩, rfl, rfl⟩

end TypedSql.Dependencies

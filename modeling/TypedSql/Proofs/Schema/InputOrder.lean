import TypedSql.Proofs.Order.InputOrder
import TypedSql.Proofs.Schema.Dependencies

/-!
# Tables are made in the order in which they are given

The order of creation moves a table only for the sake of one that depends on
it. When the tables up to some place of the list have been visited, these
and what they depend on are in order, and every other table comes behind
(`Order.exists_closure`); so a table that none of them depends on, directly
or through others, is made after them
(`Dependencies.creationOrder_follows_input`). A list that is an order of its
tables already is the answer, and the answer is such a list.

To have it for tables what is said of names has to be carried back: a table
stands for its name where it counts, which is at the first of several tables of
the name, and more tables behind a list do not change which of its tables count
(`Dependencies.distinctTables_prefix`).
-/

namespace TypedSql.Dependencies

variable {tables : List Table}

/-- **One table stands before another** in a list, behind some others: each of
the two at the place where it counts. -/
def StandsBefore (tables earlier : List Table) (u v : Table) : Prop :=
  ∃ between later, tables = earlier ++ u :: between ++ v :: later ∧
    (∀ s ∈ earlier, s.name ≠ u.name) ∧ ∀ s ∈ earlier ++ u :: between, s.name ≠ v.name

theorem StandsBefore.counts {earlier : List Table} {u v : Table}
    (h : StandsBefore tables earlier u v) : Counts tables u ∧ Counts tables v := by
  obtain ⟨between, later, rfl, hu, hv⟩ := h
  exact ⟨⟨earlier, between ++ v :: later, List.append_assoc _ _ _, hu⟩, ⟨_, later, rfl, hv⟩⟩

/-- More tables behind a list change nothing about those that count in it. -/
theorem distinctTables_prefix (seen : List Identifier) (ts us : List Table) :
    distinctTables seen ts <+: distinctTables seen (ts ++ us) := by
  induction ts generalizing seen with
  | nil => exact List.nil_prefix
  | cons t ts ih =>
    rw [List.cons_append, distinctTables, distinctTables]
    split
    · exact ih seen
    · exact (List.prefix_cons_inj t).mpr (ih _)

theorem exists_names_eq (ts us : List Table) :
    ∃ rest, (of (ts ++ us)).names = (of ts).names ++ rest := by
  obtain ⟨rest, hrest⟩ := distinctTables_prefix [] ts us
  exact ⟨rest.map Table.name, by rw [names, names, of, of, ← hrest, List.map_append]⟩

/-- **A table that none of the earlier ones depends on comes behind them.** -/
theorem sublist_of_standsBefore {earlier order : List Table} {u v : Table}
    (h : StandsBefore tables earlier u v)
    (apart : ∀ w ∈ earlier ++ [u], ¬Relation.ReflTransGen (DependsOn tables) w.name v.name)
    (horder : (of tables).creationOrder = .ok order) : [u, v].Sublist order := by
  obtain ⟨hu, hv⟩ := h.counts
  obtain ⟨rest, hnames⟩ : ∃ rest, (of tables).names = (of (earlier ++ [u])).names ++ rest := by
    obtain ⟨between, later, hsplit, -⟩ := h
    rw [List.append_cons earlier u, List.append_assoc] at hsplit
    exact hsplit ▸ exists_names_eq _ _
  have hv' := ((isOrder_of_creationOrder horder).mem_iff v).mpr hv
  obtain ⟨visited, hvisits, rfl⟩ : ∃ visited, (of tables).nameOrder = .ok visited ∧
      visited.filterMap (of tables).table? = order := by
    rw [creationOrder] at horder
    split at horder
    · next visited hvisits => exact ⟨visited, hvisits, Except.ok.inj horder⟩
    · cases horder
  rw [nameOrder, hnames] at hvisits
  obtain ⟨front, back, rfl, hfront⟩ := Order.exists_closure
    (fun a _ => hnames ▸ targets_subset_names a) hvisits
  rw [targets_eq_dependsOn] at hfront
  -- the one is among those that the first visits put in order, the other is not
  have hufront : u ∈ front.filterMap (of tables).table? := by
    refine List.mem_filterMap.mpr ⟨u.name, (hfront _).mpr ⟨u.name, ?_, .refl⟩,
      table?_of_eq_some.mpr ⟨hu, rfl⟩⟩
    exact mem_names_of.mpr ⟨u, List.mem_concat_self, rfl⟩
  have hvback : v ∈ back.filterMap (of tables).table? := by
    rw [List.filterMap_append] at hv'
    refine (List.mem_append.mp hv').resolve_left fun hvfront => ?_
    obtain ⟨a, ha, htable⟩ := List.mem_filterMap.mp hvfront
    obtain ⟨b, hb, walk⟩ := (hfront a).mp ha
    obtain ⟨w, hw, rfl⟩ := mem_names_of.mp hb
    rw [← (table?_of_eq_some.mp htable).2] at walk
    exact apart w hw walk
  rw [List.filterMap_append]
  exact (List.singleton_sublist.mpr hufront).append (List.singleton_sublist.mpr hvback)

/-! ## Lists that are an order already -/

/-- Where no name repeats, all tables count. -/
theorem distinctTables_eq_self {seen : List Identifier}
    (h : (seen.reverse ++ tables.map Table.name).Nodup) : distinctTables seen tables = tables := by
  induction tables generalizing seen with
  | nil => rfl
  | cons t tables ih =>
    have hnew : t.name ∉ seen := fun ht =>
      (List.nodup_append.mp h).2.2 _ (List.mem_reverse.mpr ht) _ List.mem_cons_self rfl
    rw [List.map_cons, List.append_cons, ← List.reverse_cons] at h
    rw [distinctTables, if_neg hnew, ih h]

/-- **Tables in an order in which they can be made stay in it.** -/
theorem IsOrder.creationOrder_eq (h : IsOrder tables tables) :
    (of tables).creationOrder = .ok tables := by
  have htables : (of tables).tables = tables := distinctTables_eq_self h.nodup
  have hnames : (of tables).nameOrder = .ok (tables.map Table.name) := by
    rw [nameOrder, names, htables]
    exact Order.depthFirst_of_arranged h.arranged
  have hself : ∀ ts ⊆ tables, (ts.map Table.name).filterMap (of tables).table? = ts := by
    intro ts hts
    induction ts with
    | nil => rfl
    | cons t ts ih =>
      rw [List.cons_subset, h.mem_iff] at hts
      rw [List.map_cons, List.filterMap_cons_some (table?_of_eq_some.mpr ⟨hts.1, rfl⟩), ih hts.2]
  rw [creationOrder, hnames]
  exact congrArg Except.ok (hself tables (List.Subset.refl tables))

/-- **An order is an order of itself.** -/
theorem IsOrder.self {order : List Table} (h : IsOrder tables order) : IsOrder order order := by
  have htables : (of order).tables = order := distinctTables_eq_self h.nodup
  have hcounts : ∀ t, t ∈ order ↔ Counts order t := by
    intro t
    rw [← mem_tables_of, htables]
  refine ⟨h.nodup, hcounts, fun pre t post hsplit b hb => h.before pre t post hsplit b ?_⟩
  obtain ⟨hne, ⟨s, hs, hname⟩, r, hr, hrest⟩ := hb
  exact ⟨hne, ⟨s, ((h.mem_iff s).mp hs).mem, hname⟩, r,
    (h.mem_iff r).mp ((hcounts r).mpr hr), hrest⟩

/-! ## The order of creation -/

/-- **The order of creation follows the input.** Of two tables the one that is
given first is made first, unless the other is needed for it or for a table
in front of it. Tables that are given in an order in which they can be made
keep it; so the order of creation is its own order of creation. -/
theorem creationOrder_follows_input (hacyclic : Acyclic tables) :
    ∃ order, (of tables).creationOrder = .ok order ∧ IsOrder tables order ∧
      (∀ earlier u v, StandsBefore tables earlier u v →
        (∀ w ∈ earlier ++ [u], ¬Relation.ReflTransGen (DependsOn tables) w.name v.name) →
        [u, v].Sublist order) ∧
      (IsOrder tables tables → order = tables) ∧ (of order).creationOrder = .ok order := by
  obtain ⟨order, hcreation, horder⟩ | ⟨_, -, hcycle⟩ := creationOrder_cases tables
  · refine ⟨order, hcreation, horder, fun earlier u v h apart => ?_, fun h => ?_, ?_⟩
    · exact sublist_of_standsBefore h apart hcreation
    · exact Except.ok.inj (hcreation.symm.trans h.creationOrder_eq)
    · exact horder.self.creationOrder_eq
  · exact absurd hacyclic hcycle.not_acyclic

/-- A table that is given behind one that refers to it, and a table that stands
between them for no reason but the input. -/
theorem creationOrder_follows_input_between :
    let id : Column := ⟨0, ⟨"a"⟩, ⟨"id"⟩, .scalar .long, [], none⟩
    let parent : Column := ⟨1, ⟨"b"⟩, ⟨"parent"⟩, .scalar .long, [], none⟩
    let other : Column := ⟨2, ⟨"c"⟩, ⟨"other"⟩, .scalar .long, [], none⟩
    let a : Table := ⟨⟨"a"⟩, [id], [], [], [], [], false⟩
    let b : Table := ⟨⟨"b"⟩, [parent], [],
      [⟨⟨"fk_b_parent_id"⟩, parent, id, .noAction, .noAction⟩], [], [], false⟩
    let c : Table := ⟨⟨"c"⟩, [other], [], [], [], [], false⟩
    Acyclic [b, c, a, b] ∧ StandsBefore [b, c, a, b] [] b c ∧
      (of [b, c, a, b]).creationOrder = .ok [a, b, c] ∧ [b, c].Sublist [a, b, c] ∧
      (of [a, b, c]).creationOrder = .ok [a, b, c] := by
  intro id parent other a b c
  have hcreation : (of [b, c, a, b]).creationOrder = .ok [a, b, c] := rfl
  have hacyclic : Acyclic [b, c, a, b] := by
    obtain ⟨order, -, horder⟩ | ⟨names, hcycle, -⟩ := creationOrder_cases [b, c, a, b]
    · exact horder.acyclic
    · rw [hcreation] at hcycle
      cases hcycle
  have hbefore : StandsBefore [b, c, a, b] [] b c := ⟨[], [a, b], rfl, by simp, by decide⟩
  obtain ⟨order, horder, -, hfollows, -, hself⟩ := creationOrder_follows_input hacyclic
  obtain rfl := Except.ok.inj (horder.symm.trans hcreation)
  refine ⟨hacyclic, hbefore, hcreation, hfollows [] b c hbefore ?_, hself⟩
  -- nothing refers to the table between the two
  rintro w hw walk
  obtain rfl := List.mem_singleton.mp hw
  rcases Relation.ReflTransGen.cases_tail walk with heq | ⟨d, -, hd⟩
  · exact absurd heq (by decide)
  · obtain ⟨-, -, t, ht, -, k, hk, htarget⟩ := hd
    have hkeys : ∀ t ∈ [b, c, a, b], ∀ k ∈ t.foreignKeys, k.target.table ≠ c.name := by
      simp [a, b, c, id]
    exact hkeys t ht.mem k hk htarget

end TypedSql.Dependencies

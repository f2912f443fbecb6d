import TypedSql.Proofs.Schema.Built
import TypedSql.Proofs.Sql.Text
import TypedSql.Proofs.Statement.Conditions

/-!
# Joins by foreign keys

A table is joined without a condition when there is one way to join it: one
foreign key, declared by the table or by one of those it is joined to. The
tables that a join consists of are those that its calls have named, each as
often as it was named (`Join.joined`), and what is counted are the keys
between the new table and each of them (`Join.keyCount`).

What `Join.byForeignKey` does follows from that number alone, and its
condition from the one key: on the left stands the column of the table that
was there before. The order of the tables is the order in which the keys are
found, so it decides nothing where only one can be found
(`Join.candidates_perm`).
-/

namespace TypedSql

/-! ## The foreign keys of a table

A key holds two columns, and each of them knows the name of its table. That the
first belongs to the table with the key is an invariant of the builder, and
from it the two sides of a condition are told apart. -/

/-- **A foreign key is declared on a column** of the table: a declaration adds
both together. -/
theorem TableDraft.Declares.foreignKeys_own {d d' : TableDraft} {call : TableCall}
    (hd : d.Declares call d') (h : ∀ k ∈ d.foreignKeys, k.column ∈ d.columns) :
    ∀ k ∈ d'.foreignKeys, k.column ∈ d'.columns := by
  cases hd with
  | @column name c clauses id draft hnew hdraft hkey =>
    refine List.forall_mem_append.mpr ⟨fun k hk => List.mem_append_left _ (h k hk), fun k hk => ?_⟩
    obtain ⟨r, -, rfl⟩ := Option.map_eq_some_iff.mp (Option.mem_toList.mp hk)
    exact List.mem_append_right _ (List.mem_singleton.mpr rfl)
  | primaryKey => exact h
  | index => exact h
  | check => exact h
  | withoutRowid => exact h

/-- So it is in every builder that programs come to. -/
theorem TableBuilder.Reached.foreignKeys_own {b : TableBuilder} {n : ExprId} (hb : b.Reached n) :
    ∀ k ∈ b.foreignKeys, k.column ∈ b.columns := by
  induction hb with
  | start name n => exact nofun
  | @call b n m c hb hm ih =>
    obtain ⟨d, rfl, -, -, -⟩ := hb.spec
    obtain ⟨e, n', hcall⟩ | ⟨d', n', hcall, hdeclares⟩ := TableCall.call_cases d m c
    · rw [hcall]
      exact ih
    · rw [hcall]
      exact hdeclares.foreignKeys_own ih

namespace Table

/-- **The foreign keys of a table to another one.** -/
def keysTo (t s : Table) : List ForeignKey := t.foreignKeys.filter fun k => k.target.table == s.name

/-- A key refers from a table to another one. -/
theorem Built.table_of_mem_keysTo {t s : Table} (ht : t.Built) {k : ForeignKey}
    (hk : k ∈ t.keysTo s) : k.column.table = t.name ∧ k.target.table = s.name := by
  obtain ⟨hmem, htarget⟩ := List.mem_filter.mp hk
  obtain ⟨d, n, hd, hsound, rfl⟩ := ht.exists_draft
  exact ⟨hsound.own _ (hd.foreignKeys_own k hmem), beq_iff_eq.mp htarget⟩

end Table

/-! ## The tables of a join

The tables are read off the calls. A query or a join that is joined is none of
them, so that the keys of the tables inside are not looked at. -/

/-- The table that a call joins as such. -/
def JoinCall.table? : JoinCall → Option Table
  | .on source _ _ => source.table?
  | .onEqual source _ _ _ => source.table?
  | .cross source => source.table?
  | .byForeignKey _ table => some table
  | .onQuery _ _ _ => none
  | .andOn _ => none

namespace Join

/-- **The tables that have been joined**, each as often as it was. -/
def joined (first : Source) (calls : List JoinCall) : List Table :=
  first.table?.toList ++ calls.filterMap JoinCall.table?

theorem tables_push (j : Join) (type : JoinType) (source : Source) (condition? : Option Term) :
    (j.push type source condition?).tables = j.tables ++ source.table?.toList := by
  rw [push, tables, tables, List.filterMap_append, ← List.append_assoc, List.filterMap_cons]
  cases source.table? <;> rfl

/-- A condition for the last link joins nothing. -/
theorem tables_andOn (j : Join) (condition : Term) : (j.andOn condition).tables = j.tables := by
  obtain hnil | ⟨before, p, hparts⟩ := j.parts.eq_nil_or_concat
  · rw [andOn, hnil]
    rfl
  · rw [List.concat_eq_append] at hparts
    rw [andOn_of_parts hparts, tables, tables, hparts, List.filterMap_append,
      List.filterMap_append]
    rfl

/-- **A call joins its table.** -/
theorem tables_of_call {j j' : Join} {c : JoinCall} (h : j.call c = .ok j') :
    j'.tables = j.tables ++ c.table?.toList := by
  cases c with
  | byForeignKey type table =>
    obtain ⟨condition, rfl⟩ := of_byForeignKey h
    exact tables_push j type table.source _
  | andOn condition =>
    obtain rfl := Except.ok.inj h
    rw [tables_andOn]
    exact (List.append_nil _).symm
  | on source type condition => exact Except.ok.inj h ▸ tables_push j type source _
  | onEqual source type left right => exact Except.ok.inj h ▸ tables_push j type source _
  | cross source => exact Except.ok.inj h ▸ tables_push j .cross source none
  | onQuery type query condition => exact Except.ok.inj h ▸ tables_push j type query.source _

/-- **A run joins the tables of its calls.** -/
theorem tables_of_run {j j' : Join} {calls : List JoinCall} (h : calls.foldlM call j = .ok j') :
    j'.tables = j.tables ++ calls.filterMap JoinCall.table? := by
  induction calls generalizing j with
  | nil => exact Except.ok.inj h ▸ (List.append_nil _).symm
  | cons c calls ih =>
    rw [List.foldlM_cons] at h
    obtain ⟨next, hcall, hrest⟩ := exists_of_bind_eq_ok h
    rw [ih hrest, tables_of_call hcall, List.append_assoc, List.filterMap_cons]
    cases c.table? <;> rfl

theorem tables_eq_joined {first : Source} {calls : List JoinCall} {j : Join}
    (h : calls.foldlM call (of first) = .ok j) : j.tables = joined first calls := by
  rw [tables_of_run h, joined, tables, of, List.filterMap_nil, List.append_nil]

/-! ## The keys between a table and those joined before

The keys are counted in both directions, those of the new table to one of the
others and those of the others to the new table. A table that stands in the
join twice has its keys counted twice, and then there is no single one. -/

/-- **How many keys there are** between a table and others, either way. What is
declared between the table and itself does not count. -/
def keyCount (others : List Table) (t : Table) : Nat :=
  ((others.filter fun s => s.name != t.name).map fun s =>
    (t.keysTo s).length + (s.keysTo t).length).sum

variable {j : Join} {s t : Table}

theorem length_candidates (j : Join) (t : Table) :
    (j.candidates t).length = keyCount j.tables t := by
  rw [candidates, List.length_flatMap, keyCount]
  refine congrArg (fun lengths => (List.map lengths _).sum) (funext fun s => ?_)
  rw [keyConditions, List.length_append, List.length_map, List.length_map]
  rfl

/-- **A key gives a condition** with the column of the other table on the
left. -/
theorem mem_keyConditions {condition : Term} :
    condition ∈ keyConditions s t ↔ ∃ k left right,
      (k ∈ t.keysTo s ∧ left = k.target ∧ right = k.column ∨
        k ∈ s.keysTo t ∧ left = k.column ∧ right = k.target) ∧
      condition = .binary .eq left.term right.term := by
  rw [keyConditions, List.mem_append, List.mem_map, List.mem_map]
  constructor
  · rintro (⟨k, hk, rfl⟩ | ⟨k, hk, rfl⟩)
    · exact ⟨k, _, _, .inl ⟨hk, rfl, rfl⟩, rfl⟩
    · exact ⟨k, _, _, .inr ⟨hk, rfl, rfl⟩, rfl⟩
  · rintro ⟨k, left, right, ⟨hk, rfl, rfl⟩ | ⟨hk, rfl, rfl⟩, rfl⟩
    · exact .inl ⟨k, hk, rfl⟩
    · exact .inr ⟨k, hk, rfl⟩

/-- **The order of the tables** is only the order of the conditions. -/
theorem candidates_perm {j' : Join} (h : j'.tables.Perm j.tables) :
    (j'.candidates t).Perm (j.candidates t) :=
  (h.filter _).flatMap_right _

theorem text_equal (left right : Column) :
    (Term.binary .eq left.term right.term).sql.text =
      Sql.qualified left.table left.name ++ " = " ++ Sql.qualified right.table right.name := by
  rw [Term.sql, Sql.text_append, Sql.text_append, Sql.text_words, ← Sql.text_column,
    ← Sql.text_column]
  rfl

theorem sql_push (j : Join) (type : JoinType) (source : Source) (condition? : Option Term) :
    (j.push type source condition?).tree.sql = j.tree.sql ++
      (Sql.words (" " ++ type.sql ++ " ") ++ source.tree.sql ++
        Term.sqlClause " ON " condition?) := by
  have hlast : linksSql [] = [] := rfl
  rw [tree, tree, FromTerm.sql, FromTerm.sql, ← linksSql, ← linksSql, push, linksSql_append,
    linksSql_cons, hlast]
  simp only [List.append_nil, List.append_assoc]

/-! ## What is inferred

The three outcomes follow from the count. With one candidate the list of
conditions has one element, and the key behind it is recovered from that
element. -/

/-- The names of the tables that have been joined. -/
def namesText (others : List Table) : String := ", ".intercalate (others.map fun s => s.name.name)

/-- **What joining a table by its foreign key comes to**: there is no key, or
there are several, or its condition is the one there is. -/
theorem byForeignKey_cases (j : Join) (type : JoinType) (t : Table) :
    (keyCount j.tables t = 0 ∧
        j.byForeignKey type t = .error (.noJoinCondition (namesText j.tables) t.name.name)) ∨
      (2 ≤ keyCount j.tables t ∧ j.byForeignKey type t =
        .error (.ambiguousJoinCondition (namesText j.tables) t.name.name)) ∨
      keyCount j.tables t = 1 ∧ ∃ condition, j.candidates t = [condition] ∧
        j.byForeignKey type t = .ok (j.push type t.source (some condition)) := by
  rw [← length_candidates]
  unfold byForeignKey
  split
  · next h => exact .inl ⟨List.length_eq_zero_iff.mpr h, rfl⟩
  · next condition h =>
    exact .inr (.inr ⟨List.length_eq_one_iff.mpr ⟨condition, h⟩, condition, h, rfl⟩)
  · next hnil hone =>
    refine .inr (.inl ⟨?_, rfl⟩)
    match h : j.candidates t with
    | [] => exact absurd h hnil
    | [condition] => exact absurd h (hone condition)
    | _ :: _ :: rest => exact Nat.le_add_left 2 rest.length

/-- **Two joins come to the same**: what they append is the same, or they are
refused for the same reason. The names of what they consist of may be in
another order. -/
inductive Agree (i j : Join) :
    Except ConstructionError Join → Except ConstructionError Join → Prop where
  /-- Both succeed. -/
  | appended {i' j' : Join} (part : Sql) : i'.tree.sql = i.tree.sql ++ part →
    j'.tree.sql = j.tree.sql ++ part → Agree i j (.ok i') (.ok j')
  /-- Neither has a condition. -/
  | noCondition (names names' table : String) : Agree i j (.error (.noJoinCondition names table))
    (.error (.noJoinCondition names' table))
  /-- Both have several. -/
  | ambiguous (names names' table : String) :
    Agree i j (.error (.ambiguousJoinCondition names table))
      (.error (.ambiguousJoinCondition names' table))

/-- **The order of the tables means nothing** to a table that is joined to
them. -/
theorem agree_of_perm {i : Join} (h : i.tables.Perm j.tables) (type : JoinType) (t : Table) :
    Agree i j (i.byForeignKey type t) (j.byForeignKey type t) := by
  have hperm : (i.candidates t).Perm (j.candidates t) := candidates_perm h
  have hcount : keyCount i.tables t = keyCount j.tables t := by
    rw [← length_candidates, ← length_candidates, hperm.length_eq]
  rcases byForeignKey_cases i type t with ⟨hi, hrun⟩ | ⟨hi, hrun⟩ | ⟨hi, condition, hone, hrun⟩ <;>
    rcases byForeignKey_cases j type t with
      ⟨hj, hrun'⟩ | ⟨hj, hrun'⟩ | ⟨hj, condition', hone', hrun'⟩
  case inl.inl => exact hrun ▸ hrun' ▸ .noCondition _ _ _
  case inr.inl.inr.inl => exact hrun ▸ hrun' ▸ .ambiguous _ _ _
  case inr.inr.inr.inr =>
    rw [hone, hone'] at hperm
    obtain rfl := List.singleton_inj.mp (List.perm_singleton.mp hperm)
    rw [hrun, hrun']
    exact .appended _ (sql_push i type t.source _) (sql_push j type t.source _)
  -- the numbers of keys differ in all other cases
  all_goals omega

/-- **An inferred join uses the one foreign key there is.** `others` are the
tables that `j` consists of. -/
structure InfersKey (others : List Table) (j : Join) (type : JoinType) (t : Table)
    (outcome : Except ConstructionError Join) : Prop where
  /-- Without a key there is no condition. -/
  none : keyCount others t = 0 →
    outcome = .error (.noJoinCondition (namesText others) t.name.name)
  /-- Several keys could be meant. -/
  several : 2 ≤ keyCount others t →
    outcome = .error (.ambiguousJoinCondition (namesText others) t.name.name)
  /-- The only key says which columns are equal. On the left stands that of the
  table which was there before, whichever of the two declares the key. -/
  one : keyCount others t = 1 → ∃ s ∈ others, s.name ≠ t.name ∧ ∃ k left right,
    (k ∈ t.keysTo s ∧ left = k.target ∧ right = k.column ∨
      k ∈ s.keysTo t ∧ left = k.column ∧ right = k.target) ∧
    left.table = s.name ∧ right.table = t.name ∧
    ∃ j', outcome = .ok j' ∧ j'.tree.sql.text = j.tree.sql.text ++ " " ++ type.sql ++ " " ++
      t.name.quoted ++ " ON " ++ Sql.qualified s.name left.name ++ " = " ++
      Sql.qualified t.name right.name
  /-- Whoever has joined the same tables in another order comes to the same. -/
  reordered : ∀ first calls i, calls.foldlM call (of first) = .ok i →
    (joined first calls).Perm others → Agree i j (i.byForeignKey type t) outcome

/-- **A table is joined by the one foreign key there is**, for every run of
calls on a join. -/
theorem byForeignKey_infersKey {first : Source} {calls : List JoinCall} {j : Join}
    (h : calls.foldlM call (of first) = .ok j) {t : Table} (ht : t.Built)
    (hothers : ∀ s ∈ joined first calls, s.Built) (type : JoinType) :
    InfersKey (joined first calls) j type t (j.byForeignKey type t) := by
  rw [← tables_eq_joined h] at hothers ⊢
  constructor
  case none =>
    intro hcount
    rcases byForeignKey_cases j type t with ⟨-, hrun⟩ | ⟨hother, -⟩ | ⟨hother, -⟩
    · exact hrun
    · omega
    · omega
  case several =>
    intro hcount
    rcases byForeignKey_cases j type t with ⟨hother, -⟩ | ⟨-, hrun⟩ | ⟨hother, -⟩
    · omega
    · exact hrun
    · omega
  case one =>
    intro hcount
    rcases byForeignKey_cases j type t with ⟨hother, -⟩ | ⟨hother, -⟩ | ⟨-, condition, hone, hrun⟩
    · omega
    · omega
    · -- the one candidate comes from a key, declared on either side
      have hcondition : condition ∈ j.candidates t := hone ▸ List.mem_singleton_self condition
      obtain ⟨s, hs, hkey⟩ := List.mem_flatMap.mp hcondition
      obtain ⟨hmem, hother⟩ := List.mem_filter.mp hs
      obtain ⟨k, left, right, hk, rfl⟩ := mem_keyConditions.mp hkey
      have htables : left.table = s.name ∧ right.table = t.name := by
        rcases hk with ⟨hk, rfl, rfl⟩ | ⟨hk, rfl, rfl⟩
        · exact (ht.table_of_mem_keysTo hk).symm
        · exact (hothers s hmem).table_of_mem_keysTo hk
      refine ⟨s, hmem, ?_, k, left, right, hk, htables.1, htables.2, _, hrun, ?_⟩
      · simpa [Table.same] using hother
      · have htext := text_equal left right
        rw [htables.1, htables.2] at htext
        have htree : t.source.tree.sql.text = t.name.quoted := Sql.text_name t.name
        rw [sql_push, Term.sqlClause]
        simp only [Sql.text_append, Sql.text_words, htree, htext, String.append_assoc]
  case reordered =>
    intro first' calls' i hi hperm
    rw [← tables_eq_joined hi] at hperm
    exact agree_of_perm hperm type t

/-- A table that is joined to one which refers to it, with another one that
has no key in between. -/
theorem byForeignKey_infersKey_parent :
    let id : Column := ⟨0, ⟨"a"⟩, ⟨"id"⟩, .scalar .long, [], none⟩
    let parent : Column := ⟨1, ⟨"b"⟩, ⟨"parent"⟩, .scalar .long, [], none⟩
    let a : Table := ⟨⟨"a"⟩, [id], [], [], [], [], false⟩
    let b : Table := ⟨⟨"b"⟩, [parent], [],
      [⟨⟨"fk_b_parent_id"⟩, parent, id, .noAction, .noAction⟩], [], [], false⟩
    let c : Table := ⟨⟨"c"⟩, [{ id with table := ⟨"c"⟩ }], [], [], [], [], false⟩
    let j : Join := (of b.source).cross c.source
    [JoinCall.cross c.source].foldlM call (of b.source) = .ok j ∧ a.Built ∧
      (∀ s ∈ joined b.source [.cross c.source], s.Built) ∧
      keyCount (joined b.source [.cross c.source]) a = 1 ∧
      InfersKey [b, c] j .inner a (j.byForeignKey .inner a) := by
  intro id parent a b c j
  have hrun : [JoinCall.cross c.source].foldlM call (of b.source) = .ok j := rfl
  have ha : a.Built :=
    ⟨_, _, (TableBuilder.Reached.start ⟨"a"⟩ 0).runAll [.column "id" (.scalar .long) []], rfl⟩
  have hothers : ∀ s ∈ joined b.source [.cross c.source], s.Built :=
    List.forall_mem_cons.mpr
      ⟨⟨_, _, (TableBuilder.Reached.start ⟨"b"⟩ 1).runAll
          [.column "parent" (.scalar .long) [.references id]], rfl⟩,
        List.forall_mem_singleton.mpr ⟨_, _, (TableBuilder.Reached.start ⟨"c"⟩ 0).runAll
          [.column "id" (.scalar .long) []], rfl⟩⟩
  exact ⟨hrun, ha, hothers, rfl, byForeignKey_infersKey hrun ha hothers .inner⟩

end Join

end TypedSql

import TypedSql.Proofs.Query.Program
import TypedSql.Proofs.Schema.Builder

/-!
# The columns of a table are told apart

Columns are told apart in two ways. Statements name them, and rows are read
by their identities. While a table is built, the program may do anything
else in between and take identities for it; `TableBuilder.Reached` are the
builders that come of that, with calls that are refused among the others.
Whatever the program does, no two columns of a table share a name, none of
them shares an identity, and all of them are the table's own
(`Table.Distinct`).

The two go through the run in different ways. Names are compared with those
that are there when a column is declared, so that they differ is what the
builder checks. Identities are never compared: they differ because each is
taken from a supply that only grows (`TableDraft.Advances`).
-/

namespace TypedSql

/-- **The builders that programs come to**, with the next identity, when
other identities are taken between the calls. -/
inductive TableBuilder.Reached : TableBuilder → ExprId → Prop where
  /-- A builder without columns. -/
  | start (name : Identifier) (n : ExprId) : Reached { name } n
  /-- One more call, with identities from `m` on. -/
  | call {b : TableBuilder} {n m : ExprId} (c : TableCall) : Reached b n → n ≤ m →
    Reached (TableCall.call (b, m) c).2.1 (TableCall.call (b, m) c).2.2

/-- **A table whose columns are told apart.** -/
structure Table.Distinct (t : Table) : Prop where
  /-- The columns were declared under the table's name. -/
  own : ∀ c ∈ t.columns, c.table = t.name
  /-- No two of them have one name. -/
  names : (t.columns.map Column.name).Nodup
  /-- No two of them have one identity. -/
  ids : (t.columns.map Column.id).Nodup

namespace TableCall

/-- **What a declaration does to identities**: it takes them in order, and a
column that it adds has the first of them. -/
def Advances (d : TableDraft) (n : ExprId) (c : TableCall) : Prop :=
  n ≤ ((c.declare d).run.run n).2 ∧ ∀ d', ((c.declare d).run.run n).1 = .ok d' →
    d'.columns = d.columns ∨ ∃ column, d'.columns = d.columns ++ [column] ∧ column.id = n ∧
      n < ((c.declare d).run.run n).2

variable {d : TableDraft} {n : ExprId} {c : TableCall}

/-- What declares no column takes no identity. -/
theorem advances_of_columns_eq (hcolumns : ∀ d', d.Declares c d' → d'.columns = d.columns)
    (hnext : ((c.declare d).run.run n).2 = n) : Advances d n c := by
  refine ⟨Nat.le_of_eq hnext.symm, fun d' hd' => .inl (hcolumns d' ?_)⟩
  have hrun : (c.declare d).run.run n = (.ok d', n) := Prod.ext hd' hnext
  exact TableDraft.declares hrun

/-- A column has the first identity that it takes. -/
theorem advances_column (name : String) (codec : Codec) (clauses : List (ColumnClause codec)) :
    Advances d n (.column name codec clauses) := by
  obtain ⟨es, hminted, hcolumn⟩ := d.declareColumn_minted name codec clauses n
  have hnext := Nat.le_trans (Nat.le_add_right n _) hminted.next
  rw [Advances]
  rcases hrun : (d.declareColumn name codec clauses).run.run n with ⟨e | ⟨d', column⟩, n'⟩
  · rw [hrun] at hnext
    have hdeclare : ((TableCall.column name codec clauses).declare d).run.run n = (.error e, n') :=
      run_bind_of_error hrun
    rw [hdeclare]
    exact ⟨hnext, nofun⟩
  · rw [hrun] at hminted hcolumn hnext
    have hdeclare : ((TableCall.column name codec clauses).declare d).run.run n = (.ok d', n') :=
      run_bind_of_ok hrun
    obtain ⟨rfl, hcolumns⟩ := hcolumn d' column rfl
    rw [hdeclare]
    refine ⟨hnext, fun other hother => .inr ⟨column, ?_, ?_, hminted.next⟩⟩
    · exact Except.ok.inj hother ▸ hcolumns
    · exact (List.cons.inj hminted.ids).1

/-- **Every declaration** takes identities in order. -/
theorem advances (d : TableDraft) (n : ExprId) (c : TableCall) : Advances d n c := by
  cases c with
  | column name codec clauses => exact advances_column name codec clauses
  | primaryKey columns => exact advances_of_columns_eq (fun d' hd' => by cases hd'; rfl) rfl
  | index name? columns unique =>
    exact advances_of_columns_eq (fun d' hd' => by cases hd'; rfl) rfl
  | check name condition => exact advances_of_columns_eq (fun d' hd' => by cases hd'; rfl) rfl
  | withoutRowid => exact advances_of_columns_eq (fun d' hd' => by cases hd'; rfl) rfl

end TableCall

namespace TableBuilder.Reached

/-- **Every builder that is reached** is that of a draft. It is sound, its
columns have old identities, and no two of them have one. -/
theorem spec {b : TableBuilder} {n : ExprId} (hb : b.Reached n) :
    ∃ d : TableDraft, b = d.builder ∧ d.builder.Sound ∧ (d.columns.map Column.id).Nodup ∧
      ∀ c ∈ d.columns, c.id < n := by
  induction hb with
  | start name n =>
    refine ⟨{ name }, rfl, ?_, List.nodup_nil, nofun⟩
    exact ⟨List.nodup_nil, nofun, rfl, Nat.zero_le 1, fun _ => rfl, List.nodup_nil, nofun⟩
  | @call b n m c _ hm ih =>
    obtain ⟨d, rfl, hsound, hnodup, hold⟩ := ih
    obtain ⟨hnext, hids⟩ := TableCall.advances d m c
    have older : ∀ c ∈ d.columns, ∀ n', m ≤ n' → c.id < n' := fun c hc n' hn' =>
      Nat.lt_of_lt_of_le (hold c hc) (Nat.le_trans hm hn')
    rw [TableCall.call_builder]
    rcases hrun : (c.declare d).run.run m with ⟨e | d', n'⟩
    · rw [hrun] at hnext
      exact ⟨d, rfl, hsound, hnodup, fun c hc => older c hc n' hnext⟩
    · rw [hrun] at hnext hids
      refine ⟨d', rfl, (TableDraft.declares hrun).sound hsound, ?_⟩
      obtain hsame | ⟨column, hadded, hid, hlt⟩ := hids d' rfl
      · rw [hsame]
        exact ⟨hnodup, fun c hc => older c hc n' hnext⟩
      · rw [hadded]
        constructor
        · rw [List.map_append, List.map_singleton]
          refine List.nodup_append'.mpr ⟨hnodup, List.nodup_singleton _, ?_⟩
          rw [List.disjoint_singleton]
          intro hmem
          obtain ⟨other, hother, heq⟩ := List.mem_map.mp hmem
          exact Nat.ne_of_lt (older other hother m (Nat.le_refl m)) (heq.trans hid)
        · refine List.forall_mem_append.mpr ⟨fun c hc => older c hc n' hnext, ?_⟩
          exact List.forall_mem_singleton.mpr (hid ▸ hlt)

theorem runAll {b : TableBuilder} {n : ExprId} (hb : b.Reached n) (calls : List TableCall) :
    (TableCall.runAll calls (b, n)).1.Reached (TableCall.runAll calls (b, n)).2 := by
  induction calls generalizing b n with
  | nil => exact hb
  | cons c calls ih => exact ih (hb.call c (Nat.le_refl n))

/-- **The columns of a table that is built are told apart.** -/
theorem distinct {b : TableBuilder} {n : ExprId} (hb : b.Reached n) {t : Table}
    (ht : b.build = .ok t) : t.Distinct := by
  obtain ⟨d, rfl, hsound, hnodup, -⟩ := hb.spec
  rw [TableDraft.build_builder hsound] at ht
  obtain ⟨-, -, rfl⟩ := TableDraft.of_build ht
  exact ⟨hsound.own, hsound.distinct, hnodup⟩

end TableBuilder.Reached

end TypedSql

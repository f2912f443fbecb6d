import TypedSql.Proofs.Schema.Stored

/-!
# What would have to be bound is refused

A condition, a query or a statement that shows a placeholder cannot be
stored. This module goes through the entries by which text is stored: the
conditions of a table and of a column, the query of a view, the condition of
a trigger and its statements. All of them refuse it, and what was being
built stays as it was.

The refusal says what the matter is, with one exception. A column is
declared as a whole: a name that is taken is found out before its clauses are
looked at, and of several clauses that make no sense the first one decides.
-/

namespace TypedSql

theorem Phrase.slots_ne_nil {s : Sql} (h : Phrase s) (hshown : placeholders s.text.toList ≠ []) :
    s.slots ≠ [] :=
  fun hnil => hshown (Sql.Storable.of_phrase h hnil).unmarked

/-! ## Conditions of a column -/

namespace ColumnDraft

variable {c : Codec}

/-- What was noted first stays. -/
theorem error?_apply {d : ColumnDraft c} {e : ConstructionError} (h : d.error? = some e)
    (clause : ColumnClause c) : (d.apply clause).error? = some e := by
  have hrefuse : ∀ e', (d.refuse e').error? = some e := fun e' => by
    rw [refuse, h]
    rfl
  have hreference : ∀ fault change, (d.changeReference fault change).error? = some e := by
    intro fault change
    unfold changeReference
    split
    · exact hrefuse _
    · exact h
  cases clause <;> simp only [apply] <;> try split
  all_goals first | exact h | exact hreference _ _ | exact hrefuse _

/-- Whatever the clauses are, what was noted first stays. -/
theorem error?_foldl {d : ColumnDraft c} {e : ConstructionError} (h : d.error? = some e)
    (clauses : List (ColumnClause c)) : (clauses.foldl apply d).error? = some e := by
  induction clauses generalizing d with
  | nil => exact h
  | cons clause clauses ih => exact ih (error?_apply h clause)

/-- **A condition with placeholders** is noted, unless something was noted
before. -/
theorem error?_foldl_check (d : ColumnDraft c) (before behind : List (ColumnClause c))
    (name : String) {condition : Term} (h : condition.sql.slots ≠ []) :
    ((before ++ .check name condition :: behind).foldl apply d).error? =
      some ((before.foldl apply d).error?.getD
        (.unexpectedBindArgument .check name condition.sql.text)) := by
  rw [List.foldl_append, List.foldl_cons]
  refine error?_foldl ?_ behind
  have hcheck : Check.of? name condition =
      .error (.unexpectedBindArgument .check name condition.sql.text) := by
    rw [Check.of?, dif_neg h]
  simp only [apply, hcheck, refuse]
  cases (before.foldl apply d).error? <;> rfl

theorem finish?_of_error? {d : ColumnDraft c} {e : ConstructionError} (h : d.error? = some e) :
    d.finish? = .error e := by
  rw [finish?, h]

end ColumnDraft

/-! ## Tables -/

/-- **A builder that takes nothing in** that shows a placeholder. -/
structure TableBuilder.RefusesPlaceholders (b : TableBuilder) : Prop where
  /-- A condition for the table is refused. -/
  check : ∀ (n : ExprId) (name : String) (condition : Term),
    placeholders condition.sql.text.toList ≠ [] →
      TableCall.call (b, n) (.check name condition) =
        (.error (.unexpectedBindArgument .check name condition.sql.text), b, n)
  /-- A column with such a condition is refused. The clauses in front of the
  condition decide what is said, if one of them made no sense. -/
  column : ∀ (n : ExprId) (name : String) (c : Codec) (before behind : List (ColumnClause c))
    (check : String) (condition : Term), placeholders condition.sql.text.toList ≠ [] →
      (∀ other ∈ b.columns, other.name ≠ ⟨name⟩) →
      TableCall.call (b, n) (.column name c (before ++ .check check condition :: behind)) =
        (.error ((before.foldl ColumnDraft.apply
            { id := n, table := b.name, name := ⟨name⟩ }).error?.getD
          (.unexpectedBindArgument .check check condition.sql.text)), b, n + 1)
  /-- A column of a name that is taken is refused, whatever its clauses are. -/
  taken : ∀ (n : ExprId) (name : String) (c : Codec) (clauses : List (ColumnClause c)),
    (∃ other ∈ b.columns, other.name = ⟨name⟩) →
      TableCall.call (b, n) (.column name c clauses) =
        (.error (.duplicateColumn b.name.name name), b, n)

/-- **The builder of a draft takes no placeholders in.** -/
theorem TableDraft.refusesPlaceholders (d : TableDraft) : d.builder.RefusesPlaceholders where
  check n name condition hshown := by
    have hcheck : Check.of? name condition =
        .error (.unexpectedBindArgument .check name condition.sql.text) := by
      rw [Check.of?, dif_neg (condition.phrase.slots_ne_nil hshown)]
    rw [TableCall.call_builder, TableCall.declare, declareCheck, hcheck]
    rfl
  column n name c before behind check condition hshown hnew := by
    have hfree : d.hasColumn ⟨name⟩ = false :=
      List.any_eq_false.mpr fun other hother => by simpa using hnew other hother
    have herror := ColumnDraft.error?_foldl_check { id := n, table := d.name, name := ⟨name⟩ }
      before behind check (condition.phrase.slots_ne_nil hshown)
    have hclose := run_declareColumn hfree c (before ++ .check check condition :: behind) n
    rw [closeColumn_of_error (ColumnDraft.finish?_of_error? herror)] at hclose
    rw [TableCall.call_builder, TableCall.declare, run_bind_of_error hclose]
    rfl
  taken n name c clauses htaken := by
    obtain ⟨other, hother, hname⟩ := htaken
    have hhas : d.hasColumn ⟨name⟩ = true :=
      List.any_eq_true.mpr ⟨other, hother, beq_iff_eq.mpr hname⟩
    rw [TableCall.call_builder, TableCall.declare,
      run_bind_of_error (run_declareColumn_of_taken hhas c clauses n)]
    rfl

/-! ## Triggers -/

/-- **A body that takes nothing in** that shows a placeholder. -/
structure TriggerDraft.RefusesPlaceholders (d : TriggerDraft) : Prop where
  /-- A condition is refused. -/
  condition : ∀ (n : ExprId) (condition : Term), placeholders condition.sql.text.toList ≠ [] →
    TriggerCall.call (d, n) (.onlyWhen condition) =
      (.error (.unexpectedBindArgument .trigger d.head.name.name condition.sql.text), d, n)
  /-- A statement is refused. -/
  statement : ∀ (n : ExprId) (c : TriggerCall) (s : Statement), c.Adds s →
    placeholders s.sql.text.toList ≠ [] →
      TriggerCall.call (d, n) c =
        (.error (.unexpectedBindArgument .trigger d.head.name.name s.sql.text), d, n)
  /-- A statement whose assignments are refused does not come so far. -/
  unassigned : ∀ (n : ExprId) (onConflict : OnConflict) (a : Assignments) (e : ConstructionError),
    Insert.of? onConflict a = .error e →
      TriggerCall.call (d, n) (.insert onConflict a) = (.error e, d, n)

/-- **No body takes placeholders in.** -/
theorem TriggerDraft.refusesPlaceholders (d : TriggerDraft) : d.RefusesPlaceholders where
  condition _ condition hshown :=
    TriggerCall.call_onlyWhen_of_slots (condition.phrase.slots_ne_nil hshown)
  statement _ _ s hadds hshown :=
    TriggerCall.call_statement_of_slots hadds (s.phrase.slots_ne_nil hshown)
  unassigned _ _ _ _ hrefused := TriggerCall.call_insert_of_error hrefused

/-! ## Views -/

/-- **A view of a query with placeholders is refused.** -/
theorem View.run_of_placeholders (name : Identifier) {q : Select} (items : List Item)
    (columns : List ViewColumn) (temporary : Bool) (n : ExprId)
    (hshown : placeholders q.sql.text.toList ≠ []) :
    (View.of name q.sql items columns temporary).run.run n =
      (.error (.unexpectedBindArgument .view name.name q.sql.text), n) := by
  rw [View.of, dif_neg (q.phrase.slots_ne_nil hshown)]
  rfl

/-! ## Nothing is left to bind

Two sides meet here: what is stored shows nothing to bind, and what shows
something is not stored. The first is about the texts of objects that were
built, the second about the calls that build them, and both go by the text and
not by what the builder counted. -/

/-- **Nothing that is stored has to be bound.** The statements that make an
object leave no quote open and show no question mark outside quotes, and
whatever shows one is refused at each of the entries, with nothing changed. -/
theorem SchemaObject.nothing_to_bind :
    (∀ o : SchemaObject, o.Stored → ∀ temporary, ∀ s ∈ o.create temporary, s.Storable) ∧
      (∀ (b : TableBuilder) (n : ExprId), b.Reached n → b.RefusesPlaceholders) ∧
      (∀ d : TriggerDraft, d.RefusesPlaceholders) ∧
      ∀ (name : Identifier) (q : Select) (columns : List ViewColumn) (temporary : Bool)
        (n : ExprId), placeholders q.sql.text.toList ≠ [] →
        (View.of name q.sql q.items columns temporary).run.run n =
          (.error (.unexpectedBindArgument .view name.name q.sql.text), n) := by
  refine ⟨fun o ho temporary => ho.storable temporary, fun b n hb => ?_,
    TriggerDraft.refusesPlaceholders, fun name q columns temporary n hshown =>
      View.run_of_placeholders name q.items columns temporary n hshown⟩
  obtain ⟨d, rfl, -⟩ := hb.spec
  exact d.refusesPlaceholders

/-- A table and a column with question marks in their names, and a condition
with one in a text. A condition with a placeholder comes behind. -/
theorem SchemaObject.nothing_to_bind_in_names :
    let column : Term := .column ⟨"who?"⟩ ⟨"\"?"⟩
    let calls : List TableCall := [
      .column "\"?" (.scalar .text) [.check "?" (.binary .ne column (.literal (.scalar .text) "'?"))],
      .check "k" (.binary .eq column (.slot (.scalar .text)))]
    ∃ t, (TableCall.runAll calls ({ name := ⟨"who?"⟩ }, 0)).1.build = .ok t ∧
      t.checks.map Check.name = [⟨"?"⟩] ∧ ∀ s ∈ t.object.create false, s.Storable := by
  intro column calls
  obtain ⟨hstored, -⟩ := SchemaObject.nothing_to_bind
  have hreached := (TableBuilder.Reached.start ⟨"who?"⟩ 0).runAll calls
  refine ⟨_, rfl, rfl, hstored _ (.table ⟨_, _, hreached, rfl⟩ ?_) false⟩
  exact List.forall_mem_singleton.mpr ⟨nofun, nofun⟩

/-- A condition of a column is refused for the clause in front of it, an
action without a reference. -/
theorem TableCall.column_refused_before_check :
    let condition : Term := .binary .eq (.column ⟨"t"⟩ ⟨"a"⟩) (.slot (.scalar .long))
    let column : TableCall := .column "a" (.scalar .long)
      [.onDelete .cascade, .check "k" condition]
    placeholders condition.sql.text.toList ≠ [] ∧
      (call ({ name := ⟨"t"⟩ }, 0) column).1 =
        .error (.invalidConstraint "a" .deleteWithoutReference) ∧
      (call ({ name := ⟨"t"⟩ }, 0) column).1 ≠
        .error (.unexpectedBindArgument .check "k" condition.sql.text) := by
  intro condition column
  have hrefused : (call ({ name := ⟨"t"⟩ }, 0) column).1 =
      .error (.invalidConstraint "a" .deleteWithoutReference) := rfl
  refine ⟨?_, hrefused, fun h => ?_⟩
  · decide
  · rw [hrefused] at h
    cases h

end TypedSql

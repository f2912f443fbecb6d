import TypedSql.Proofs.Schema.Identities
import TypedSql.Proofs.Schema.TableText
import TypedSql.Proofs.Statement.Placeholders
import TypedSql.Schema.Object

/-!
# Tables that programs build

The tables that there are, whatever a program did while it declared them
(`Table.Built`). They are worded, since no call leaves the builder otherwise,
and there is nothing to bind in their definition: a condition is stored
without placeholders, and no other part could have any.

Nothing is said of the calls any more. What holds of a table that is built is
what the builder was when it was built, and other modules take it from here.
-/

namespace TypedSql

/-- **A table that a program built.** -/
def Table.Built (t : Table) : Prop := ∃ b n, TableBuilder.Reached b n ∧ b.build = .ok t

/-- **Every builder that is reached** is worded. -/
theorem TableBuilder.Reached.worded {b : TableBuilder} {n : ExprId} (hb : b.Reached n) :
    b.Worded := by
  induction hb with
  | start name n => exact ⟨nofun, nofun, nofun⟩
  | @call b n m c hb hm ih =>
    obtain ⟨d, rfl, -, -, -⟩ := hb.spec
    obtain ⟨e, n', hcall⟩ | ⟨d', n', hcall, hdeclares⟩ := TableCall.call_cases d m c
    · rw [hcall]
      exact ih
    · rw [hcall]
      exact hdeclares.worded ih

/-! ## Parts without placeholders -/

theorem ColumnConstraint.slots_sql (k : ColumnConstraint) : k.sql.slots = [] := by
  rcases k with key | onConflict | (_ | _ | _ | name) <;> rfl

theorem slots_rawDefault (text : String) : (rawDefault text).slots = [] := by
  cases rawDefault_cases text with
  | inl h =>
    rw [h]
    rfl
  | inr h =>
    rw [h]
    rfl

namespace Sql

theorem slots_flatMap_eq_nil {α : Type} {f : α → Sql} {as : List α}
    (h : ∀ a ∈ as, (f a).slots = []) : slots (as.flatMap f) = [] := by
  induction as with
  | nil => rfl
  | cons a as ih =>
    rw [List.flatMap_cons, slots_append, h a List.mem_cons_self,
      ih fun b hb => h b (List.mem_cons_of_mem a hb)]
    rfl

theorem slots_commaList_eq_nil {ss : List Sql} (h : ∀ s ∈ ss, slots s = []) :
    slots (commaList ss) = [] := by
  rw [slots_commaList]
  exact List.flatMap_eq_nil_iff.mpr h

theorem slots_parenthesized (s : Sql) : slots (parenthesized s) = slots s :=
  slots_parenthesizedIf true s

end Sql

/-- A column whose default is a value or text that was given has no
placeholders. -/
theorem Column.slots_sql {c : Column} (hdefault : ∀ s, c.default? = some s →
    (∃ v, s = [.literal c.codec v]) ∨ ∃ text, s = rawDefault text) : c.sql.slots = [] := by
  have hconstraints : Sql.slots (c.constraints.flatMap ColumnConstraint.sql) = [] :=
    Sql.slots_flatMap_eq_nil fun k _ => k.slots_sql
  simp only [sql, Sql.slots_append, Sql.slots_words, Sql.slots_name, hconstraints, List.nil_append]
  cases hgiven : c.default? with
  | none => rfl
  | some s =>
    rw [Sql.slots_append, Sql.slots_words, List.nil_append]
    obtain ⟨v, hs⟩ | ⟨text, hs⟩ := hdefault s hgiven
    · rw [hs]
      exact List.filterMap_cons_none rfl
    · rw [hs]
      exact slots_rawDefault text

theorem ForeignKey.slots_sql (k : ForeignKey) : k.sql.slots = [] := by
  have haction : ∀ event action, (actionSql event action).slots = [] := by
    intro event action
    unfold actionSql
    split <;> rfl
  simp only [sql, Sql.slots_append, Sql.slots_parenthesized, Sql.slots_words, Sql.slots_name,
    haction, List.append_nil]

theorem Index.slots_sql (i : Index) : i.sql.slots = [] := by
  simp only [sql, Sql.slots_append, Sql.slots_parenthesized, Sql.slots_words, Sql.slots_name,
    Statement.slots_names, List.append_nil]

theorem slots_dropSql (words : String) (name : Identifier) : (dropSql words name).slots = [] := rfl

namespace Table.Built

variable {t : Table}

/-- A table that is built is that of a sound draft. -/
theorem exists_draft (h : t.Built) :
    ∃ (d : TableDraft) (n : ExprId), d.builder.Reached n ∧ d.builder.Sound ∧ t = d.table := by
  obtain ⟨b, n, hb, hbuild⟩ := h
  obtain ⟨d, rfl, hsound, -, -⟩ := hb.spec
  rw [TableDraft.build_builder hsound] at hbuild
  obtain ⟨-, -, htable⟩ := TableDraft.of_build hbuild
  exact ⟨d, n, hb, hsound, htable⟩

theorem worded (h : t.Built) : t.Worded := by
  obtain ⟨d, n, hb, -, rfl⟩ := h.exists_draft
  exact ⟨hb.worded.key, hb.worded.default?, hb.worded.checks⟩

/-- The parts of a definition have no placeholders. -/
theorem slots_parts (h : t.Built) : ∀ s ∈ t.parts, s.slots = [] := by
  intro s hs
  simp only [parts, List.mem_append, List.mem_map] at hs
  rcases hs with ((⟨c, hc, rfl⟩ | hkey) | ⟨k, -, rfl⟩) | ⟨k, -, rfl⟩
  · exact Column.slots_sql (h.worded.default? c hc)
  · unfold keySql at hkey
    split at hkey
    · rw [List.mem_singleton.mp hkey]
      simp only [Sql.slots_append, Sql.slots_parenthesized, Sql.slots_words, Sql.slots_name,
        Statement.slots_names, List.append_nil]
    · cases hkey
  · exact k.slots_sql
  · simp only [Check.sql, Sql.slots_append, Sql.slots_parenthesized, Sql.slots_words,
      Sql.slots_name, k.slots_nil, List.append_nil]

/-- **The definition of a table has no placeholders.** -/
theorem slots_sql (h : t.Built) (temporary : Bool) : (t.sql temporary).slots = [] := by
  have hlist : (Sql.commaList t.parts).slots = [] := Sql.slots_commaList_eq_nil h.slots_parts
  have hbody : t.body.slots = [] := by
    simp only [parts] at hlist
    simp only [body, Sql.slots_append, Sql.slots_parenthesized, Sql.slots_words, Sql.slots_name,
      hlist, List.append_nil]
  rw [sql, Sql.slots_append, Sql.slots_words, hbody]
  rfl

end Table.Built

end TypedSql

import TypedSql.Proofs.Schema.TableText

/-!
# One primary key

A table keeps its primary key twice. A column that is the key says so in its
constraints, and a key over several columns is a list beside the columns.
`TableBuilder.Sound` is what keeps the two apart while the table is built,
and this module says what it is worth once the table is there: whatever was
called and whatever of it was refused, the table has one primary key or
none, its definition says so as often, and `Table.indexInKey?` numbers it.

How often the definition says so is counted in its tokens. A text taken over
from a caller may say it too, so the library's own pieces are counted apart
(`Table.OneKey.own`), and what the whole text says is that count and whatever
such texts add to it.
-/

namespace TypedSql

/-! ## The table of a draft -/

namespace TableDraft

/-- The key of a table is the one that its builder has come to, in whichever
form it was given. -/
theorem primaryKey_table {d : TableDraft} (h : d.builder.Sound) :
    d.table.primaryKey = d.builder.key := by
  have hmark : d.builder.hasColumnKey = d.columns.any Column.isPrimaryKey := h.mark
  have hcolumns : d.table.columnKey = d.columns.filter Column.isPrimaryKey := rfl
  rw [Table.primaryKey, TableBuilder.key, hmark, hcolumns]
  cases hkey : d.columns.any Column.isPrimaryKey with
  | true =>
    obtain ⟨c, hc, hprimary⟩ := List.any_eq_true.mp hkey
    have hne : d.columns.filter Column.isPrimaryKey ≠ [] :=
      List.ne_nil_of_mem (List.mem_filter.mpr ⟨hc, hprimary⟩)
    rw [if_neg (by simpa using hne), if_pos rfl]
    rfl
  | false =>
    have hnil : d.columns.filter Column.isPrimaryKey = [] :=
      List.filter_eq_nil_iff.mpr fun c hc => by simpa using List.any_eq_false.mp hkey c hc
    rw [hnil, List.isEmpty_nil, if_pos rfl, if_neg Bool.false_ne_true]
    rfl

end TableDraft

/-! ## The key of a sound builder -/

namespace TableBuilder.Sound

variable {b : TableBuilder}

/-- No column is named twice in the key, whichever it is. -/
theorem nodup_key (h : b.Sound) : (b.key.map Column.name).Nodup := by
  rw [key]
  split
  · exact h.distinct.sublist (List.filter_sublist.map Column.name)
  · exact h.keyDistinct

end TableBuilder.Sound

/-! ## The table -/

/-- **A table with one primary key or none.** -/
structure Table.OneKey (t : Table) : Prop where
  /-- The columns of the key have distinct names. -/
  nodup : (t.primaryKey.map Column.name).Nodup
  /-- The columns of the key are numbered in its order. -/
  numbered : ∀ i k, t.primaryKey[i]? = some k → t.indexInKey? k = some (i + 1)
  /-- A column that is none of them has no number. -/
  apart : ∀ c ∈ t.columns, (∀ k ∈ t.primaryKey, k.same c = false) → t.indexInKey? c = none
  /-- Where rows are found by the key alone, there is one. -/
  rowid : t.withoutRowid = true → t.primaryKey ≠ []
  /-- The library's own pieces of the definition say `PRIMARY` once for the
  key, and not at all without one. -/
  own : ∀ temporary, (t.sql temporary).ownPrimaries = if t.primaryKey = [] then 0 else 1
  /-- The text of the definition says it as often, and as often in addition as
  the texts do that are taken over and leave nothing open. -/
  said : ∀ temporary, (t.sql temporary).Whole →
    (Token.lex (t.sql temporary).text.toList).countP Token.isPrimary =
      (if t.primaryKey = [] then 0 else 1) + (t.sql temporary).givenPrimaries
  /-- Where there is a key, the text says `PRIMARY KEY`. -/
  written : ∀ temporary, (t.sql temporary).Whole → t.primaryKey ≠ [] →
    [.word "PRIMARY".toList, .word "KEY".toList] <:+: Token.lex (t.sql temporary).text.toList

/-- **A sound builder gives a table with one key or none**, the key that was
declared. -/
theorem TableDraft.oneKey_of_build {d : TableDraft} {t : Table} (hsound : d.builder.Sound)
    (hworded : d.builder.Worded) (h : d.build = .ok t) :
    t.primaryKey = d.builder.key ∧ t.OneKey := by
  obtain ⟨-, hrowid, rfl⟩ := of_build h
  have hkey := primaryKey_table hsound
  have hnodup : (d.table.primaryKey.map Column.name).Nodup := hkey ▸ hsound.nodup_key
  have hsingle : d.table.columnKey.length ≤ 1 := hsound.single
  have ht : d.table.Worded := ⟨hworded.key, hworded.default?, hworded.checks⟩
  refine ⟨hkey, hnodup, fun i k hk => Table.indexInKey?_of_getElem? hnodup hk,
    fun c _ hc => Table.indexInKey?_eq_none hc, fun hneeds hnone => ?_,
    Table.ownPrimaries_sql ht hsingle, Table.countP_isPrimary_sql ht hsingle,
    Table.infix_of_primaryKey ht⟩
  have hfree : d.hasKey = false := by
    rw [hasKey_eq_false_iff]
    unfold Table.primaryKey at hnone
    split at hnone
    · next hcolumns =>
      rw [List.isEmpty_iff] at hcolumns
      refine ⟨List.any_eq_false.mpr fun c hc => ?_, hnone⟩
      exact List.filter_eq_nil_iff.mp hcolumns c hc
    · next hcolumns => exact absurd (List.isEmpty_iff.mpr hnone) hcolumns
  rw [hrowid hneeds] at hfree
  cases hfree

namespace TableCall

/-- **A builder keeps one primary key** through every run, whichever calls
were refused. A refusal leaves the builder as it was, the builder is sound,
and a table that it gives has the key that was declared or none. -/
theorem runAll_oneKey (name : Identifier) (n : ExprId) (calls : List TableCall) :
    let b := (runAll calls ({ name }, n)).1
    (∀ c m e, (call (b, m) c).1 = .error e → (call (b, m) c).2.1 = b) ∧ b.Sound ∧
      ∀ t, b.build = .ok t → t.primaryKey = b.key ∧ t.OneKey := by
  intro b
  obtain ⟨d, hb, hsound, hworded⟩ := runAll_spec name n calls
  have hbuilder : b = d.builder := hb
  rw [hbuilder]
  refine ⟨fun c m e hrefused => ?_, hsound, fun t ht => ?_⟩
  · obtain ⟨e', m', hcall⟩ | ⟨d', m', hcall, -⟩ := call_cases d m c
    · rw [hcall]
    · rw [hcall] at hrefused
      cases hrefused
  · rw [TableDraft.build_builder hsound] at ht
    exact TableDraft.oneKey_of_build hsound hworded ht

/-- A program whose second and third column are refused comes to a table with
the key of its first column. -/
theorem runAll_oneKey_refusing :
    let calls : List TableCall := [
      .column "id" (.scalar .long) [.primaryKey], .column "id" (.scalar .text) [],
      .column "n" (.scalar .long) [.primaryKey], .column "n" (.scalar .text) [.unique],
      .withoutRowid]
    ∃ t, (runAll calls ({ name := ⟨"t"⟩ }, 0)).1.build = .ok t ∧
      t.columns.map Column.name = [⟨"id"⟩, ⟨"n"⟩] ∧
      t.primaryKey.map Column.name = [⟨"id"⟩] ∧ t.OneKey := by
  intro calls
  obtain ⟨-, -, hbuild⟩ := runAll_oneKey ⟨"t"⟩ 0 calls
  exact ⟨_, rfl, rfl, rfl, (hbuild _ rfl).2⟩

/-- **A collation can say it too.** Its name is written without quotes, so
that a second column is the key in the text, though none was declared. -/
theorem primary_said_twice :
    let calls : List TableCall := [
      .column "a" (.scalar .long) [.primaryKey],
      .column "b" (.scalar .text) [.collate (.custom "NOCASE PRIMARY KEY")]]
    ∃ t, (runAll calls ({ name := ⟨"t"⟩ }, 0)).1.build = .ok t ∧
      t.primaryKey.map Column.name = [⟨"a"⟩] ∧
      (Token.lex (t.sql false).text.toList).countP Token.isPrimary = 2 :=
  ⟨_, rfl, rfl, by decide +kernel⟩

end TableCall

end TypedSql

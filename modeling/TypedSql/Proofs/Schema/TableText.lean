import TypedSql.Proofs.Schema.Builder
import TypedSql.Proofs.Term.Phrase
import TypedSql.Proofs.Term.Vocabulary
import Mathlib.Algebra.BigOperators.Group.List.Basic
import Mathlib.Algebra.GroupWithZero.Nat

/-!
# The primary key in the text of a table

How often the definition of a table says `PRIMARY KEY`. The definition is no
phrase: it takes over the collations and the defaults that a caller wrote,
and it has pieces without any words in them. It is read piece by piece all
the same if what was taken over leaves nothing open (`Sql.Readable`), and
then its tokens can be counted piece by piece.

The definition says it once if the table has a primary key, and not at all
otherwise, apart from what the caller's own texts say. A collation is taken
over without quotes. Its name can therefore say `PRIMARY KEY` too.
-/

namespace TypedSql

/-! ## Reading piece by piece

The tokens of a text that is put together are those of its pieces if no token
runs from one piece into the next. For what the library writes itself this is
known. For what a caller wrote it is a condition on each such text by itself
(`WholeText`), and it is enough, because the library writes a boundary behind
each of them. -/

/-- **A text that leaves nothing open**: its last token ends where the next
word or sign begins. -/
def WholeText (w : String) : Prop := (Piece.verbatim w).last.Bounded

instance (w : String) : Decidable (WholeText w) := inferInstanceAs (Decidable (Lexeme.Bounded _))

namespace Sql

open Phrase (AtBoundary)

/-- **What is taken over leaves nothing open.** -/
def Whole (s : Sql) : Prop := ∀ w, .verbatim w ∈ s → WholeText w

theorem Whole.mono {s t : Sql} (h : t.Whole) (hs : s ⊆ t) : s.Whole := fun w hw => h w (hs hw)

/-- **A part that is read piece by piece** in front of a boundary. -/
def Readable (s : Sql) : Prop :=
  ∀ rest, AtBoundary rest → Token.lex (s.text.toList ++ rest) = s.tokens ++ Token.lex rest

/-- **A part that may come behind a value**: it is read piece by piece, and
begins at a boundary unless it has no text. -/
structure Tail (s : Sql) : Prop where
  /-- It is read piece by piece. -/
  readable : s.Readable
  /-- It begins at a boundary. -/
  atBoundary : ∀ rest, AtBoundary rest → AtBoundary (s.text.toList ++ rest)

theorem readable_of_phrase {s : Sql} (h : Phrase s) : s.Readable := fun _ hrest =>
  h.split (fun _ _ _ hcs => Token.lex_append _ _ hcs) hrest

namespace Readable

theorem piece {p : Piece} (h : p.last.Bounded) : Readable [p] := fun rest hrest => by
  rw [toList_text_singleton, tokens_singleton]
  exact Token.lex_append _ _ fun c hc => h c (hrest c hc)

theorem lead {w : String} {s : Sql} (hw : (Piece.words w).last = .none) (hs : s.Readable) :
    Readable (words w ++ s) := fun rest hrest => by
  have hends : ∀ c, (s.text.toList ++ rest).head? = some c → Token.EndsBefore w.toList c :=
    fun c _ => by
      rw [Token.EndsBefore, show (Lexeme.none.scan w.toList).2 = .none from hw]
      rfl
  rw [toList_text_append, tokens_append, words, toList_text_singleton, tokens_singleton,
    List.append_assoc, List.append_assoc, ← hs rest hrest]
  exact Token.lex_append _ _ hends

theorem append {s t : Sql} (hs : s.Readable) (ht : t.Tail) : Readable (s ++ t) :=
  fun rest hrest => by
    rw [toList_text_append, tokens_append, List.append_assoc, List.append_assoc,
      hs _ (ht.atBoundary rest hrest), ht.readable rest hrest]

/-- **The tokens of a part** are those of its pieces. -/
theorem lex_text {s : Sql} (hs : s.Readable) : Token.lex s.text.toList = s.tokens := by
  have hread := hs [] nofun
  rwa [List.append_nil, show Token.lex [] = [] from rfl, List.append_nil] at hread

end Readable

namespace Tail

theorem nil : Tail [] := ⟨readable_of_phrase .nil, fun _ hrest => hrest⟩

theorem words {w : String} (first : ∃ c ∈ boundaries, w.toList.head? = some c)
    (last : (Piece.words w).last.Bounded) : Tail (Sql.words w) where
  readable := .piece last
  atBoundary _ hrest := Phrase.atBoundary_of_follows (t := Sql.words w) first hrest

theorem wordsOrNone {w : String}
    (h : w = "" ∨ (∃ c ∈ boundaries, w.toList.head? = some c) ∧ (Piece.words w).last.Bounded) :
    Tail (Sql.words w) := by
  rcases h with rfl | ⟨first, last⟩
  · exact ⟨.piece Lexeme.bounded_none, fun _ hrest => hrest⟩
  · exact .words first last

/-- Words that may stand behind a value in front of a part. -/
theorem lead {w : String} {s : Sql} (first : ∃ c ∈ boundaries, w.toList.head? = some c)
    (last : (Piece.words w).last = .none) (hs : s.Readable) : Tail (Sql.words w ++ s) where
  readable := .lead last hs
  atBoundary _ hrest := by
    obtain ⟨c, hc, hw⟩ := first
    exact Phrase.atBoundary_of_follows (t := Sql.words w ++ s) ⟨c, hc, hw⟩ hrest

theorem append {s t : Sql} (hs : s.Tail) (ht : t.Tail) : Tail (s ++ t) where
  readable := hs.readable.append ht
  atBoundary rest hrest := by
    rw [toList_text_append, List.append_assoc]
    exact hs.atBoundary _ (ht.atBoundary rest hrest)

end Tail

theorem Tail.flatMap {α : Type} {f : α → Sql} {as : List α} (h : ∀ a ∈ as, (f a).Tail) :
    Tail (as.flatMap f) := by
  induction as with
  | nil => exact .nil
  | cons a as ih =>
    exact (h a List.mem_cons_self).append (ih fun b hb => h b (List.mem_cons_of_mem a hb))

theorem Readable.parenthesized {s : Sql} (hs : s.Readable) : Readable (parenthesized s) := by
  rw [Sql.parenthesized, List.append_assoc]
  exact .lead (by decide) (hs.append (.words (by decide) (by decide)))

theorem subset_commaList {ss : List Sql} {s : Sql} (h : s ∈ ss) : s ⊆ commaList ss := by
  induction ss using Sql.commaList.induct with
  | case1 => cases h
  | case2 t => exact List.mem_singleton.mp h ▸ List.Subset.refl s
  | case3 t u rest ih =>
    rw [Sql.commaList]
    rcases List.mem_cons.mp h with rfl | h
    · exact List.subset_append_of_subset_left _ (List.subset_append_left _ _)
    · exact List.subset_append_of_subset_right _ (ih h)

theorem Readable.commaList {ss : List Sql} (h : ∀ s ∈ ss, Readable s) :
    Readable (commaList ss) := by
  induction ss using Sql.commaList.induct with
  | case1 => exact readable_of_phrase .nil
  | case2 s => exact h s List.mem_cons_self
  | case3 s t rest ih =>
    rw [Sql.commaList, List.append_assoc]
    exact (h s List.mem_cons_self).append (.lead (by decide) (by decide)
      (ih fun u hu => h u (List.mem_cons_of_mem s hu)))

end Sql

/-! ## The text of a table is read piece by piece -/

/-- A raw default is the text without the blanks around it, bare or in
parentheses. -/
theorem rawDefault_cases (text : String) :
    rawDefault text = Sql.verbatim (Text.trim text) ∨
      rawDefault text = Sql.parenthesized (Sql.verbatim (Text.trim text)) := by
  unfold rawDefault
  extract_lets trimmed
  split
  · exact .inl rfl
  · exact .inr rfl

namespace ColumnConstraint

/-- A constraint may come behind what is before it. -/
theorem tail (k : ColumnConstraint) (h : k.sql.Whole) : k.sql.Tail := by
  cases k with
  | primaryKey key =>
    obtain ⟨direction, choice, counting⟩ := key
    have hconflict : Sql.Tail (Sql.words choice.clause) := by
      cases choice <;> exact .wordsOrNone (by decide)
    have hcounting : Sql.Tail (Sql.words (if counting then " AUTOINCREMENT" else "")) := by
      cases counting <;> exact .wordsOrNone (by decide)
    refine .append (.append (.append (.words (by decide) (by decide)) ?_) hconflict) hcounting
    rcases direction with _ | _ | _ <;> dsimp only <;> exact .wordsOrNone (by decide)
  | unique onConflict =>
    exact .append (.words (by decide) (by decide)) (.wordsOrNone (by cases onConflict <;> decide))
  | collate collation =>
    have hbuiltin : ∀ {w : String}, (Piece.words w).last.Bounded →
        Sql.Tail (Sql.words " COLLATE " ++ Sql.words w) :=
      fun hw => .lead (by decide) (by decide) (.piece hw)
    cases collation with
    | binary => exact hbuiltin (by decide)
    | noCase => exact hbuiltin (by decide)
    | rtrim => exact hbuiltin (by decide)
    | custom name =>
      exact .lead (by decide) (by decide)
        (.piece (h name (List.mem_cons_of_mem _ List.mem_cons_self)))

end ColumnConstraint

namespace Column

theorem readable_rawDefault {text : String} (h : (rawDefault text).Whole) :
    (rawDefault text).Readable := by
  cases rawDefault_cases text with
  | inl hform =>
    rw [hform] at h ⊢
    exact .piece (h _ (List.mem_singleton.mpr rfl))
  | inr hform =>
    rw [hform] at h ⊢
    exact .parenthesized (.piece (h _ (List.mem_cons_of_mem _ List.mem_cons_self)))

/-- **The definition of a column** is read piece by piece. -/
theorem readable_sql (c : Column) (h : c.sql.Whole)
    (hdefault : ∀ s, c.default? = some s →
      (∃ v, s = [.literal c.codec v]) ∨ ∃ text, s = rawDefault text) : c.sql.Readable := by
  have hname : Sql.Readable (Sql.name c.name) :=
    .piece (Piece.bounded_of_isValue (p := .name c.name) trivial)
  have hclass : Sql.Tail (Sql.words (" " ++ c.codec.storageClass.sql)) := by
    cases c.codec.storageClass <;> exact .words (by decide) (by decide)
  have hnull : Sql.Tail (Sql.words (if c.codec.isNullable then "" else " NOT NULL")) := by
    cases c.codec.isNullable <;> exact .wordsOrNone (by decide)
  have hconstraints : Sql.Tail (c.constraints.flatMap ColumnConstraint.sql) :=
    .flatMap fun k hk => k.tail (h.mono fun p hp => by
      simp only [Column.sql, List.mem_append, List.mem_flatMap]
      exact .inl (.inr ⟨k, hk, hp⟩))
  rw [Column.sql]
  refine (((hname.append hclass).append hnull).append hconstraints).append ?_
  cases hgiven : c.default? with
  | none => exact .nil
  | some s =>
    refine .lead (by decide) (by decide) ?_
    obtain ⟨v, hs⟩ | ⟨text, hs⟩ := hdefault s hgiven
    · rw [hs]
      exact .piece (Piece.bounded_of_isValue (p := .literal c.codec v) trivial)
    · rw [hs] at hgiven ⊢
      refine readable_rawDefault (h.mono fun p hp => ?_)
      simp only [Column.sql, hgiven, List.mem_append]
      exact .inr (.inr hp)

end Column

/-- **The definition of a foreign key** is a phrase. -/
theorem ForeignKey.phrase (k : ForeignKey) : Phrase k.sql := by
  have haction : ∀ {s : Sql} {event : String} (action : ForeignKeyAction), Phrase s →
      (∀ a : ForeignKeyAction, a ≠ .noAction → Closer (event ++ a.sql)) →
      Phrase (s ++ actionSql event action) := by
    intro s event action hs hcloser
    unfold actionSql
    split
    · exact hs.append .nil trivial
    · next hne => exact hs.behind (hcloser action hne)
  have hname : Phrase (Sql.words "CONSTRAINT " ++ Sql.name k.name) :=
    .lead (by decide) (.value trivial)
  have hcolumn := hname.between (w := " FOREIGN KEY ") (by decide)
    (Phrase.value (p := .name k.column.name) trivial).parenthesized
  have htable := hcolumn.between (w := " REFERENCES ") (by decide)
    (.value (p := .name k.target.table) trivial)
  have htarget := htable.grouped (.value (p := .name k.target.name) trivial)
  refine haction k.onUpdate (haction k.onDelete htarget ?_) ?_
  · intro a ha
    cases a <;> first | exact absurd rfl ha | decide
  · intro a ha
    cases a <;> first | exact absurd rfl ha | decide

/-- **The definition of a condition** is a phrase. -/
theorem Check.phrase {k : Check} {t : Term} (h : k.condition = t.sql) : Phrase k.sql := by
  have hname : Phrase (Sql.words "CONSTRAINT " ++ Sql.name k.name) :=
    .lead (by decide) (.value trivial)
  rw [Check.sql, h]
  exact hname.between (by decide) t.phrase.parenthesized

/-- The definition of a key over several columns is a phrase. -/
theorem Table.phrase_keySql (t : Table) : ∀ s ∈ t.keySql, Phrase s := by
  unfold Table.keySql
  split
  · refine List.forall_mem_singleton.mpr ?_
    have hname : Phrase (Sql.words "CONSTRAINT " ++ Sql.name ⟨"pk_" ++ t.name.name⟩) :=
      .lead (by decide) (.value trivial)
    exact hname.between (by decide) (Phrase.names _).parenthesized
  · exact nofun

/-- **A table as its builder leaves it**, in the parts that are printed. -/
structure Table.Worded (t : Table) : Prop where
  /-- A column is the primary key once at most. -/
  key : ∀ c ∈ t.columns, c.constraints.countP ColumnConstraint.isPrimaryKey ≤ 1
  /-- A default is a value or text that was given. -/
  default? : ∀ c ∈ t.columns, ∀ s, c.default? = some s →
    (∃ v, s = [.literal c.codec v]) ∨ ∃ text, s = rawDefault text
  /-- A condition is a term. -/
  checks : ∀ check ∈ t.checks, ∃ condition : Term, check.condition = condition.sql

namespace Table

/-- The parts between the parentheses of a definition. -/
def parts (t : Table) : List Sql :=
  t.columns.map Column.sql ++ t.keySql ++ t.foreignKeys.map ForeignKey.sql ++
    t.checks.map Check.sql

theorem subset_sql {t : Table} {s : Sql} (h : s ∈ t.parts) (temporary : Bool) :
    s ⊆ t.sql temporary := by
  intro p hp
  have hlist : p ∈ Sql.commaList t.parts := Sql.subset_commaList h hp
  have hbody : p ∈ t.body := List.mem_append_left _
    (List.mem_append_right _ (List.mem_append_left _ (List.mem_append_right _ hlist)))
  exact List.mem_append_right _ hbody

/-- **The definition of a table** is read piece by piece. -/
theorem readable_sql {t : Table} (ht : t.Worded) (temporary : Bool)
    (h : (t.sql temporary).Whole) : (t.sql temporary).Readable := by
  have hparts : ∀ s ∈ t.parts, s.Readable := by
    intro s hs
    have hsub := subset_sql hs temporary
    simp only [parts, List.mem_append, List.mem_map] at hs
    rcases hs with ((⟨c, hc, rfl⟩ | hkey) | ⟨k, -, rfl⟩) | ⟨k, hk, rfl⟩
    · exact c.readable_sql (h.mono hsub) (ht.default? c hc)
    · exact Sql.readable_of_phrase (t.phrase_keySql s hkey)
    · exact Sql.readable_of_phrase k.phrase
    · obtain ⟨condition, hcondition⟩ := ht.checks k hk
      exact Sql.readable_of_phrase (Check.phrase hcondition)
  have hname : Sql.Readable (Sql.name t.name) :=
    .piece (Piece.bounded_of_isValue (p := .name t.name) trivial)
  have hopening : Sql.Tail (Sql.words " " ++ Sql.parenthesized (Sql.commaList t.parts)) :=
    .lead (by decide) (by decide) (.parenthesized (.commaList hparts))
  have hrowid : Sql.Tail (Sql.words (if t.withoutRowid then " WITHOUT ROWID" else "")) := by
    cases t.withoutRowid <;> exact .wordsOrNone (by decide)
  rw [Table.sql, Table.body, List.append_assoc (Sql.name t.name)]
  exact .lead (by cases temporary <;> decide) ((hname.append hopening).append hrowid)

end Table

/-! ## Counting the word

The count is split by who wrote a piece. What the library's own pieces say is
known from the table alone, and what the others say is not looked at any
further. The word is `PRIMARY`; no other part of a definition has it. -/

/-- Whether a token is the word `PRIMARY`. -/
def Token.isPrimary : Token → Bool
  | .word cs => cs.map Char.toUpper == "PRIMARY".toList
  | _ => false

namespace Piece

/-- How often a piece of the library's own says `PRIMARY`. -/
def ownPrimaries : Piece → Nat
  | .verbatim _ => 0
  | p => p.tokens.countP Token.isPrimary

/-- How often a text that is taken over says `PRIMARY`. -/
def givenPrimaries : Piece → Nat
  | .verbatim w => (Token.lex w.toList).countP Token.isPrimary
  | _ => 0

/-- A piece is the library's own or a caller's. -/
theorem countP_tokens (p : Piece) :
    p.tokens.countP Token.isPrimary = p.ownPrimaries + p.givenPrimaries := by
  cases p <;> first | exact (Nat.add_zero _).symm | exact (Nat.zero_add _).symm

/-- A value says no word. -/
theorem ownPrimaries_of_isValue {p : Piece} (h : p.IsValue) : p.ownPrimaries = 0 := by
  have hcount : p.tokens.countP Token.isPrimary = 0 := by
    refine List.countP_eq_zero.mpr fun t ht hprimary => ?_
    have hvalue := ofValue_of_isValue h t ht
    cases t with
    | word cs => cases hvalue
    | _ => cases hprimary
  cases p with
  | verbatim s => exact h.elim
  | _ => exact hcount

end Piece

namespace Sql

/-- How often the library's own pieces say `PRIMARY`. -/
def ownPrimaries (s : Sql) : Nat := (s.map Piece.ownPrimaries).sum

/-- How often the texts that are taken over say `PRIMARY`. -/
def givenPrimaries (s : Sql) : Nat := (s.map Piece.givenPrimaries).sum

/-- What a piece says is said by the whole. -/
theorem infix_tokens {p : Piece} {s : Sql} (h : p ∈ s) : p.tokens <:+: s.tokens := by
  obtain ⟨before, behind, rfl⟩ := List.append_of_mem h
  refine ⟨tokens before, tokens behind, ?_⟩
  rw [tokens_append, List.append_assoc]
  rfl

/-- **The word is counted piece by piece.** -/
theorem countP_tokens (s : Sql) :
    s.tokens.countP Token.isPrimary = s.ownPrimaries + s.givenPrimaries := by
  induction s with
  | nil => rfl
  | cons p s ih =>
    have hrest : List.countP Token.isPrimary (s.flatMap Piece.tokens) = _ := ih
    rw [tokens, List.flatMap_cons, List.countP_append, p.countP_tokens, hrest]
    simp only [ownPrimaries, givenPrimaries, List.map_cons, List.sum_cons]
    omega

theorem ownPrimaries_singleton (p : Piece) : ownPrimaries [p] = p.ownPrimaries := by
  rw [ownPrimaries, List.map_singleton, List.sum_singleton]

theorem ownPrimaries_append (s t : Sql) :
    (s ++ t).ownPrimaries = s.ownPrimaries + t.ownPrimaries := by
  simp only [ownPrimaries, List.map_append, List.sum_append]

/-- A list says what its parts say. -/
theorem ownPrimaries_commaList (ss : List Sql) :
    (commaList ss).ownPrimaries = (ss.map ownPrimaries).sum := by
  have hcomma : (words ", ").ownPrimaries = 0 := by decide
  induction ss using Sql.commaList.induct with
  | case1 => rfl
  | case2 s => exact (Nat.add_zero _).symm
  | case3 s t rest ih =>
    rw [commaList, ownPrimaries_append, ownPrimaries_append, hcomma, ih, List.map_cons,
      List.sum_cons]
    rfl

theorem ownPrimaries_parenthesized (s : Sql) :
    (parenthesized s).ownPrimaries = s.ownPrimaries := by
  have hopening : (words "(").ownPrimaries = 0 := by decide
  have hclosing : (words ")").ownPrimaries = 0 := by decide
  rw [parenthesized, ownPrimaries_append, ownPrimaries_append, hopening, hclosing, Nat.zero_add,
    Nat.add_zero]

/-- A raw default is the caller's own. -/
theorem ownPrimaries_rawDefault (text : String) : (rawDefault text).ownPrimaries = 0 := by
  cases rawDefault_cases text with
  | inl h =>
    rw [h]
    rfl
  | inr h =>
    rw [h, ownPrimaries_parenthesized]
    rfl

/-- **No term says it.** -/
theorem Spoken.ownPrimaries {s : Sql} (h : s.Spoken) : s.ownPrimaries = 0 := by
  have hvocabulary : ∀ w ∈ vocabulary, (Piece.words w).ownPrimaries = 0 := by decide +kernel
  refine List.sum_eq_zero fun n hn => ?_
  obtain ⟨p, hp, rfl⟩ := List.mem_map.mp hn
  obtain hvalue | ⟨w, hw, rfl⟩ := h p hp
  · exact Piece.ownPrimaries_of_isValue hvalue
  · exact hvocabulary w hw

end Sql

/-! ### In the parts of a definition -/

/-- A constraint says it if it is a primary key. -/
theorem ColumnConstraint.ownPrimaries_sql (k : ColumnConstraint) :
    k.sql.ownPrimaries = if k.isPrimaryKey then 1 else 0 := by
  have hconflict : ∀ choice : OnConflict, (Sql.words choice.clause).ownPrimaries = 0 := by
    rintro (_ | _ | _ | _ | _ | _) <;> decide
  cases k with
  | primaryKey key =>
    obtain ⟨direction, choice, counting⟩ := key
    have hkey : (Sql.words " PRIMARY KEY").ownPrimaries = 1 := by decide
    have hcounting : (Sql.words (if counting then " AUTOINCREMENT" else "")).ownPrimaries = 0 := by
      cases counting <;> decide
    rw [sql, Sql.ownPrimaries_append, Sql.ownPrimaries_append, Sql.ownPrimaries_append, hkey,
      hconflict, hcounting]
    show 1 + _ + 0 + 0 = 1
    rcases direction with _ | _ | _ <;> dsimp only <;> decide
  | unique onConflict =>
    rw [sql, Sql.ownPrimaries_append, hconflict]
    have hunique : (Sql.words " UNIQUE").ownPrimaries = 0 := by decide
    exact hunique
  | collate collation =>
    cases collation with
    | custom name => rfl
    | binary | noCase | rtrim => decide

/-- **A column says it** if it is the primary key. -/
theorem Column.ownPrimaries_sql {c : Column}
    (hkey : c.constraints.countP ColumnConstraint.isPrimaryKey ≤ 1)
    (hdefault : ∀ s, c.default? = some s →
      (∃ v, s = [.literal c.codec v]) ∨ ∃ text, s = rawDefault text) :
    c.sql.ownPrimaries = if c.isPrimaryKey then 1 else 0 := by
  have hname : (Sql.name c.name).ownPrimaries = 0 := by
    rw [Sql.name, Sql.ownPrimaries_singleton]
    exact Piece.ownPrimaries_of_isValue trivial
  have hclass : (Sql.words (" " ++ c.codec.storageClass.sql)).ownPrimaries = 0 := by
    cases c.codec.storageClass <;> decide
  have hnull : (Sql.words (if c.codec.isNullable then "" else " NOT NULL")).ownPrimaries = 0 := by
    cases c.codec.isNullable <;> decide
  have hconstraints : Sql.ownPrimaries (c.constraints.flatMap ColumnConstraint.sql) =
      c.constraints.countP ColumnConstraint.isPrimaryKey := by
    generalize c.constraints = ks
    induction ks with
    | nil => rfl
    | cons k ks ih =>
      rw [List.flatMap_cons, Sql.ownPrimaries_append, ih, k.ownPrimaries_sql, List.countP_cons,
        Nat.add_comm]
  have hgiven : ∀ s, c.default? = some s → s.ownPrimaries = 0 := by
    intro s hs
    obtain ⟨v, hform⟩ | ⟨text, hform⟩ := hdefault s hs
    · rw [hform, Sql.ownPrimaries_singleton]
      exact Piece.ownPrimaries_of_isValue trivial
    · rw [hform]
      exact Sql.ownPrimaries_rawDefault text
  have hcount : c.constraints.countP ColumnConstraint.isPrimaryKey =
      if c.isPrimaryKey then 1 else 0 := by
    have hpos : 0 < c.constraints.countP ColumnConstraint.isPrimaryKey ↔ c.isPrimaryKey = true := by
      rw [List.countP_pos_iff, Column.isPrimaryKey, List.any_eq_true]
    split
    · next h => exact Nat.le_antisymm hkey (hpos.mpr h)
    · next h => exact Nat.eq_zero_of_not_pos fun hlt => h (hpos.mp hlt)
  rw [sql, Sql.ownPrimaries_append, Sql.ownPrimaries_append, Sql.ownPrimaries_append,
    Sql.ownPrimaries_append, hname, hclass, hnull, hconstraints, hcount]
  cases hdefault? : c.default? with
  | none => simp only [Nat.zero_add]; rfl
  | some s =>
    have hword : (Sql.words " DEFAULT ").ownPrimaries = 0 := by decide
    simp only [Sql.ownPrimaries_append, hword, hgiven s hdefault?, Nat.zero_add, Nat.add_zero]

/-- A foreign key does not say it. -/
theorem ForeignKey.ownPrimaries_sql (k : ForeignKey) : k.sql.ownPrimaries = 0 := by
  have hname : ∀ i : Identifier, (Sql.name i).ownPrimaries = 0 := fun i => by
    rw [Sql.name, Sql.ownPrimaries_singleton]
    exact Piece.ownPrimaries_of_isValue trivial
  have hdelete : (actionSql " ON DELETE " k.onDelete).ownPrimaries = 0 := by
    cases k.onDelete <;> decide
  have hupdate : (actionSql " ON UPDATE " k.onUpdate).ownPrimaries = 0 := by
    cases k.onUpdate <;> decide
  have hconstraint : (Sql.words "CONSTRAINT ").ownPrimaries = 0 := by decide
  have hforeign : (Sql.words " FOREIGN KEY ").ownPrimaries = 0 := by decide
  have hreferences : (Sql.words " REFERENCES ").ownPrimaries = 0 := by decide
  simp only [sql, Sql.ownPrimaries_append, Sql.ownPrimaries_parenthesized, hname, hdelete, hupdate,
    hconstraint, hforeign, hreferences]

theorem Check.ownPrimaries_sql {k : Check} {t : Term} (h : k.condition = t.sql) :
    k.sql.ownPrimaries = 0 := by
  have hname : (Sql.name k.name).ownPrimaries = 0 := by
    rw [Sql.name, Sql.ownPrimaries_singleton]
    exact Piece.ownPrimaries_of_isValue trivial
  have hconstraint : (Sql.words "CONSTRAINT ").ownPrimaries = 0 := by decide
  have hcheck : (Sql.words " CHECK ").ownPrimaries = 0 := by decide
  simp only [sql, Sql.ownPrimaries_append, Sql.ownPrimaries_parenthesized, hname, hconstraint,
    hcheck, h, t.spoken.ownPrimaries]

theorem Column.same_self (c : Column) : c.same c = true := by
  simp only [same, beq_self_eq_true, Bool.and_self]

theorem Column.name_eq_of_same {c d : Column} (h : c.same d = true) : c.name = d.name := by
  simp only [same, Bool.and_eq_true, beq_iff_eq] at h
  exact h.1.2

namespace Table

variable {t : Table}

/-- The key over several columns says it if there is one and no column is the
key. -/
theorem ownPrimaries_keySql (t : Table) : (t.keySql.map Sql.ownPrimaries).sum =
    if t.columnKey = [] ∧ t.compositeKey ≠ [] then 1 else 0 := by
  have hnames : (Sql.names (t.compositeKey.map Column.name)).ownPrimaries = 0 := by
    rw [Sql.names, Sql.ownPrimaries_commaList]
    refine List.sum_eq_zero fun n hn => ?_
    simp only [List.mem_map] at hn
    obtain ⟨s, ⟨i, -, rfl⟩, rfl⟩ := hn
    rw [Sql.name, Sql.ownPrimaries_singleton]
    exact Piece.ownPrimaries_of_isValue trivial
  have hname : (Sql.name ⟨"pk_" ++ t.name.name⟩).ownPrimaries = 0 := by
    rw [Sql.name, Sql.ownPrimaries_singleton]
    exact Piece.ownPrimaries_of_isValue trivial
  have hconstraint : (Sql.words "CONSTRAINT ").ownPrimaries = 0 := by decide
  have hkey : (Sql.words " PRIMARY KEY ").ownPrimaries = 1 := by decide
  simp only [keySql, List.isEmpty_iff]
  split
  · simp only [List.map_singleton, List.sum_singleton, Sql.ownPrimaries_append,
      Sql.ownPrimaries_parenthesized, hnames, hname, hconstraint, hkey]
  · rfl

/-- Every column that is the key is counted once. -/
theorem sum_map_isPrimaryKey (columns : List Column) :
    (columns.map fun c => if c.isPrimaryKey then 1 else 0).sum =
      (columns.filter Column.isPrimaryKey).length := by
  induction columns with
  | nil => rfl
  | cons c cs ih =>
    rw [List.map_cons, List.sum_cons, ih, List.filter_cons]
    cases c.isPrimaryKey
    · exact Nat.zero_add _
    · exact Nat.add_comm 1 _

/-- **A definition says it once** if there is a primary key, and not at all
otherwise. -/
theorem ownPrimaries_sql (ht : t.Worded) (hsingle : t.columnKey.length ≤ 1) (temporary : Bool) :
    (t.sql temporary).ownPrimaries = if t.primaryKey = [] then 0 else 1 := by
  have hcolumns : ((t.columns.map Column.sql).map Sql.ownPrimaries).sum = t.columnKey.length := by
    rw [columnKey, ← sum_map_isPrimaryKey, List.map_map]
    exact congrArg List.sum (List.map_congr_left fun c hc =>
      Column.ownPrimaries_sql (ht.key c hc) (ht.default? c hc))
  have hforeign : ((t.foreignKeys.map ForeignKey.sql).map Sql.ownPrimaries).sum = 0 := by
    refine List.sum_eq_zero fun n hn => ?_
    simp only [List.mem_map] at hn
    obtain ⟨s, ⟨k, -, rfl⟩, rfl⟩ := hn
    exact k.ownPrimaries_sql
  have hchecks : ((t.checks.map Check.sql).map Sql.ownPrimaries).sum = 0 := by
    refine List.sum_eq_zero fun n hn => ?_
    simp only [List.mem_map] at hn
    obtain ⟨s, ⟨k, hk, rfl⟩, rfl⟩ := hn
    obtain ⟨condition, hcondition⟩ := ht.checks k hk
    exact Check.ownPrimaries_sql hcondition
  have hname : (Sql.name t.name).ownPrimaries = 0 := by
    rw [Sql.name, Sql.ownPrimaries_singleton]
    exact Piece.ownPrimaries_of_isValue trivial
  have hcreate : (Sql.words (if temporary then "CREATE TEMP TABLE IF NOT EXISTS "
      else "CREATE TABLE IF NOT EXISTS ")).ownPrimaries = 0 := by
    cases temporary <;> decide
  have hblank : (Sql.words " ").ownPrimaries = 0 := by decide
  have hrowid : (Sql.words (if t.withoutRowid then " WITHOUT ROWID" else "")).ownPrimaries = 0 := by
    cases t.withoutRowid <;> decide
  have hparts : (t.sql temporary).ownPrimaries =
      t.columnKey.length + if t.columnKey = [] ∧ t.compositeKey ≠ [] then 1 else 0 := by
    rw [sql, body]
    simp only [Sql.ownPrimaries_append, Sql.ownPrimaries_parenthesized,
      Sql.ownPrimaries_commaList, List.map_append, List.sum_append, hcolumns, hforeign, hchecks,
      ownPrimaries_keySql, hname, hcreate, hblank, hrowid, Nat.zero_add, Nat.add_zero]
  rw [hparts, primaryKey]
  cases hkey : t.columnKey with
  | nil =>
    by_cases hcomposite : t.compositeKey = [] <;> simp [hcomposite]
  | cons c cs =>
    rw [hkey] at hsingle
    simp only [List.length_cons] at hsingle
    have hcs : cs = [] := List.eq_nil_of_length_eq_zero (by omega)
    simp [hcs]

/-- **How often the text of a definition says `PRIMARY`**: once for its
primary key, and as often as what was taken over does. -/
theorem countP_isPrimary_sql (ht : t.Worded) (hsingle : t.columnKey.length ≤ 1)
    (temporary : Bool) (hwhole : (t.sql temporary).Whole) :
    (Token.lex (t.sql temporary).text.toList).countP Token.isPrimary =
      (if t.primaryKey = [] then 0 else 1) + (t.sql temporary).givenPrimaries := by
  rw [(readable_sql ht temporary hwhole).lex_text, Sql.countP_tokens,
    ownPrimaries_sql ht hsingle temporary]

/-- **A primary key is written** as `PRIMARY KEY`. -/
theorem infix_of_primaryKey (ht : t.Worded) (temporary : Bool)
    (hwhole : (t.sql temporary).Whole) (hkey : t.primaryKey ≠ []) :
    [.word "PRIMARY".toList, .word "KEY".toList] <:+: Token.lex (t.sql temporary).text.toList := by
  rw [(readable_sql ht temporary hwhole).lex_text]
  have hpart : ∀ {w : String} {s : Sql}, s ∈ t.parts → .words w ∈ s →
      (Piece.words w).tokens <:+: (t.sql temporary).tokens := fun hs hw =>
    Sql.infix_tokens (subset_sql hs temporary hw)
  unfold primaryKey at hkey
  split at hkey
  · next hcolumn =>
    have hform : t.keySql = [_] := if_pos ⟨hcolumn, hkey⟩
    have hmem : ∀ s ∈ t.keySql, s ∈ t.parts := fun s hs => by
      simp only [parts, List.mem_append]
      exact .inl (.inl (.inr hs))
    rw [show [.word "PRIMARY".toList, .word "KEY".toList] = (Piece.words " PRIMARY KEY ").tokens
      by decide]
    refine hpart (hmem _ (hform ▸ List.mem_singleton_self _)) ?_
    simp only [List.mem_append]
    exact .inl (.inr (List.mem_singleton_self _))
  · next hcolumn =>
    obtain ⟨c, hc⟩ := List.exists_mem_of_ne_nil _ hkey
    obtain ⟨hmem, hprimary⟩ := List.mem_filter.mp hc
    obtain ⟨k, hk, hkind⟩ := List.any_eq_true.mp hprimary
    rw [show [.word "PRIMARY".toList, .word "KEY".toList] = (Piece.words " PRIMARY KEY").tokens
      by decide]
    refine hpart (s := c.sql) ?_ ?_
    · simp only [parts, List.mem_append]
      exact .inl (.inl (.inl (List.mem_map_of_mem hmem)))
    · have hword : .words " PRIMARY KEY" ∈ k.sql := by
        cases k with
        | primaryKey key => exact List.mem_cons_self
        | unique | collate => cases hkind
      simp only [Column.sql, List.mem_append, List.mem_flatMap]
      exact .inl (.inr ⟨k, hk, hword⟩)

/-! ### Places in the key -/

/-- **The columns of the key are numbered** in its order. -/
theorem indexInKey?_of_getElem? (hdistinct : (t.primaryKey.map Column.name).Nodup) {i : Nat}
    {k : Column} (h : t.primaryKey[i]? = some k) : t.indexInKey? k = some (i + 1) := by
  obtain ⟨hi, rfl⟩ := List.getElem?_eq_some_iff.mp h
  refine Option.map_eq_some_iff.mpr ⟨i, ?_, rfl⟩
  refine List.findIdx?_eq_some_iff_getElem.mpr ⟨hi, Column.same_self _, fun j hj hsame => ?_⟩
  have hne : (t.primaryKey.map Column.name)[j]? ≠ (t.primaryKey.map Column.name)[i]? :=
    List.nodup_iff_getElem?_ne_getElem?.mp hdistinct j i hj (by rwa [List.length_map])
  refine hne ?_
  rw [List.getElem?_map, List.getElem?_map, List.getElem?_eq_getElem hi,
    List.getElem?_eq_getElem (hj.trans hi), Option.map_some, Option.map_some,
    Column.name_eq_of_same hsame]

theorem indexInKey?_eq_none {c : Column} (h : ∀ k ∈ t.primaryKey, k.same c = false) :
    t.indexInKey? c = none := by
  rw [indexInKey?, List.findIdx?_eq_none_iff.mpr h, Option.map_none]

end Table

end TypedSql

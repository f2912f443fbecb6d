import TypedSql.Proofs.Schema.Built
import TypedSql.Proofs.Schema.TriggerBody

/-!
# What is stored is never bound

Tables, views and triggers are kept by the engine as text, and nobody is
there to bind an argument when it is used. So no text that is stored shows a
question mark outside quotes, whatever the names, aliases and texts in it are.

The definitions of tables and triggers are no phrases: some of their words
may be empty, and a trigger has semicolons. `Sql.Storable` is what is left of
a phrase that can be put together part by part all the same, and
`SchemaObject.Stored.storable` says it of every object that programs build.
-/

namespace TypedSql

/-! ## Texts that can be stored

A scan for quotes stands at a quote behind one part if the part left it open,
and then what follows is inside. A text that can be stored leaves none open,
but it may end with a quote, and a quote that comes next would be taken for the
second of two. So what comes behind has to begin with something else, which is
the only condition on putting parts together (`StorableBehind`). -/

/-- **A text that can be stored.** -/
structure Sql.Storable (s : Sql) : Prop where
  /-- No quote is left open. -/
  closed : openQuote s.text.toList = []
  /-- No question mark stands outside quotes. -/
  unmarked : placeholders s.text.toList = []

/-- Words without quotes and question marks. -/
def BareWords (w : String) : Prop := ∀ c ∈ w.toList, c ∉ ['"', '\'', '?']

instance (w : String) : Decidable (BareWords w) := inferInstanceAs (Decidable (∀ _ ∈ _, _))

theorem BareWords.plain {w : String} (h : BareWords w) : ∀ c ∈ w.toList, c ≠ '"' ∧ c ≠ '\'' := by
  intro c hc
  have hbare := h c hc
  simp only [List.mem_cons, List.not_mem_nil, or_false, not_or] at hbare
  exact ⟨hbare.1, hbare.2.1⟩

namespace Sql

/-- **A part that may come behind a value**: no quote begins it. -/
structure StorableBehind (s : Sql) : Prop extends s.Storable where
  /-- It is empty or begins with something else. -/
  begins : ∀ c, s.text.toList.head? = some c → c ≠ '"' ∧ c ≠ '\''

/-- Where a question mark is seen, one is counted. -/
theorem placeholders_eq_nil {cs : List Char} : placeholders cs = [] ↔ some '?' ∉ unquoted cs := by
  constructor
  · rw [placeholders]
    generalize 0 = n
    generalize unquoted cs = v
    intro h hmem
    induction v generalizing n with
    | nil => cases hmem
    | cons x v ih =>
      rw [marks] at h
      split at h
      · cases h
      · next hx =>
        exact ih (n + 1) h ((List.mem_cons.mp hmem).resolve_left fun heq => hx heq.symm)
  · exact fun h => marks_eq_nil h 0

/-- A scan that stands at one of the two quotes, if at any. -/
def AtQuote : Place → Prop
  | .outside => True
  | .inside q => q = '"' ∨ q = '\''
  | .closing q => q = '"' ∨ q = '\''

theorem AtQuote.enter (c : Char) : AtQuote (Place.enter c) := by
  by_cases hc : c = '"' ∨ c = '\''
  · rw [Place.enter, if_pos hc]
    exact hc
  · rw [Place.enter, if_neg hc]
    trivial

/-- A scan stays at the quotes. -/
theorem AtQuote.next {p : Place} (hp : AtQuote p) (c : Char) : AtQuote (p.next c) := by
  cases p with
  | outside => exact .enter c
  | inside q =>
    by_cases hc : c = q
    · rw [Place.next, if_pos hc]
      exact hp
    · rw [Place.next, if_neg hc]
      exact hp
  | closing q =>
    by_cases hc : c = q
    · rw [Place.next, if_pos hc]
      exact hp
    · rw [Place.next, if_neg hc]
      exact .enter c

/-- A scan from outside only ever stands at one of the two quotes. -/
theorem AtQuote.after {p : Place} (hp : AtQuote p) (cs : List Char) : AtQuote (p.after cs) := by
  induction cs generalizing p with
  | nil => exact hp
  | cons c cs ih => exact ih (hp.next c)

/-- **Behind a text that leaves nothing open** the scan is as good as outside,
unless a quote comes next. -/
theorem leaves_of_openQuote {cs : List Char} (h : openQuote cs = []) {rest : List Char}
    (hrest : ∀ c, rest.head? = some c → c ≠ '"' ∧ c ≠ '\'') :
    (Place.outside.after cs).Leaves rest := by
  cases hplace : Place.outside.after cs with
  | outside => exact .inl rfl
  | inside q =>
    rw [openQuote, hplace] at h
    cases h
  | closing q =>
    -- the same quote next would be a doubled one inside
    refine .inr ⟨q, rfl, fun c hc heq => ?_⟩
    obtain ⟨hname, htext⟩ := hrest c hc
    have hquote := AtQuote.after (p := .outside) trivial cs
    rw [hplace] at hquote
    rcases hquote with hq | hq
    · exact hname (heq.trans hq)
    · exact htext (heq.trans hq)

namespace Storable

variable {s t : Sql}

/-- Text behind text: the scan goes on as if nothing had been before. -/
theorem of_leaves (hs : s.Storable) (ht : t.Storable)
    (h : (Place.outside.after s.text.toList).Leaves t.text.toList) : Storable (s ++ t) where
  closed := by
    rw [toList_text_append, openQuote, Place.after_append, h.pending_after]
    exact ht.closed
  unmarked := by
    rw [placeholders_eq_nil, toList_text_append, unquoted, Place.view_append, h.view_eq,
      List.mem_append, not_or]
    exact ⟨placeholders_eq_nil.mp hs.unmarked, placeholders_eq_nil.mp ht.unmarked⟩

/-- **A part behind another one.** -/
theorem append (hs : s.Storable) (ht : t.StorableBehind) : Storable (s ++ t) :=
  hs.of_leaves ht.toStorable (leaves_of_openQuote hs.closed ht.begins)

theorem of_phrase (h : Phrase s) (hslots : s.slots = []) : s.Storable where
  closed := h.openQuote_text
  unmarked := by
    have hnone := Sql.map_snd_slotsFrom 0 s
    rw [hslots, List.map_eq_nil_iff] at hnone
    rw [placeholders, h.marks_text, hnone, List.map_nil]

theorem name (i : Identifier) : Storable (Sql.name i) := .of_phrase (.value trivial) rfl

/-- Words. -/
theorem words {w : String} (h : BareWords w) :
    Storable (Sql.words w) ∧ Place.outside.after (Sql.text (Sql.words w)).toList = .outside := by
  obtain ⟨hafter, hview⟩ := Place.outside_of_plain h.plain
  rw [Sql.words, toList_text_singleton, Piece.text]
  refine ⟨⟨?_, ?_⟩, hafter⟩
  · rw [toList_text_singleton, Piece.text, openQuote, hafter]
    rfl
  · rw [placeholders_eq_nil, toList_text_singleton, Piece.text, unquoted, hview]
    intro hmem
    obtain ⟨c, hc, heq⟩ := List.mem_map.mp hmem
    exact h c hc (by rw [Option.some.inj heq]; decide)

theorem lead {w : String} (h : BareWords w) (hs : s.Storable) : Storable (Sql.words w ++ s) :=
  (words h).1.of_leaves hs (.inl (words h).2)

end Storable

namespace StorableBehind

variable {s t : Sql}

theorem nil : StorableBehind [] := ⟨.of_phrase .nil rfl, nofun⟩

theorem words {w : String} (h : BareWords w) : StorableBehind (Sql.words w) where
  toStorable := (Storable.words h).1
  begins c hc := by
    rw [Sql.words, toList_text_singleton, Piece.text] at hc
    exact h.plain c (List.mem_of_head? hc)

/-- A part and another one behind it. -/
theorem append (hs : s.StorableBehind) (ht : t.StorableBehind) : StorableBehind (s ++ t) where
  toStorable := hs.toStorable.append ht
  begins c hc := by
    rw [toList_text_append, List.head?_append] at hc
    cases hfirst : s.text.toList.head? with
    | none =>
      rw [hfirst] at hc
      exact ht.begins c hc
    | some d =>
      rw [hfirst] at hc
      obtain rfl := Option.some.inj hc
      exact hs.begins d hfirst

/-- Words, of which there are some, in front of a part. -/
theorem lead {w : String} (h : BareWords w) (hne : w.toList ≠ []) (hs : s.Storable) :
    StorableBehind (Sql.words w ++ s) where
  toStorable := .lead h hs
  begins c hc := by
    refine (words h).begins c ?_
    rw [toList_text_append, List.head?_append] at hc
    cases hw : w.toList with
    | nil => exact absurd hw hne
    | cons first rest =>
      rw [Sql.words, toList_text_singleton, Piece.text, hw] at hc ⊢
      exact hc

theorem flatMap {α : Type} {f : α → Sql} {as : List α} (h : ∀ a ∈ as, (f a).StorableBehind) :
    StorableBehind (as.flatMap f) := by
  induction as with
  | nil => exact .nil
  | cons a as ih =>
    exact (h a List.mem_cons_self).append (ih fun b hb => h b (List.mem_cons_of_mem a hb))

theorem parenthesized (hs : s.Storable) : StorableBehind (Sql.parenthesized s) := by
  rw [Sql.parenthesized, List.append_assoc]
  exact .lead (by decide) (by decide) (hs.append (.words (by decide)))

end StorableBehind

theorem Storable.commaList {ss : List Sql} (h : ∀ s ∈ ss, Storable s) :
    Storable (commaList ss) := by
  induction ss using Sql.commaList.induct with
  | case1 => exact .of_phrase .nil rfl
  | case2 s => exact h s List.mem_cons_self
  | case3 s t rest ih =>
    rw [Sql.commaList, List.append_assoc]
    exact (h s List.mem_cons_self).append (.lead (by decide) (by decide)
      (ih fun u hu => h u (List.mem_cons_of_mem s hu)))

theorem Storable.names (is : List Identifier) : Storable (Sql.names is) :=
  .of_phrase (.names is) (Statement.slots_names is)

end Sql

/-! ## Tables -/

/-- **A column that takes nothing over** from the caller. -/
structure Column.Ordinary (c : Column) : Prop where
  /-- Its default is not raw text. -/
  default? : ∀ text, c.default? ≠ some (rawDefault text)
  /-- It has no collation but those of the library. -/
  collation : ∀ name, .collate (.custom name) ∉ c.constraints

/-- A constraint that takes nothing over. -/
theorem ColumnConstraint.storableBehind {k : ColumnConstraint}
    (h : ∀ name, k ≠ .collate (.custom name)) : k.sql.StorableBehind := by
  cases k with
  | primaryKey key =>
    obtain ⟨direction, choice, counting⟩ := key
    have hcounting : Sql.StorableBehind
        (Sql.words (if counting then " AUTOINCREMENT" else "")) := by
      cases counting <;> exact .words (by decide)
    have hconflict : Sql.StorableBehind (Sql.words choice.clause) :=
      .words (by cases choice <;> decide)
    refine .append (.append (.append (.words (by decide)) ?_) hconflict) hcounting
    rcases direction with _ | _ | _ <;> dsimp only <;> exact .words (by decide)
  | unique onConflict =>
    exact .append (.words (by decide)) (.words (by cases onConflict <;> decide))
  | collate collation =>
    cases collation with
    | custom name => exact absurd rfl (h name)
    | binary | noCase | rtrim => exact .append (.words (by decide)) (.words (by decide))

/-- The definition of a column that takes nothing over. -/
theorem Column.Ordinary.storable {c : Column} (h : c.Ordinary)
    (hdefault : ∀ s, c.default? = some s →
      (∃ v, s = [.literal c.codec v]) ∨ ∃ text, s = rawDefault text) : c.sql.Storable := by
  have hclass : Sql.StorableBehind (Sql.words (" " ++ c.codec.storageClass.sql)) :=
    .words (by cases c.codec.storageClass <;> decide)
  have hnull : Sql.StorableBehind (Sql.words (if c.codec.isNullable then "" else " NOT NULL")) :=
    .words (by cases c.codec.isNullable <;> decide)
  have hconstraints : Sql.StorableBehind (c.constraints.flatMap ColumnConstraint.sql) :=
    .flatMap fun k hk => ColumnConstraint.storableBehind fun name hname =>
      h.collation name (hname ▸ hk)
  rw [Column.sql]
  refine ((((Sql.Storable.name c.name).append hclass).append hnull).append hconstraints).append ?_
  cases hgiven : c.default? with
  | none => exact .nil
  | some s =>
    obtain ⟨v, hs⟩ | ⟨text, hs⟩ := hdefault s hgiven
    · rw [hs]
      exact .lead (by decide) (by decide)
        (.of_phrase (.value (p := .literal c.codec v) trivial) (List.filterMap_cons_none rfl))
    · exact absurd (hs ▸ hgiven) (h.default? text)

theorem Index.storable (i : Index) : i.sql.Storable := by
  have hname : Sql.Storable (Sql.words (if i.unique then "CREATE UNIQUE INDEX IF NOT EXISTS "
      else "CREATE INDEX IF NOT EXISTS ") ++ Sql.name i.name) :=
    .lead (by cases i.unique <;> decide) (.name i.name)
  rw [Index.sql, List.append_assoc _ (Sql.words " ON ")]
  exact (hname.append (.lead (by decide) (by decide) (.name i.table))).append
    (.parenthesized (.names i.columns))

/-- The definition of a table whose columns take nothing over. -/
theorem Table.Built.storable {t : Table} (h : t.Built) (hcolumns : ∀ c ∈ t.columns, c.Ordinary)
    (temporary : Bool) : (t.sql temporary).Storable := by
  have hparts : ∀ s ∈ t.parts, s.Storable := by
    intro s hs
    have hslots := h.slots_parts s hs
    simp only [Table.parts, List.mem_append, List.mem_map] at hs
    rcases hs with ((⟨c, hc, rfl⟩ | hkey) | ⟨k, -, rfl⟩) | ⟨k, hk, rfl⟩
    · exact (hcolumns c hc).storable (h.worded.default? c hc)
    · exact .of_phrase (t.phrase_keySql s hkey) hslots
    · exact .of_phrase k.phrase hslots
    · obtain ⟨condition, hcondition⟩ := h.worded.checks k hk
      exact .of_phrase (Check.phrase hcondition) hslots
  have hrowid : Sql.StorableBehind (Sql.words (if t.withoutRowid then " WITHOUT ROWID" else "")) :=
    .words (by cases t.withoutRowid <;> decide)
  have hbody : t.body.Storable := by
    rw [Table.body, List.append_assoc (Sql.name t.name)]
    exact ((Sql.Storable.name t.name).append (.lead (by decide) (by decide)
      (Sql.StorableBehind.parenthesized (.commaList hparts)).toStorable)).append hrowid
  exact .lead (by cases temporary <;> decide) hbody

/-! ## Views -/

/-- A view shows the query that it was made of. -/
theorem View.query_of {name : Identifier} {query : Sql} {items : List Item}
    {columns : List ViewColumn} {temporary : Bool} {n n' : ExprId} {v : View}
    (h : (View.of name query items columns temporary).run.run n = (.ok v, n')) :
    v.query = query := by
  unfold View.of at h
  split at h
  · split at h
    · cases h
      rfl
    · split at h
      · cases h
      · cases harrange : View.arrange name items columns with
        | error e =>
          rw [harrange] at h
          cases h
        | ok arranged =>
          rw [harrange] at h
          cases h
          rfl
  · cases h

/-- The definition of a view of a query. -/
theorem View.storable {v : View} {q : Select} (h : v.query = q.sql) (temporary : Bool) :
    (v.sql temporary).Storable := by
  have hquery : v.query.Storable := .of_phrase (h ▸ q.phrase) v.slots_nil
  have hname : Sql.Storable (Sql.words (if temporary || v.temporary
      then "CREATE TEMP VIEW IF NOT EXISTS " else "CREATE VIEW IF NOT EXISTS ") ++
      Sql.name v.name) :=
    .lead (by cases temporary <;> cases v.temporary <;> decide) (.name v.name)
  rw [View.sql, List.append_assoc _ (Sql.words " AS ")]
  refine (hname.append ?_).append (.lead (by decide) (by decide) hquery)
  cases v.declared? with
  | none => exact .nil
  | some names =>
    exact .lead (by decide) (by decide) (Sql.StorableBehind.parenthesized (.names names)).toStorable

/-! ## Triggers

The statements of a trigger stand one behind the other with a semicolon behind
each, and each of them is a phrase without placeholders, since nothing else was
stored. -/

/-- Statements with a semicolon behind each. -/
theorem Trigger.storable_body {body : List StoredSql}
    (h : ∀ w ∈ body, ∃ s : Statement, w.sql = s.sql) :
    Sql.Storable (body.flatMap (fun s => s.sql ++ Sql.words "; ") ++ Sql.words "END") := by
  induction body with
  | nil => exact (Sql.Storable.words (by decide)).1
  | cons w body ih =>
    rw [List.forall_mem_cons] at h
    obtain ⟨⟨s, hs⟩, hbody⟩ := h
    rw [List.flatMap_cons, List.append_assoc, List.append_assoc]
    exact (Sql.Storable.of_phrase (hs ▸ s.phrase) w.slots_nil).append
      (.lead (by decide) (by decide) (ih hbody))

/-- The definition of a trigger. -/
theorem Trigger.Built.storable {t : Trigger} (h : t.Built) (temporary : Bool) :
    (t.sql temporary).Storable := by
  obtain ⟨d, hd, hfinish⟩ := h
  have hworded := hd.worded
  obtain ⟨-, rfl⟩ := Trigger.of_finish? hfinish
  have hname : Sql.Storable (Sql.words (if temporary || d.head.temporary
      then "CREATE TEMP TRIGGER IF NOT EXISTS " else "CREATE TRIGGER IF NOT EXISTS ") ++
      Sql.name d.head.name) :=
    .lead (by cases temporary <;> cases d.head.temporary <;> decide) (.name d.head.name)
  have hevent : Sql.StorableBehind
      (Sql.words (" " ++ d.head.timing.sql ++ " " ++ d.head.event.sql)) :=
    .words (by cases d.head.timing <;> cases d.head.event <;> decide)
  have hcolumns : Sql.StorableBehind (if d.head.updateOf.isEmpty then []
      else Sql.words " OF " ++ Sql.names d.head.updateOf) := by
    split
    · exact .nil
    · exact .lead (by decide) (by decide) (.names d.head.updateOf)
  have hbody : Sql.StorableBehind (Sql.words " BEGIN " ++
      (d.body.flatMap (fun s => s.sql ++ Sql.words "; ") ++ Sql.words "END")) :=
    .lead (by decide) (by decide) (storable_body hworded.body)
  have htable : Sql.StorableBehind (Sql.words " ON " ++ Sql.name d.head.table.name) :=
    .lead (by decide) (by decide) (.name _)
  rw [Trigger.sql, List.append_assoc _ (Sql.words " ON "), List.append_assoc _ (List.flatMap _ _),
    List.append_assoc _ (Sql.words " BEGIN ")]
  refine ((((hname.append hevent).append hcolumns).append htable).append ?_).append hbody
  cases hwhen : d.when? with
  | none => exact .nil
  | some condition =>
    obtain ⟨c, hc⟩ := hworded.condition condition hwhen
    exact .lead (by decide) (by decide) (.of_phrase (hc ▸ c.phrase) condition.slots_nil)

/-! ## Every object that is stored -/

/-- **The objects that programs build** and have stored. -/
inductive SchemaObject.Stored : SchemaObject → Prop
  /-- A table whose columns take nothing over, with its indices. -/
  | table {t : Table} : t.Built → (∀ c ∈ t.columns, c.Ordinary) → Stored t.object
  /-- A view of a query. -/
  | view {name : Identifier} {q : Select} {columns : List ViewColumn} {temporary : Bool}
      {n n' : ExprId} {v : View} :
    (View.of name q.sql q.items columns temporary).run.run n = (.ok v, n') → Stored v.object
  /-- A trigger. -/
  | trigger {t : Trigger} : t.Built → Stored t.object

/-- **Whatever is stored can be stored.** -/
theorem SchemaObject.Stored.storable {o : SchemaObject} (h : o.Stored) (temporary : Bool) :
    ∀ s ∈ o.create temporary, s.Storable := by
  cases h with
  | @table t hbuilt hcolumns =>
    refine List.forall_mem_cons.mpr ⟨hbuilt.storable hcolumns temporary, fun s hs => ?_⟩
    obtain ⟨i, -, rfl⟩ := List.mem_map.mp hs
    exact i.storable
  | view h => exact List.forall_mem_singleton.mpr (View.storable (View.query_of h) temporary)
  | trigger h => exact List.forall_mem_singleton.mpr (h.storable temporary)

end TypedSql

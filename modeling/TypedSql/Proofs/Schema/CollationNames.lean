import TypedSql.Proofs.Schema.Built
import TypedSql.Proofs.Sql.Word

/-!
# Names of collations

What a reader of the definition of a table takes for the names of collations:
the token behind each `COLLATE`. All other names are written in quotes. The
name of a collation is written as it was given, so what is behind the word is
whatever tokens the name has by itself.

`Token.Collated` says how a definition is made as far as this is concerned:
tokens without the word, and the word with the tokens of a name, behind which
something comes that is no name. By induction on it, a reader finds the names
exactly if each of them is a single word by itself (`Collation.IsName`), and
then the other tokens are the same whatever the names are. The bound on the
length of tokens is what makes this an equivalence: if the first token behind
`COLLATE` is the name, it is all of the name (`Token.lex_eq_word_of_cons`).

The built-in collations are words, and so are letters and digits with a letter
in front. A name with a blank, a comma or a parenthesis in it is none, and it
does not stay a name in the definition (`TableCall.collation_in_pieces`).
-/

namespace TypedSql

/-! ## Reading names of collations

A reader does not know the table. It takes the token behind each word `COLLATE`
and asks whether this token is a name; which words are reserved depends on the
dialect and is left open. -/

namespace Token

/-- Whether a token is the word `COLLATE`. -/
def isCollate : Token → Bool
  | .word cs => cs.map Char.toUpper == ['C', 'O', 'L', 'L', 'A', 'T', 'E']
  | _ => false

/-- **The tokens behind each `COLLATE`**, and all the others. Nothing is behind
the word at the end of a text. -/
def collations : List Token → List (Option Token) × List Token
  | [] => ([], [])
  | [t] => if t.isCollate then ([none], [t]) else ([], [t])
  | t :: u :: us =>
    if t.isCollate then (some u :: (collations us).1, t :: (collations us).2)
    else ((collations (u :: us)).1, t :: (collations (u :: us)).2)

/-- **The name that a token says**, if it is a name: a word that is not
reserved, or what is in quotes. -/
def name? (reserved : List Char → Bool) : Token → Option String
  | .word cs => if reserved cs then none else some (String.ofList cs)
  | .name i => some i.name
  | _ => none

/-- The names that are read. -/
def collationNames (reserved : List Char → Bool) (ts : List Token) : List (Option String) :=
  (collations ts).1.map fun t => t.bind (name? reserved)

/-- The word before a collation. -/
def collate : Token := .word ['C', 'O', 'L', 'L', 'A', 'T', 'E']

theorem collationNames_collate (reserved : List Char → Bool) (t : Token) (ts : List Token) :
    collationNames reserved (collate :: t :: ts) =
      t.name? reserved :: collationNames reserved ts := rfl

theorem collations_cons {t : Token} (h : t.isCollate = false) (ts : List Token) :
    collations (t :: ts) = ((collations ts).1, t :: (collations ts).2) := by
  have ht : ¬t.isCollate = true := fun hcollate => Bool.false_ne_true (h.symm.trans hcollate)
  cases ts with
  | nil => exact if_neg ht
  | cons u us => exact if_neg ht

theorem collations_append {q : List Token} (h : ∀ t ∈ q, t.isCollate = false) (ts : List Token) :
    collations (q ++ ts) = ((collations ts).1, q ++ (collations ts).2) := by
  induction q with
  | nil => rfl
  | cons t q ih =>
    rw [List.forall_mem_cons] at h
    rw [List.cons_append, collations_cons h.1, ih h.2]
    rfl

/-! ## How a definition is made

Two things can go wrong at a name: it can be more than one token, or its first
token can be no name. What comes behind a name is a fence, a token that is no
name, so a name without tokens is noticed as well. This is why `Collated`
records the fence and not only the names. -/

/-- The tokens that may come behind the name of a collation. -/
def fences : List Token :=
  [collate, .comma, .closing, .word ['D', 'E', 'F', 'A', 'U', 'L', 'T'],
    .word ['U', 'N', 'I', 'Q', 'U', 'E'], .word ['P', 'R', 'I', 'M', 'A', 'R', 'Y']]

/-- Tokens that may come behind the name of a collation. -/
def Fenced (ts : List Token) : Prop := ∀ t ∈ ts.head?, t ∈ fences

instance (ts : List Token) : Decidable (Fenced ts) := inferInstanceAs (Decidable (∀ _ ∈ _, _))

theorem Fenced.append {ts us : List Token} (hts : Fenced ts) (hus : Fenced us) :
    Fenced (ts ++ us) := by
  cases ts with
  | nil => exact hus
  | cons t ts => exact hts

theorem Fenced.cons {t : Token} (h : t ∈ fences) (ts : List Token) : Fenced (t :: ts) :=
  fun _ hu => Option.some.inj hu ▸ h

theorem Fenced.lead {ts us : List Token} (hne : ts ≠ []) (h : Fenced ts) : Fenced (ts ++ us) := by
  cases ts with
  | nil => exact absurd rfl hne
  | cons t ts => exact h

/-- **Tokens with the names of collations in them**: the names one by one, and
all tokens but those of the names. -/
inductive Collated : List Token → List Collation → List Token → Prop where
  /-- No tokens. -/
  | nil : Collated [] [] []
  /-- Other tokens. -/
  | quiet {q ts base : List Token} {cs : List Collation} : (∀ t ∈ q, t.isCollate = false) →
    Collated ts cs base → Collated (q ++ ts) cs (q ++ base)
  /-- The word with a name. -/
  | name {ts base : List Token} {cs : List Collation} (c : Collation) : Fenced ts →
    Collated ts cs base →
    Collated (collate :: (lex c.sql.toList ++ ts)) (c :: cs) (collate :: base)

end Token

/-- **A name that is one word**, which is not reserved. -/
def Collation.IsName (reserved : List Char → Bool) (c : Collation) : Prop :=
  Token.lex c.sql.toList = [.word c.sql.toList] ∧ reserved c.sql.toList = false

instance (reserved : List Char → Bool) (c : Collation) : Decidable (c.IsName reserved) :=
  inferInstanceAs (Decidable (_ ∧ _))

namespace Token.Collated

variable {reserved : List Char → Bool} {ts us base more : List Token} {cs ds : List Collation}

theorem of_quiet (h : ∀ t ∈ ts, t.isCollate = false) : Collated ts [] ts := by
  have hquiet := Collated.quiet h .nil
  rwa [List.append_nil] at hquiet

/-- **Two parts of a definition.** -/
theorem append (h : Collated ts cs base) (hus : Fenced us) (h' : Collated us ds more) :
    Collated (ts ++ us) (cs ++ ds) (base ++ more) := by
  induction h with
  | nil => exact h'
  | quiet hq _ ih =>
    rw [List.append_assoc, List.append_assoc]
    exact .quiet hq ih
  | name c hfence _ ih =>
    rw [List.cons_append, List.append_assoc]
    exact .name c (hfence.append hus) ih

/-- What comes behind a name is not taken for a name without tokens. -/
theorem lex_ne_nil {t : Token} (ht : t ∈ fences) {s : String} (hs : t.name? reserved = some s) :
    lex s.toList ≠ [] := by
  have hword : ∀ {w : List Char}, lex w ≠ [] → name? reserved (.word w) = some s →
      lex s.toList ≠ [] := by
    intro w hw hname
    rw [name?] at hname
    split at hname
    · cases hname
    · rw [← Option.some.inj hname, String.toList_ofList]
      exact hw
  simp only [fences, List.mem_cons, List.not_mem_nil, or_false] at ht
  rcases ht with rfl | rfl | rfl | rfl | rfl | rfl
  · exact hword (by decide) hs
  · cases hs
  · cases hs
  · exact hword (by decide) hs
  · exact hword (by decide) hs
  · exact hword (by decide) hs

/-- **A name that is read is one word.** Tokens that come from a text and begin
with the text as a name are that name alone. -/
theorem isName_of_name? {c : Collation} (hfence : Fenced ts) {t : Token} {rest : List Token}
    (hread : lex c.sql.toList ++ ts = t :: rest) (hname : t.name? reserved = some c.sql) :
    c.IsName reserved ∧ t = .word c.sql.toList ∧ rest = ts := by
  cases hlex : lex c.sql.toList with
  | nil =>
    -- then what is read is what comes behind
    rw [hlex, List.nil_append] at hread
    exact absurd hlex (lex_ne_nil (hfence t (hread ▸ rfl)) hname)
  | cons u more =>
    rw [hlex, List.cons_append] at hread
    obtain ⟨rfl, rfl⟩ := List.cons.inj hread
    cases u with
    | word w =>
      rw [name?] at hname
      split at hname
      · cases hname
      · next hfree =>
        have hw : w = c.sql.toList := by
          rw [← Option.some.inj hname, String.toList_ofList]
        subst hw
        -- the word is as long as the text, so no letter is left for another token
        obtain rfl := lex_eq_word_of_cons hlex
        exact ⟨⟨hlex, Bool.eq_false_iff.mpr hfree⟩, rfl, rfl⟩
    | name i =>
      -- a quoted name is shorter than the text that it stands in
      have hi : i = ⟨c.sql⟩ := congrArg Identifier.mk (Option.some.inj hname)
      exact absurd (hi ▸ hlex ▸ List.mem_cons_self) (name_notMem_lex c.sql)
    | _ => cases hname

/-- **The names are found exactly if each of them is one word.** -/
theorem collationNames_iff (h : Collated ts cs base) :
    collationNames reserved ts = cs.map (fun c => some c.sql) ↔ ∀ c ∈ cs, c.IsName reserved := by
  induction h with
  | nil => exact iff_of_true rfl nofun
  | quiet hq _ ih => rwa [collationNames, collations_append hq]
  | @name ts base cs c hfence _ ih =>
    rw [List.forall_mem_cons, List.map_cons, ← ih]
    constructor
    · intro hread
      cases htokens : lex c.sql.toList ++ ts with
      | nil =>
        rw [htokens] at hread
        cases hread
      | cons u us =>
        rw [htokens, collationNames_collate] at hread
        obtain ⟨hname, hrest⟩ := List.cons.inj hread
        obtain ⟨hone, -, rfl⟩ := isName_of_name? hfence htokens hname
        exact ⟨hone, hrest⟩
    · rintro ⟨⟨hlex, hfree⟩, hrest⟩
      rw [hlex, List.singleton_append, collationNames_collate, hrest, name?, hfree,
        if_neg Bool.false_ne_true, String.ofList_toList]

/-- Then the other tokens are the same whatever the names are. -/
theorem collations_snd (h : Collated ts cs base) (hnames : ∀ c ∈ cs, c.IsName reserved) :
    (collations ts).2 = base := by
  induction h with
  | nil => rfl
  | quiet hq _ ih => rw [collations_append hq, ih hnames]
  | name c _ _ ih =>
    rw [List.forall_mem_cons] at hnames
    rw [hnames.1.1]
    exact congrArg (collate :: ·) (ih hnames.2)

end Token.Collated

/-! ## Parts without the word

Quoted names and literals are tokens of other kinds and can not be the word,
and the words of the language are those that the printer writes. So this is a
condition on pieces, closed under everything that puts parts together. -/

namespace Sql

/-- **A part that does not say `COLLATE`.** -/
def Quiet (s : Sql) : Prop := ∀ t ∈ s.tokens, t.isCollate = false

instance (s : Sql) : Decidable s.Quiet := inferInstanceAs (Decidable (∀ _ ∈ _, _))

namespace Quiet

theorem append {s t : Sql} (hs : s.Quiet) (ht : t.Quiet) : Quiet (s ++ t) := by
  rw [Quiet, tokens_append]
  exact List.forall_mem_append.mpr ⟨hs, ht⟩

theorem value {p : Piece} (h : p.IsValue) : Quiet [p] := by
  rw [Quiet, tokens_singleton]
  intro t ht
  have hvalue := Piece.ofValue_of_isValue h t ht
  cases t with
  | word cs => cases hvalue
  | _ => rfl

theorem parenthesized {s : Sql} (hs : s.Quiet) : Quiet (parenthesized s) :=
  append (append (by decide) hs) (by decide)

theorem commaList {ss : List Sql} (h : ∀ s ∈ ss, Quiet s) : Quiet (commaList ss) := by
  induction ss using Sql.commaList.induct with
  | case1 => exact List.forall_mem_nil _
  | case2 s => exact h s List.mem_cons_self
  | case3 s t rest ih =>
    exact append (append (h s List.mem_cons_self) (by decide))
      (ih fun u hu => h u (List.mem_cons_of_mem s hu))

theorem names (is : List Identifier) : Quiet (names is) := by
  refine commaList fun s hs => ?_
  obtain ⟨i, -, rfl⟩ := List.mem_map.mp hs
  exact value (p := .name i) trivial

end Quiet

/-- **No term says the word.** -/
theorem Spoken.quiet {s : Sql} (h : s.Spoken) : s.Quiet := by
  have hvocabulary : ∀ w ∈ vocabulary, Quiet (Sql.words w) := by decide +kernel
  intro t ht
  obtain ⟨p, hp, htoken⟩ := List.mem_flatMap.mp ht
  rw [← tokens_singleton] at htoken
  obtain hvalue | ⟨w, hw, rfl⟩ := h p hp
  · exact Quiet.value hvalue t htoken
  · exact hvocabulary w hw t htoken

namespace Whole

theorem words (w : String) : Whole (words w) := by
  intro v hv
  cases List.mem_singleton.mp hv

theorem append {s t : Sql} (hs : s.Whole) (ht : t.Whole) : Whole (s ++ t) := fun w hw =>
  (List.mem_append.mp hw).elim (hs w) (ht w)

theorem parenthesized {s : Sql} (hs : s.Whole) : Whole (parenthesized s) :=
  ((words "(").append hs).append (words ")")

theorem commaList {ss : List Sql} (h : ∀ s ∈ ss, Whole s) : Whole (commaList ss) := by
  induction ss using Sql.commaList.induct with
  | case1 => exact fun w hw => absurd hw List.not_mem_nil
  | case2 s => exact h s List.mem_cons_self
  | case3 s t rest ih =>
    exact append (append (h s List.mem_cons_self) (words ", "))
      (ih fun u hu => h u (List.mem_cons_of_mem s hu))

end Whole

/-- A phrase takes nothing over. -/
theorem whole_of_phrase {s : Sql} (h : Phrase s) : s.Whole := by
  induction h with
  | nil => exact nofun
  | value hp =>
    intro w hw
    exact (List.mem_singleton.mp hw ▸ hp : Piece.IsValue (.verbatim w)).elim
  | dotted i j =>
    intro w hw
    simp [Sql.name, Sql.words] at hw
  | words => exact .words _
  | lead _ _ ih => exact (Whole.words _).append ih
  | within _ _ ih => exact ((Whole.words _).append ih).append (.words _)
  | append _ _ _ ih ih' => exact ih.append ih'

end Sql

/-! ## Other names

That a name does harm to nothing but itself is said by comparing with another
table, the same but for the names of its collations. -/

/-- The constraint with another collation. -/
def ColumnConstraint.recollate (f : Collation → Collation) : ColumnConstraint → ColumnConstraint
  | .collate c => .collate (f c)
  | k => k

/-- The collations that a column gives. -/
def Column.collations (c : Column) : List Collation :=
  c.constraints.filterMap ColumnConstraint.collation?

/-- The column with other collations. -/
def Column.recollate (f : Identifier → Collation → Collation) (c : Column) : Column :=
  { c with constraints := c.constraints.map (ColumnConstraint.recollate (f c.name)) }

namespace Table

/-- **The collations of a table**, in the order of its definition. -/
def collations (t : Table) : List Collation := t.columns.flatMap Column.collations

/-- **The table with other collations**, which are given by the column. -/
def recollate (f : Identifier → Collation → Collation) (t : Table) : Table :=
  { t with columns := t.columns.map (Column.recollate f) }

/-- The table without the names of its collations. -/
def unnamed (t : Table) : Table := t.recollate fun _ _ => .custom ""

/-- **Defaults that do not say the word** and leave nothing open. -/
def QuietDefaults (t : Table) : Prop :=
  ∀ c ∈ t.columns, ∀ s, c.default? = some s → s.Whole ∧ s.Quiet

end Table

/-! ## How a definition of a table is made -/

namespace ColumnConstraint

/-- Another collation makes another kind of constraint of none. -/
theorem isPrimaryKey_recollate (f : Collation → Collation) (k : ColumnConstraint) :
    (k.recollate f).isPrimaryKey = k.isPrimaryKey := by
  cases k <;> rfl

/-- The last names are the ones that count. -/
theorem recollate_recollate (f g : Collation → Collation) (k : ColumnConstraint) :
    (k.recollate f).recollate g = k.recollate (g ∘ f) := by
  cases k <;> rfl

/-- The tokens of a collation. -/
theorem tokens_collate (c : Collation) :
    (collate c).sql.tokens = Token.collate :: Token.lex c.sql.toList := by
  have hword : (Sql.words " COLLATE ").tokens = [Token.collate] := by decide
  have hname : ∀ p : Piece, (Sql.words " COLLATE " ++ [p]).tokens = Token.collate :: p.tokens := by
    intro p
    rw [Sql.tokens_append, hword, Sql.tokens_singleton]
    rfl
  cases c with
  | binary => exact hname (.words "BINARY")
  | noCase => exact hname (.words "NOCASE")
  | rtrim => exact hname (.words "RTRIM")
  | custom name => exact hname (.verbatim name)

/-- A constraint begins with one of its words. -/
theorem fenced (k : ColumnConstraint) (s : Sql) : Token.Fenced (k.sql ++ s).tokens := by
  cases k with
  | primaryKey key =>
    rw [sql, List.append_assoc, List.append_assoc, List.append_assoc, Sql.tokens_append]
    exact .lead (by decide) (by decide)
  | unique onConflict =>
    rw [sql, List.append_assoc, Sql.tokens_append]
    exact .lead (by decide) (by decide)
  | collate c =>
    rw [Sql.tokens_append, tokens_collate]
    exact Token.Fenced.cons (by decide) _

/-- **How a constraint is made.** -/
theorem collated (k : ColumnConstraint) :
    Token.Collated k.sql.tokens k.collation?.toList
      (k.recollate fun _ => .custom "").sql.tokens := by
  have hconflict : ∀ choice : OnConflict, Sql.Quiet (Sql.words choice.clause) := by
    rintro (_ | _ | _ | _ | _ | _) <;> decide
  cases k with
  | primaryKey key =>
    obtain ⟨direction, choice, counting⟩ := key
    have hcounting : Sql.Quiet (Sql.words (if counting then " AUTOINCREMENT" else "")) := by
      cases counting <;> decide
    refine .of_quiet
      (Sql.Quiet.append (.append (.append (by decide) ?_) (hconflict choice)) hcounting)
    rcases direction with _ | _ | _ <;> dsimp only <;> decide
  | unique choice => exact .of_quiet (Sql.Quiet.append (by decide) (hconflict choice))
  | collate c =>
    have hbase : (collate (.custom "")).sql.tokens = [Token.collate] :=
      tokens_collate (.custom "")
    have hname : Token.Collated (Token.collate :: (Token.lex c.sql.toList ++ [])) [c] _ :=
      .name c nofun .nil
    rwa [List.append_nil, ← tokens_collate, ← hbase] at hname

end ColumnConstraint

/-- **How constraints are made**, and with what they begin. -/
theorem Column.collated_constraints (ks : List ColumnConstraint) :
    Token.Collated (Sql.tokens (ks.flatMap ColumnConstraint.sql))
        (ks.filterMap ColumnConstraint.collation?)
        (Sql.tokens ((ks.map (ColumnConstraint.recollate fun _ => .custom "")).flatMap
          ColumnConstraint.sql)) ∧
      Token.Fenced (Sql.tokens (ks.flatMap ColumnConstraint.sql)) := by
  induction ks with
  | nil => exact ⟨.nil, nofun⟩
  | cons k ks ih =>
    have hfence : Token.Fenced (Sql.tokens ((k :: ks).flatMap ColumnConstraint.sql)) := k.fenced _
    have hall := k.collated.append ih.2 ih.1
    rw [← Sql.tokens_append, ← Sql.tokens_append] at hall
    refine ⟨?_, hfence⟩
    cases k <;> exact hall

/-- **How a column is made.** -/
theorem Column.collated (c : Column)
    (hdefault : ∀ s, c.default? = some s → s.Quiet) :
    Token.Collated c.sql.tokens c.collations (c.recollate fun _ _ => .custom "").sql.tokens := by
  have hclass : Sql.Quiet (Sql.words (" " ++ c.codec.storageClass.sql)) := by
    cases c.codec.storageClass <;> decide
  have hnull : Sql.Quiet (Sql.words (if c.codec.isNullable then "" else " NOT NULL")) := by
    cases c.codec.isNullable <;> decide
  have hhead : Sql.Quiet (Sql.name c.name ++ Sql.words (" " ++ c.codec.storageClass.sql) ++
      Sql.words (if c.codec.isNullable then "" else " NOT NULL")) :=
    .append (.append (.value (p := .name c.name) trivial) hclass) hnull
  have hall (d : Sql) (hquiet : d.Quiet) (hfence : Token.Fenced d.tokens) :=
    (Token.Collated.quiet hhead (collated_constraints c.constraints).1).append hfence
      (.of_quiet hquiet)
  simp only [← Sql.tokens_append, List.append_nil] at hall
  have hrecollated : (c.recollate fun _ _ => .custom "").default? = c.default? := rfl
  rw [sql, sql, hrecollated]
  cases hgiven : c.default? with
  | none => exact hall [] (by decide) (by decide)
  | some s =>
    refine hall (Sql.words " DEFAULT " ++ s) (.append (by decide) (hdefault s hgiven)) ?_
    rw [Sql.tokens_append]
    exact .lead (by decide) (by decide)

/-- A column leaves nothing open if the names of its collations do not. -/
theorem Column.whole_sql (c : Column) (hdefault : ∀ s, c.default? = some s → s.Whole)
    (hnames : ∀ k ∈ c.collations, WholeText k.sql) : c.sql.Whole := by
  have hconstraint : ∀ k ∈ c.constraints, k.sql.Whole := by
    intro k hk
    cases k with
    | primaryKey key =>
      exact (((Sql.Whole.words _).append (.words _)).append (.words _)).append (.words _)
    | unique choice => exact (Sql.Whole.words _).append (.words _)
    | collate collation =>
      cases collation with
      | custom name =>
        refine (Sql.Whole.words _).append fun w hw => ?_
        obtain rfl : w = name := Piece.verbatim.inj (List.mem_singleton.mp hw)
        exact hnames (.custom w) (List.mem_filterMap.mpr ⟨_, hk, rfl⟩)
      | binary | noCase | rtrim => exact (Sql.Whole.words _).append (.words _)
  have hconstraints : Sql.Whole (c.constraints.flatMap ColumnConstraint.sql) := by
    intro w hw
    obtain ⟨k, hk, hw⟩ := List.mem_flatMap.mp hw
    exact hconstraint k hk w hw
  have hname : (Sql.name c.name).Whole := Sql.whole_of_phrase (.value (p := .name c.name) trivial)
  refine (((hname.append (.words _)).append (.words _)).append hconstraints).append ?_
  cases hgiven : c.default? with
  | none => exact nofun
  | some s => exact (Sql.Whole.words _).append (hdefault s hgiven)

namespace Table

variable {t : Table}

/-- **How the list in a definition is made**: columns, and parts without the
word behind them. -/
theorem collated_commaList (columns : List Column)
    (hdefaults : ∀ c ∈ columns, ∀ s, c.default? = some s → s.Quiet) {others : List Sql}
    (hothers : ∀ s ∈ others, s.Quiet) :
    Token.Collated (Sql.commaList (columns.map Column.sql ++ others)).tokens
      (columns.flatMap Column.collations)
      (Sql.commaList ((columns.map (Column.recollate fun _ _ => .custom "")).map Column.sql ++
        others)).tokens := by
  induction columns with
  | nil => exact .of_quiet (Sql.Quiet.commaList hothers)
  | cons c cs ih =>
    rw [List.forall_mem_cons] at hdefaults
    have hrest := ih hdefaults.2
    have hcomma : ∀ t ∈ [Token.comma], t.isCollate = false := by decide
    simp only [List.map_cons, List.cons_append, List.flatMap_cons, Sql.tokens_commaList_cons]
    have htail : Token.Collated (Sql.commaTail (cs.map Column.sql ++ others))
        (cs.flatMap Column.collations)
        (Sql.commaTail ((cs.map (Column.recollate fun _ _ => .custom "")).map Column.sql ++
          others)) := by
      cases cs with
      | nil =>
        cases others with
        | nil => exact .nil
        | cons s others => exact .quiet hcomma hrest
      | cons d cs => exact .quiet hcomma hrest
    refine (c.collated hdefaults.1).append ?_ htail
    cases cs.map Column.sql ++ others with
    | nil => exact nofun
    | cons s ss => exact .cons (by decide) _

/-- A foreign key does not say the word. -/
theorem quiet_foreignKey (k : ForeignKey) : k.sql.Quiet := by
  have hname : ∀ i : Identifier, (Sql.name i).Quiet := fun i => .value (p := .name i) trivial
  have hdelete : (ForeignKey.actionSql " ON DELETE " k.onDelete).Quiet := by
    cases k.onDelete <;> decide
  have hupdate : (ForeignKey.actionSql " ON UPDATE " k.onUpdate).Quiet := by
    cases k.onUpdate <;> decide
  have hcolumn := (Sql.Quiet.append (s := Sql.words "CONSTRAINT ") (by decide)
    (hname k.name)).append (t := Sql.words " FOREIGN KEY ") (by decide)
  have htable := ((hcolumn.append (hname k.column.name).parenthesized).append
    (t := Sql.words " REFERENCES ") (by decide)).append (hname k.target.table)
  exact ((htable.append (hname k.target.name).parenthesized).append hdelete).append hupdate

/-- The parts behind the columns do not say the word. -/
theorem quiet_others (ht : t.Worded) :
    ∀ s ∈ t.keySql ++ t.foreignKeys.map ForeignKey.sql ++ t.checks.map Check.sql, s.Quiet := by
  have hname : ∀ i : Identifier, (Sql.words "CONSTRAINT " ++ Sql.name i).Quiet := fun i =>
    .append (by decide) (.value (p := .name i) trivial)
  intro s hs
  simp only [List.mem_append, List.mem_map] at hs
  rcases hs with (hkey | ⟨k, -, rfl⟩) | ⟨k, hk, rfl⟩
  · unfold keySql at hkey
    split at hkey
    · rw [List.mem_singleton.mp hkey]
      exact ((hname _).append (by decide)).append (Sql.Quiet.names _).parenthesized
    · cases hkey
  · exact quiet_foreignKey k
  · obtain ⟨condition, hcondition⟩ := ht.checks k hk
    rw [Check.sql, hcondition]
    exact ((hname _).append (by decide)).append condition.spoken.quiet.parenthesized

/-- The key is printed without collations. -/
theorem keySql_recollate (f : Identifier → Collation → Collation) (t : Table) :
    (t.recollate f).keySql = t.keySql := by
  have hcolumn : ∀ c : Column, (c.recollate f).isPrimaryKey = c.isPrimaryKey := by
    intro c
    rw [Column.isPrimaryKey, Column.recollate, List.any_map]
    exact congrArg c.constraints.any (funext (ColumnConstraint.isPrimaryKey_recollate _))
  have hkey : (t.recollate f).columnKey.isEmpty = t.columnKey.isEmpty := by
    rw [columnKey, recollate, List.filter_map, List.isEmpty_map]
    exact congrArg (fun p => (t.columns.filter p).isEmpty) (funext hcolumn)
  rw [keySql, hkey]
  rfl

/-- **How a definition is made.** -/
theorem collated (ht : t.Worded) (hdefaults : t.QuietDefaults) (temporary : Bool) :
    Token.Collated (t.sql temporary).tokens t.collations (t.unnamed.sql temporary).tokens := by
  have hcreate : Sql.Quiet (Sql.words (if temporary then "CREATE TEMP TABLE IF NOT EXISTS "
      else "CREATE TABLE IF NOT EXISTS ")) := by
    cases temporary <;> decide
  have hhead : Sql.Quiet (Sql.words (if temporary then "CREATE TEMP TABLE IF NOT EXISTS "
      else "CREATE TABLE IF NOT EXISTS ") ++ Sql.name t.name ++ Sql.words " " ++ Sql.words "(") :=
    .append (.append (.append hcreate (.value (p := .name t.name) trivial)) (by decide)) (by decide)
  have htail : Sql.Quiet (Sql.words ")" ++ Sql.words (if t.withoutRowid then " WITHOUT ROWID"
      else "")) := by
    cases t.withoutRowid <;> decide
  have hlist := collated_commaList t.columns (fun c hc s hs => (hdefaults c hc s hs).2)
    (quiet_others ht)
  have hfence : Token.Fenced (Sql.words ")" ++ Sql.words (if t.withoutRowid then " WITHOUT ROWID"
      else "")).tokens := by
    rw [Sql.tokens_append]
    exact .lead (by decide) (by decide)
  have hall := (Token.Collated.quiet hhead hlist).append hfence (.of_quiet htail)
  have hkey : t.unnamed.keySql = t.keySql := t.keySql_recollate _
  simp only [List.append_nil, ← Sql.tokens_append, List.append_assoc] at hall
  simp only [sql, body, hkey, Sql.parenthesized, List.append_assoc]
  exact hall

/-- **The definition leaves nothing open** if the names of its collations do
not. -/
theorem whole_sql (ht : t.Worded) (hdefaults : t.QuietDefaults)
    (hnames : ∀ c ∈ t.collations, WholeText c.sql) (temporary : Bool) :
    (t.sql temporary).Whole := by
  have hname : ∀ i : Identifier, (Sql.name i).Whole := fun i =>
    Sql.whole_of_phrase (.value (p := .name i) trivial)
  have hparts : ∀ s ∈ t.parts, s.Whole := by
    intro s hs
    simp only [parts, List.mem_append, List.mem_map] at hs
    rcases hs with ((⟨c, hc, rfl⟩ | hkey) | ⟨k, -, rfl⟩) | ⟨k, hk, rfl⟩
    · exact c.whole_sql (fun s hs => (hdefaults c hc s hs).1)
        fun k hk => hnames k (List.mem_flatMap.mpr ⟨c, hc, hk⟩)
    · exact Sql.whole_of_phrase (t.phrase_keySql s hkey)
    · exact Sql.whole_of_phrase k.phrase
    · obtain ⟨condition, hcondition⟩ := ht.checks k hk
      exact Sql.whole_of_phrase (Check.phrase hcondition)
  exact (Sql.Whole.words _).append ((((hname t.name).append (.words _)).append
    (Sql.Whole.commaList hparts).parenthesized).append (.words _))

/-! ### The same definition with other names -/

variable (f : Identifier → Collation → Collation)

/-- Another name does not make a column less worded. -/
theorem Worded.recollate (ht : t.Worded) : (t.recollate f).Worded where
  key c hc := by
    obtain ⟨d, hd, rfl⟩ := List.mem_map.mp hc
    rw [Column.recollate, List.countP_map]
    exact (congrArg (d.constraints.countP ·)
      (funext (ColumnConstraint.isPrimaryKey_recollate _))).trans_le (ht.key d hd)
  default? c hc := by
    obtain ⟨d, hd, rfl⟩ := List.mem_map.mp hc
    exact ht.default? d hd
  checks := ht.checks

theorem QuietDefaults.recollate (h : t.QuietDefaults) : (t.recollate f).QuietDefaults := by
  intro c hc
  obtain ⟨d, hd, rfl⟩ := List.mem_map.mp hc
  exact h d hd

/-- Without the names it is the same table. -/
theorem unnamed_recollate (t : Table) : (t.recollate f).unnamed = t.unnamed := by
  have hconstraint : ∀ g : Collation → Collation,
      ColumnConstraint.recollate (fun _ => .custom "") ∘ ColumnConstraint.recollate g =
        ColumnConstraint.recollate fun _ => .custom "" := fun g =>
    funext fun k => k.recollate_recollate g _
  have hcolumn : Column.recollate (fun _ _ => .custom "") ∘ Column.recollate f =
      Column.recollate fun _ _ => .custom "" := by
    funext c
    simp only [Function.comp_apply, Column.recollate, List.map_map, hconstraint]
  simp only [unnamed, Table.recollate, List.map_map, hcolumn]

end Table

/-! ## The names of a table -/

namespace Collation

variable {reserved : List Char → Bool}

/-- **What a collation is called**: as it was named, apart from the case of the
built-in ones. -/
def Says (c : Collation) (name : String) : Prop :=
  if c.isBuiltin then c.sql = name.toUpper else c.sql = name

/-- **A collation is called by the name that it was given.** -/
theorem says_ofName (name : String) : (ofName name).Says name := by
  unfold ofName
  extract_lets upper
  split
  · next h => exact h.symm
  · split
    · next h => exact h.symm
    · split
      · next h => exact h.symm
      · exact rfl

/-- The names of the built-in collations are words. -/
theorem isName_of_isBuiltin {c : Collation} (h : c.isBuiltin = true)
    (hfree : reserved c.sql.toList = false) : c.IsName reserved := by
  refine ⟨?_, hfree⟩
  cases c with
  | custom name => cases h
  | binary | noCase | rtrim => decide

/-- Letters and digits with a letter in front are a name, unless they are a
word of the language. -/
theorem isName_custom {c : Char} {cs : List Char} (hc : c.isAlpha = true ∨ c = '_')
    (hcs : ∀ d ∈ cs, IsWordCharacter d)
    (hkeyword : ∀ k ∈ Token.keywords, k.1.toList ≠ (c :: cs).map Char.toUpper)
    (hfree : reserved (c :: cs) = false) : (custom (String.ofList (c :: cs))).IsName reserved := by
  rw [IsName, sql, String.toList_ofList]
  exact ⟨Token.lex_eq_word hc hcs hkeyword, hfree⟩

/-- A name that is one word leaves nothing open. -/
theorem IsName.wholeText {c : Collation} (h : c.IsName reserved) : WholeText c.sql :=
  Token.bounded_of_lex_eq_word h.1

end Collation

/-- **A table that keeps the names of its collations**, as far as they are
names. -/
structure Table.KeepsCollations (reserved : List Char → Bool) (t : Table) (temporary : Bool) :
    Prop where
  /-- Where nothing is left open, a reader of the definition finds the names
  behind the words exactly if all of them are. -/
  read : (t.sql temporary).Whole →
    (Token.collationNames reserved (Token.lex (t.sql temporary).text.toList) =
        t.collations.map (fun c => some c.sql) ↔
      ∀ c ∈ t.collations, c.IsName reserved)
  /-- If all of them are, nothing is left open. -/
  whole : (∀ c ∈ t.collations, c.IsName reserved) → (t.sql temporary).Whole
  /-- The rest of the definition is the same with any other names. -/
  rest : (∀ c ∈ t.collations, c.IsName reserved) → ∀ f : Identifier → Collation → Collation,
    (∀ c ∈ (t.recollate f).collations, c.IsName reserved) →
      (Token.collations (Token.lex ((t.recollate f).sql temporary).text.toList)).2 =
        (Token.collations (Token.lex (t.sql temporary).text.toList)).2

namespace Table

variable {t : Table} {reserved : List Char → Bool}

theorem collations_lex (ht : t.Worded) (hdefaults : t.QuietDefaults)
    (hnames : ∀ c ∈ t.collations, c.IsName reserved) (temporary : Bool) :
    (Token.collations (Token.lex (t.sql temporary).text.toList)).2 =
      (t.unnamed.sql temporary).tokens := by
  have hwhole := whole_sql ht hdefaults (fun c hc => (hnames c hc).wholeText) temporary
  rw [(readable_sql ht temporary hwhole).lex_text]
  exact (collated ht hdefaults temporary).collations_snd hnames

/-- **A table that is built keeps the names of its collations**, and each of
them is the one that was given. -/
theorem Built.keepsCollations (ht : t.Built) (hdefaults : t.QuietDefaults)
    (reserved : List Char → Bool) (temporary : Bool) :
    t.KeepsCollations reserved temporary ∧ ∀ name, (Collation.ofName name).Says name := by
  refine ⟨⟨fun hwhole => ?_, fun hnames => ?_, fun hnames f hothers => ?_⟩,
    Collation.says_ofName⟩
  · rw [(readable_sql ht.worded temporary hwhole).lex_text]
    exact (collated ht.worded hdefaults temporary).collationNames_iff
  · exact whole_sql ht.worded hdefaults (fun c hc => (hnames c hc).wholeText) temporary
  · rw [collations_lex ht.worded hdefaults hnames, collations_lex (ht.worded.recollate f)
      (hdefaults.recollate f) hothers, unnamed_recollate]

end Table

namespace TableCall

/-- Two columns with collations, one of them built in, and a default that is
taken over. -/
theorem keepsCollations_two :
    let calls : List TableCall := [
      .column "a" (.scalar .text) [.collate (.custom "my_order"), .unique],
      .column "b" (.scalar .text) [.collate .noCase, .defaultText "0"]]
    ∃ t, (runAll calls ({ name := ⟨"t"⟩ }, 0)).1.build = .ok t ∧ t.QuietDefaults ∧
      t.collations = [.custom "my_order", .noCase] ∧
      (∀ c ∈ t.collations, c.IsName fun _ => false) ∧ t.KeepsCollations (fun _ => false) false := by
  intro calls
  have hdefaults : ∀ t, (runAll calls ({ name := ⟨"t"⟩ }, 0)).1.build = .ok t →
      t.QuietDefaults := by
    rintro _ ⟨⟩
    refine List.forall_mem_cons.mpr ⟨nofun, List.forall_mem_singleton.mpr ?_⟩
    rintro _ ⟨⟩
    refine ⟨fun w hw => ?_, by decide⟩
    have hform : rawDefault "0" = Sql.verbatim "0" := rfl
    rw [hform] at hw
    obtain rfl : w = "0" := Piece.verbatim.inj (List.mem_singleton.mp hw)
    decide
  have hnames : ∀ c ∈ [Collation.custom "my_order", .noCase], c.IsName fun _ => false :=
    List.forall_mem_cons.mpr
      ⟨@Collation.isName_custom (fun _ => false) 'm' ['y', '_', 'o', 'r', 'd', 'e', 'r']
          (by decide) (by decide) (by decide) rfl,
        List.forall_mem_singleton.mpr (Collation.isName_of_isBuiltin rfl rfl)⟩
  exact ⟨_, rfl, hdefaults _ rfl, rfl, hnames, (Table.Built.keepsCollations (t := _)
    ⟨_, _, (TableBuilder.Reached.start ⟨"t"⟩ 0).runAll calls, rfl⟩ (hdefaults _ rfl)
    (fun _ => false) false).1⟩

/-- **A collation can be in pieces.** Its name is written without quotes, so
that of a name with a blank in it the first word is read, and the second is a
word of its own in the definition. -/
theorem collation_in_pieces :
    let calls : List TableCall := [
      .column "a" (.scalar .text) [.collate (.custom "My Coll")]]
    ∃ t, (runAll calls ({ name := ⟨"t"⟩ }, 0)).1.build = .ok t ∧
      t.collations = [.custom "My Coll"] ∧
      Token.collationNames (fun _ => false) (Token.lex (t.sql false).text.toList) =
        [some "My"] ∧
      (Token.collations (Token.lex (t.sql false).text.toList)).2 ≠
        (Token.collations (Token.lex
          ((t.recollate fun _ _ => .noCase).sql false).text.toList)).2 :=
  ⟨_, rfl, rfl, by decide +kernel, by decide +kernel⟩

end TableCall

end TypedSql

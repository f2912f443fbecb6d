import TypedSql.Proofs.Schema.ColumnOutcome
import TypedSql.Proofs.Sql.OperandText

/-!
# What is written behind `DEFAULT`

A default that is given as text is written in parentheses, unless all its
characters are letters, digits, underscores, points and hyphens: then it is
written bare. The test looks at one character after the other, and whether the
text is one operand depends on how they group. So a bare text may be several
tokens, a comment or nothing at all (`not_isOneOperand`).

`TableCall.rawDefault_clause` says exactly what holds. Such a text never has a
comma or a parenthesis in it, so it does not end the definition of the column.
It hides what follows exactly if two hyphens stand side by side in it
(`HyphensApart`), since nothing else in it leaves a token open. And it is one
operand exactly if it is a word or a number, signed or not; then the reader of
an operand takes it off the definition as a whole.
-/

namespace TypedSql

open Phrase (AtBoundary)

/-! ## Bare texts -/

/-- **A character that may stand bare.** -/
def IsBareCharacter (c : Char) : Prop := IsWordCharacter c ∨ c = '.' ∨ c = '-'

instance (c : Char) : Decidable (IsBareCharacter c) := inferInstanceAs (Decidable (_ ∨ _ ∨ _))

/-- A text may stand bare if its characters may. -/
theorem isBareDefault_iff {text : String} :
    isBareDefault text = true ↔ ∀ c ∈ text.toList, IsBareCharacter c := by
  simp only [isBareDefault, List.all_eq_true, Bool.or_eq_true, beq_iff_eq, or_assoc,
    IsBareCharacter, IsWordCharacter]

/-! ## The tokens of a bare text

A bare text is read character by character, and the reader may be in a word, in
a number, behind a sign or where nothing has begun: these are the lexemes that
`OfBare` names. A hyphen is the only character that can lead out of them, and
only behind another hyphen. So besides the lexeme the induction needs to know
whether the last character was a hyphen, and it can be read off the lexeme
(`lastHyphen`). -/

/-- **The tokens that end a definition** or leave it open. -/
def Token.delimiters : List Token := [.opening, .closing, .comma, .unclosed]

theorem Token.ofWord_notMem_delimiters (cs : List Char) : ofWord cs ∉ delimiters := by
  have hkeywords : ∀ k ∈ keywords, k.2 ∉ delimiters := by decide
  unfold ofWord
  split
  · next k hk => exact hkeywords k (List.mem_of_find?_eq_some hk)
  · simp [delimiters]

namespace Lexeme

/-- **What a bare text is read as**, as long as it opens no comment. -/
inductive OfBare : Lexeme → Prop where
  /-- Nothing has begun. -/
  | none : OfBare .none
  /-- A word. -/
  | word (cs : List Char) : OfBare (.word cs)
  /-- A number. -/
  | number (cs : List Char) : OfBare (.number cs)
  /-- A hyphen. -/
  | hyphen : OfBare (.sign '-')

/-- The hyphen that may become one of two. -/
def lastHyphen (l : Lexeme) : List Char := if l = .sign '-' then ['-'] else []

theorem OfBare.bounded {l : Lexeme} (h : l.OfBare) : l.Bounded := by
  cases h with
  | none => exact bounded_none
  | word cs => exact bounded_word cs
  | number cs => exact bounded_number cs
  | hyphen => exact bounded_sign '-'

theorem OfBare.finish {l : Lexeme} (h : l.OfBare) : ∀ t ∈ l.finish, t ∉ Token.delimiters := by
  cases h with
  | none => exact List.forall_mem_nil _
  | word cs => exact List.forall_mem_singleton.mpr (Token.ofWord_notMem_delimiters cs)
  | number cs => exact List.forall_mem_singleton.mpr (by simp [Token.delimiters])
  | hyphen => decide

/-- **A bare text goes on**: no comment is opened, and whether a hyphen came
last is known. -/
structure GoesOn (c : Char) (r : List Token × Lexeme) : Prop where
  /-- No comment is opened. -/
  ofBare : r.2.OfBare
  /-- The character is the last one. -/
  hyphen : r.2 = .sign '-' ↔ c = '-'
  /-- No delimiter ends here. -/
  tokens : ∀ t ∈ r.1, t ∉ Token.delimiters

/-- A lexeme that is begun or continued ends no token. -/
theorem GoesOn.of_lexeme {c : Char} {l : Lexeme} (hl : l.OfBare)
    (hhyphen : l = .sign '-' ↔ c = '-') : GoesOn c ([], l) :=
  ⟨hl, hhyphen, List.forall_mem_nil _⟩

/-- Where no token has begun, a bare character begins one. -/
theorem goesOn_start {c : Char} (hc : IsBareCharacter c) : GoesOn c (start c) := by
  rcases hc with hword | rfl | rfl
  · have hne := hword.ne_hyphen
    rcases hword with hc | rfl
    · rw [Char.isAlphanum, Bool.or_eq_true] at hc
      rcases hc with hc | hc
      · rw [start_of_letter (.inl hc)]
        exact .of_lexeme (.word _) (by simpa using hne)
      · rw [start_of_isDigit hc]
        exact .of_lexeme (.number _) (by simpa using hne)
    · exact .of_lexeme (.word _) (by decide)
  · exact ⟨.none, by decide, by decide⟩
  · exact .of_lexeme .hyphen (by decide)

theorem goesOn_of_extend?_eq_none {l : Lexeme} {c : Char} (hl : l.OfBare)
    (hc : IsBareCharacter c) (h : l.extend? c = Option.none) : GoesOn c (l.step c) := by
  obtain ⟨hbare, hhyphen, htokens⟩ := goesOn_start hc
  rw [step_of_extend?_eq_none h]
  exact ⟨hbare, hhyphen, fun t ht => (List.mem_append.mp ht).elim (hl.finish t) (htokens t)⟩

/-- **One bare character more** opens a comment if it is the second of two
hyphens, and otherwise goes on. -/
theorem step_of_bare {l : Lexeme} {c : Char} (hl : l.OfBare) (hc : IsBareCharacter c) :
    (l = .sign '-' ∧ c = '-' ∧ l.step c = ([], .lineComment)) ∨
      (¬ (l = .sign '-' ∧ c = '-') ∧ GoesOn c (l.step c)) := by
  cases hl with
  | none => exact .inr ⟨by simp, goesOn_start hc⟩
  | word cs =>
    refine .inr ⟨by simp, ?_⟩
    by_cases hword : IsWordCharacter c
    · have hne := hword.ne_hyphen
      have hextend : (Lexeme.word cs).extend? c = some ([], .word (cs ++ [c])) := if_pos hword
      rw [step_of_extend? hextend]
      exact .of_lexeme (.word _) (by simpa using hne)
    · have hquote : ¬ (c = '\'' ∧ cs.map Char.toUpper = ['X']) := by
        rintro ⟨rfl, -⟩
        revert hc
        decide
      exact goesOn_of_extend?_eq_none (.word cs) hc ((if_neg hword).trans (if_neg hquote))
  | number cs =>
    refine .inr ⟨by simp, ?_⟩
    by_cases hnumber : c.isAlphanum = true ∨ c = '.'
    · have hne : c ≠ '-' := by
        rcases hnumber with hword | rfl
        · exact IsWordCharacter.ne_hyphen (.inl hword)
        · decide
      have hextend : (Lexeme.number cs).extend? c = some ([], .number (cs ++ [c])) :=
        if_pos hnumber
      rw [step_of_extend? hextend]
      exact .of_lexeme (.number _) (by simpa using hne)
    · exact goesOn_of_extend?_eq_none (.number cs) hc (if_neg hnumber)
  | hyphen =>
    by_cases hhyphen : c = '-'
    · rw [hhyphen]
      exact .inl ⟨rfl, rfl, rfl⟩
    · have hnone : (Lexeme.sign '-').extend? c = Option.none := by
        simp [extend?, hhyphen, Token.ofPair?]
      exact .inr ⟨fun h => hhyphen h.2, goesOn_of_extend?_eq_none .hyphen hc hnone⟩

/-- A comment goes on to the end of its line. -/
theorem scan_lineComment {cs : List Char} (h : ∀ c ∈ cs, c ≠ '\n') :
    lineComment.scan cs = ([], .lineComment) := by
  induction cs with
  | nil => rfl
  | cons c cs ih =>
    rw [List.forall_mem_cons] at h
    have hstep : lineComment.step c = ([], .lineComment) :=
      step_of_extend? (by rw [extend?, if_neg h.1])
    rw [scan_cons, hstep, ih h.2]
    rfl

/-- A bare character does not end a line. -/
theorem ne_newline_of_bare {c : Char} (h : IsBareCharacter c) : c ≠ '\n' := by
  rintro rfl
  revert h
  decide

/-- **Reading a bare text** leaves a comment open if two hyphens stand side by
side, the last character before it included, and nothing otherwise. No
delimiter is read in either case. -/
theorem scan_bare {l : Lexeme} (hl : l.OfBare) {cs : List Char}
    (hcs : ∀ c ∈ cs, IsBareCharacter c) :
    (if HyphensApart (l.lastHyphen ++ cs) then (l.scan cs).2.OfBare
      else (l.scan cs).2 = .lineComment) ∧ ∀ t ∈ (l.scan cs).1, t ∉ Token.delimiters := by
  induction cs generalizing l with
  | nil =>
    have hone : HyphensApart (l.lastHyphen ++ []) := by
      unfold lastHyphen
      split <;> decide
    rw [if_pos hone]
    exact ⟨hl, nofun⟩
  | cons c cs ih =>
    rw [List.forall_mem_cons] at hcs
    obtain ⟨rfl, rfl, hstep⟩ | ⟨hne, hgo⟩ := step_of_bare hl hcs.1
    · have htwo : ¬ HyphensApart ((Lexeme.sign '-').lastHyphen ++ '-' :: cs) :=
        fun h => (hyphensApart_cons.mp h).1 rfl rfl
      rw [if_neg htwo, scan_cons, hstep,
        scan_lineComment fun d hd => ne_newline_of_bare (hcs.2 d hd)]
      exact ⟨rfl, nofun⟩
    · have hsame : HyphensApart (l.lastHyphen ++ c :: cs) ↔
          HyphensApart ((l.step c).2.lastHyphen ++ cs) := by
        by_cases hc : c = '-'
        · have hl' : l ≠ .sign '-' := fun h => hne ⟨h, hc⟩
          rw [lastHyphen, if_neg hl', lastHyphen, if_pos (hgo.hyphen.mpr hc), hc]
          rfl
        · have hstep : (l.step c).2 ≠ .sign '-' := fun h => hc (hgo.hyphen.mp h)
          rw [lastHyphen, lastHyphen, if_neg hstep, List.nil_append]
          split
          · rw [List.singleton_append, hyphensApart_cons, hyphensApart_cons_of_ne hc]
            exact and_iff_right fun _ h => hc (Option.some.inj h)
          · rw [List.nil_append, hyphensApart_cons_of_ne hc]
      obtain ⟨hend, htokens⟩ := ih hgo.ofBare hcs.2
      rw [scan_cons]
      refine ⟨?_, fun t ht => (List.mem_append.mp ht).elim (hgo.tokens t) (htokens t)⟩
      simpa only [hsame] using hend

end Lexeme

section Bare

variable {cs : List Char} (hcs : ∀ c ∈ cs, IsBareCharacter c)

include hcs

/-- **A bare text has no delimiter** among its tokens. -/
theorem Token.notMem_delimiters_of_bare : ∀ t ∈ Token.lex cs, t ∉ Token.delimiters := by
  obtain ⟨hend, htokens⟩ := Lexeme.scan_bare .none hcs
  intro t ht
  rcases List.mem_append.mp ht with ht | ht
  · exact htokens t ht
  · split at hend
    · exact hend.finish t ht
    · rw [hend] at ht
      cases ht

/-- **A bare text hides what follows** exactly if two hyphens stand side by
side in it; then it hides everything to the end of the line. -/
theorem Token.lex_bare_append :
    ((∀ rest, AtBoundary rest → Token.lex (cs ++ rest) = Token.lex cs ++ Token.lex rest) ↔
      HyphensApart cs) ∧
    (¬ HyphensApart cs → ∀ rest : List Char, (∀ c ∈ rest, c ≠ '\n') →
      Token.lex (cs ++ rest) = Token.lex cs) := by
  have hend := (Lexeme.scan_bare .none hcs).1
  have hlast : Lexeme.none.lastHyphen ++ cs = cs := rfl
  rw [hlast] at hend
  have hhides : ¬ HyphensApart cs → ∀ rest : List Char, (∀ c ∈ rest, c ≠ '\n') →
      Token.lex (cs ++ rest) = Token.lex cs := by
    intro hapart rest hrest
    rw [if_neg hapart] at hend
    rw [Token.lex, Lexeme.scan_append, hend, Lexeme.scan_lineComment hrest, List.append_nil,
      Token.lex, hend]
  refine ⟨⟨fun hread => ?_, fun hapart rest hrest => ?_⟩, hhides⟩
  · by_contra hapart
    have hhidden := hhides hapart [')'] (by decide)
    have hclosing := hread [')'] fun c hc => Option.some.inj hc ▸ by decide
    rw [hhidden, List.self_eq_append_right] at hclosing
    revert hclosing
    decide
  · rw [if_pos hapart] at hend
    exact Token.lex_append _ _ fun c hc => hend.bounded c (hrest c hc)

end Bare

/-! ## The clause

In the definition of the table the clause stands between what was said of the
column before and a boundary. What is read of it there is what is read of it
alone, as long as it leaves nothing open, and the reader of an operand has to
end at the boundary and nowhere before. -/

/-- **What is written behind `DEFAULT`** for a default that is given as
text. -/
def defaultClause (text : String) : List Char := (rawDefault text).text.toList

/-- The text without the blanks around it, bare or in parentheses. -/
theorem defaultClause_eq (text : String) :
    defaultClause text =
      if isBareDefault (Text.trim text) then (Text.trim text).toList
      else '(' :: (Text.trim text).toList ++ [')'] := by
  unfold defaultClause rawDefault
  extract_lets trimmed
  split
  · rw [Sql.verbatim, Sql.toList_text_singleton]
    rfl
  · rw [Sql.parenthesized, Sql.toList_text_append, Sql.toList_text_append]
    simp only [Sql.words, Sql.verbatim, Sql.toList_text_singleton]
    rfl

/-- **A default is one operand**: the text that was given, in parentheses, or
a single token with one minus in front of it or none. -/
def IsOneOperand (text : String) : Prop :=
  defaultClause text = '(' :: (Text.trim text).toList ++ [')'] ∨ OperandText (defaultClause text)

/-- A default is one operand unless it is written bare and is none. -/
theorem isOneOperand_iff {text : String} :
    IsOneOperand text ↔
      (isBareDefault (Text.trim text) = true → OperandText (Text.trim text).toList) := by
  rw [IsOneOperand, defaultClause_eq]
  cases isBareDefault (Text.trim text) with
  | true =>
    have hne : (Text.trim text).toList ≠ '(' :: (Text.trim text).toList ++ [')'] := fun h => by
      have hlength := congrArg List.length h
      simp only [List.cons_append, List.length_cons, List.length_append, List.length_nil] at hlength
      omega
    simp only [if_true, forall_const]
    exact or_iff_right hne
  | false => simp

namespace ColumnClause

/-- A clause that says something on a matter says it last if none of those
behind it does. -/
theorem last?_append_cons {c : Codec} {α : Type} {said? : ColumnClause c → Option α}
    {before after : List (ColumnClause c)} {clause : ColumnClause c} {a : α}
    (hclause : said? clause = some a) (hafter : ∀ k ∈ after, said? k = none) :
    last? said? (before ++ clause :: after) = some a := by
  rw [last?, List.filterMap_append, List.filterMap_cons_some hclause,
    List.filterMap_eq_nil_iff.mpr hafter, List.getLast?_append]
  rfl

end ColumnClause

namespace Column

/-- The column without its default. -/
def withoutDefault (c : Column) : Column := { c with default? := none }

/-- The default stands at the end of the definition of a column. -/
theorem text_sql_of_default {c : Column} {s : Sql} (h : c.default? = some s) :
    c.sql.text.toList = c.withoutDefault.sql.text.toList ++
      (" DEFAULT ".toList ++ s.text.toList) := by
  have hsql : c.sql = c.withoutDefault.sql ++ (Sql.words " DEFAULT " ++ s) := by
    simp only [Column.sql, withoutDefault, h, List.append_nil]
    rfl
  rw [hsql, Sql.toList_text_append, Sql.toList_text_append, Sql.words,
    Sql.toList_text_singleton]
  rfl

end Column

/-- What is behind a part in a list begins with a comma. -/
theorem Sql.exists_behind_commaList {ss : List Sql} {s : Sql} (h : s ∈ ss) :
    ∃ before behind, (commaList ss).text.toList = before ++ (s.text.toList ++ behind) ∧
      ∀ c ∈ behind.head?, c = ',' := by
  induction ss using Sql.commaList.induct with
  | case1 => cases h
  | case2 t =>
    obtain rfl := List.mem_singleton.mp h
    exact ⟨[], [], by rw [List.append_nil]; rfl, by simp⟩
  | case3 t u rest ih =>
    rw [commaList, toList_text_append, toList_text_append, List.append_assoc]
    rcases List.mem_cons.mp h with rfl | h
    · refine ⟨[], _, rfl, ?_⟩
      rw [words, toList_text_singleton]
      exact fun c hc => (Option.some.inj hc).symm
    · obtain ⟨before, behind, htext, hbehind⟩ := ih h
      refine ⟨t.text.toList ++ ((words ", ").text.toList ++ before), behind, ?_, hbehind⟩
      rw [htext, List.append_assoc, List.append_assoc]

/-- **The definition of a column stands in that of its table**, and what is
behind it begins at a boundary. -/
theorem Table.exists_behind {t : Table} {c : Column} (h : c ∈ t.columns) (temporary : Bool) :
    ∃ before behind, (t.sql temporary).text.toList = before ++ (c.sql.text.toList ++ behind) ∧
      AtBoundary behind ∧ behind ≠ [] := by
  have hpart : c.sql ∈ t.parts := by
    simp only [parts, List.mem_append]
    exact .inl (.inl (.inl (List.mem_map_of_mem h)))
  obtain ⟨before, behind, htext, hbehind⟩ := Sql.exists_behind_commaList hpart
  have hlist : (Sql.commaList (t.columns.map Column.sql ++ t.keySql ++
      t.foreignKeys.map ForeignKey.sql ++ t.checks.map Check.sql)).text.toList
      = before ++ (c.sql.text.toList ++ behind) := htext
  refine ⟨(Sql.words (if temporary then "CREATE TEMP TABLE IF NOT EXISTS "
      else "CREATE TABLE IF NOT EXISTS ")).text.toList ++ ((Sql.name t.name).text.toList ++
        ((Sql.words " ").text.toList ++ ((Sql.words "(").text.toList ++ before))),
    behind ++ ((Sql.words ")").text.toList ++
      (Sql.words (if t.withoutRowid then " WITHOUT ROWID" else "")).text.toList), ?_, ?_, ?_⟩
  · rw [sql, body, Sql.parenthesized]
    simp only [Sql.toList_text_append]
    rw [hlist]
    simp only [List.append_assoc]
  · intro d hd
    cases behind with
    | nil =>
      rw [Sql.words, Sql.toList_text_singleton] at hd
      exact Option.some.inj hd ▸ by decide
    | cons e es => exact hbehind d hd ▸ by decide
  · rw [Sql.words, Sql.toList_text_singleton]
    exact fun hnil => by cases (List.append_eq_nil_iff.mp (List.append_eq_nil_iff.mp hnil).2).1

namespace TableCall

/-- **A raw default behind `DEFAULT`**, whatever a program did before and
whatever else is said about the column. The definition of the column ends with
the clause, which is the text that was given, in parentheses, or one operand,
exactly unless it is written bare and is no operand. In every table that has
the column, the clause is followed by a boundary, and a bare one is read as an
operand that ends there exactly if it is one. A bare text has no comma or
parenthesis among its tokens. What follows it is read as it stands exactly if
no two hyphens stand side by side, as they never do in an operand, and
otherwise the rest of the line is hidden. -/
theorem rawDefault_clause (table : Identifier) (n : ExprId) (calls : List TableCall)
    (name : String) (c : Codec) (before after : List (ColumnClause c)) (text : String)
    (hafter : ∀ k ∈ after, k.default? = none) {column : Column}
    (hcolumn : ((Building.column name c (before ++ .defaultText text :: after)).run.run
      (runAll calls ({ name := table }, n))).1 = .ok column) :
    let given := (Text.trim text).toList
    let bare := isBareDefault (Text.trim text) = true
    column.sql.text.toList =
      column.withoutDefault.sql.text.toList ++ (" DEFAULT ".toList ++ defaultClause text) ∧
    (IsOneOperand text ↔ (bare → OperandText given)) ∧
    (∀ t : Table, column ∈ t.columns → ∀ temporary, ∃ front behind,
      (t.sql temporary).text.toList =
        front ++ (" DEFAULT ".toList ++ (defaultClause text ++ behind)) ∧
      AtBoundary behind ∧ behind ≠ [] ∧
      (bare → (operand? (defaultClause text ++ behind) = some behind ↔ OperandText given))) ∧
    (bare → (∀ t ∈ Token.lex given, t ∉ Token.delimiters) ∧
      ((∀ rest, AtBoundary rest → Token.lex (given ++ rest) = Token.lex given ++ Token.lex rest) ↔
        HyphensApart given) ∧
      (¬ HyphensApart given → ∀ rest : List Char, (∀ d ∈ rest, d ≠ '\n') →
        Token.lex (given ++ rest) = Token.lex given) ∧
      (OperandText given → HyphensApart given)) := by
  intro given bare
  obtain ⟨d, hb, -, -⟩ := runAll_spec table n calls
  have hstate : runAll calls ({ name := table }, n) =
      (d.builder, (runAll calls ({ name := table }, n)).2) := Prod.ext hb rfl
  have houtcome := d.column_outcome (runAll calls ({ name := table }, n)).2 name c
    (before ++ .defaultText text :: after)
  rw [← hstate, hcolumn] at houtcome
  have hdefault : column.default? = some (rawDefault text) := by
    cases houtcome with
    | accepted _ _ _ _ _ _ _ hcombines =>
      exact hcombines.default?.trans (ColumnClause.last?_append_cons rfl hafter)
  have hclause : bare → defaultClause text = given := fun hbare => by
    rw [defaultClause_eq, if_pos hbare]
  have htext := Column.text_sql_of_default hdefault
  refine ⟨htext, isOneOperand_iff, fun t ht temporary => ?_, fun hbare => ?_⟩
  · obtain ⟨front, behind, hsql, hbehind, hne⟩ := Table.exists_behind ht temporary
    refine ⟨front ++ column.withoutDefault.sql.text.toList, behind, ?_, hbehind, hne,
      fun hbare => ?_⟩
    · rw [hsql, htext]
      simp only [List.append_assoc]
      rfl
    · rw [hclause hbare]
      exact operand?_eq_some_iff hbehind
  · have hgiven := isBareDefault_iff.mp hbare
    obtain ⟨hread, hhides⟩ := Token.lex_bare_append hgiven
    exact ⟨Token.notMem_delimiters_of_bare hgiven, hread, hhides, fun h => h.hyphensApart⟩

/-- A number with a minus, behind another column and between other clauses. -/
theorem rawDefault_clause_minus_one :
    ∃ column, ((Building.column "x" .long ([.unique] ++ .defaultText " -1 " :: [.index])).run.run
        (runAll [.column "id" .long [.primaryKey]] ({ name := ⟨"t"⟩ }, 0))).1 = .ok column ∧
      column.sql.text.toList =
        column.withoutDefault.sql.text.toList ++ (" DEFAULT ".toList ++ defaultClause " -1 ") ∧
      IsOneOperand " -1 " := by
  refine ⟨_, rfl, ?_⟩
  have hclause := rawDefault_clause ⟨"t"⟩ 0 [.column "id" .long [.primaryKey]] "x" .long
    [.unique] [.index] " -1 " (by decide) rfl
  exact ⟨hclause.1, hclause.2.1.mpr fun _ => by decide +kernel⟩

/-- **A bare default need not be an operand**: a comment, a difference and no
text at all are written as they are. -/
theorem not_isOneOperand :
    (∃ column, ((Building.column "x" .long [.defaultText "--"]).run.run
        ({ name := ⟨"t"⟩ }, 0)).1 = .ok column ∧
      column.sql.text = "\"x\" INTEGER NOT NULL DEFAULT --") ∧
    ¬ IsOneOperand "--" ∧ ¬ IsOneOperand "1-2" ∧ ¬ IsOneOperand "" := by
  have hnone : ∀ {text : String}, isBareDefault (Text.trim text) = true →
      ¬ OperandText (Text.trim text).toList → ¬ IsOneOperand text :=
    fun hbare hoperand h => hoperand (isOneOperand_iff.mp h hbare)
  exact ⟨⟨_, rfl, by decide +kernel⟩, hnone (by decide +kernel) (by decide +kernel),
    hnone (by decide +kernel) (by decide +kernel), hnone (by decide +kernel) (by decide +kernel)⟩

end TableCall

end TypedSql

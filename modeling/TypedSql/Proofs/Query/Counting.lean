import TypedSql.Proofs.Codec.Literal
import TypedSql.Proofs.Query.Columns
import TypedSql.Proofs.Query.Sending
import TypedSql.Proofs.Statement.Conditions
import TypedSql.Proofs.Term.Phrase

/-!
# Queries that are taken for counts

The rows of a query are counted by a query around it. Whether there is one
already is decided by how the text begins, and a text begins with what stands
on its left edge: the leftmost term of the first item, as far as no parenthesis
is in front of it (`Term.leftmost`). `Term.begins` says for every term that its
text begins with `COUNT(*)` exactly when this is its leftmost term, whatever
comes behind it.

So a query is taken for a count if it does not ask for different rows and the
leftmost term of its first item is the count of rows
(`Select.beginsWithCount_iff`). This is so for every count of rows by itself,
but just as well if something is added to the count, if other items are
selected with it and if rows are grouped (`Query.countSql_of_grouped`). Every
other query stands whole between the parentheses of the query around it
(`Query.countsRows_of_phrase`). Placeholders are left where they are.
-/

namespace TypedSql

/-! ## How a text begins

That a text begins with a word can not be split at the places where parts of
the text end: a part may be shorter than the word. So it is said of a part what
the text begins with *whatever comes behind it*, which is stable under
appending, and the star is carried along because `COUNT(` is not yet the count
of rows. -/

namespace Text

/-- **A text begins with a word** in capitals, the case of its letters aside. -/
def Opens (word cs : List Char) : Prop := (cs.take word.length).map Char.toUpper = word

theorem opens_cons_cons {w c : Char} {ws cs : List Char} :
    Opens (w :: ws) (c :: cs) ↔ c.toUpper = w ∧ Opens ws cs :=
  List.cons.injEq _ _ _ _ ▸ .rfl

/-- **A text in two parts** begins with a word if the first part agrees with it
and the second part begins with what is left of it. -/
theorem opens_append (word xs cs : List Char) :
    Opens word (xs ++ cs) ↔
      (xs.map Char.toUpper).take word.length = word.take xs.length ∧
        Opens (word.drop xs.length) cs := by
  induction xs generalizing word with
  | nil => simp
  | cons x xs ih =>
    cases word with
    | nil => simp [Opens]
    | cons w ws =>
      rw [List.cons_append, opens_cons_cons, ih, ← and_assoc]
      simp [List.cons.injEq]

theorem opens_left {word ws cs : List Char} (h : Opens (word ++ ws) cs) : Opens word cs := by
  have htake := congrArg (List.take word.length) h
  rw [← List.map_take, List.take_take, List.length_append, Nat.min_eq_left (Nat.le_add_right _ _),
    List.take_left] at htake
  exact htake

end Text

/-- The count of rows as it is written. -/
def countWord : List Char := ['C', 'O', 'U', 'N', 'T', '(', '*', ')']

namespace Sql

/-- **How a part begins**, whatever comes behind it: not with a star, and with
the count of rows if and only if `counts` holds. -/
def Begins (s : Sql) (counts : Prop) : Prop :=
  ∀ rest : List Char, ¬Text.Opens ['*'] (s.text.toList ++ rest) ∧
    (Text.Opens countWord (s.text.toList ++ rest) ↔ counts)

namespace Begins

variable {s : Sql} {p q : Prop}

theorem congr (h : s.Begins p) (hpq : p ↔ q) : s.Begins q :=
  fun rest => (h rest).imp_right fun hcount => hcount.trans hpq

theorem append (h : s.Begins p) (t : Sql) : (s ++ t).Begins p := by
  intro rest
  rw [toList_text_append, List.append_assoc]
  exact h _

/-- What begins with another character does not begin with a count. -/
theorem of_head {c : Char} {cs : List Char} (hs : s.text.toList = c :: cs)
    (hc : c.toUpper ∉ ['*', 'C']) : s.Begins False := by
  intro rest
  rw [hs, List.cons_append, countWord, Text.opens_cons_cons, Text.opens_cons_cons]
  rw [List.mem_cons, List.mem_singleton, not_or] at hc
  exact ⟨fun hstar => hc.1 hstar.1, fun hcount => hc.2 hcount.1, False.elim⟩

theorem of_words {w : String}
    (h : ∀ word ∈ [['*'], countWord],
      (w.toList.map Char.toUpper).take word.length ≠ word.take w.toList.length) :
    (words w).Begins False := by
  intro rest
  rw [text_words, Text.opens_append, Text.opens_append]
  refine ⟨fun hstar => h _ (by decide) hstar.1, fun hcount => h _ (by decide) hcount.1,
    False.elim⟩

/-- A digit is no letter. -/
theorem of_isDigit {d : Char} {cs : List Char} (hs : s.text.toList = d :: cs)
    (hd : d.isDigit = true) : s.Begins False := by
  have hupper : d.toUpper = d := by
    rw [Char.toUpper, dif_neg]
    rintro ⟨hle, -⟩
    simp only [Char.isDigit, Bool.and_eq_true, decide_eq_true_eq] at hd
    exact absurd (UInt32.le_trans hle hd.2) (by decide)
  refine of_head hs fun hmem => ?_
  rw [hupper, List.mem_cons, List.mem_singleton] at hmem
  rcases hmem with rfl | rfl <;> cases hd

theorem of_magnitude (h : WrittenMagnitude s.text.toList) : s.Begins False := by
  obtain ⟨d, ds, hs, hd, -⟩ := h
  exact of_isDigit hs hd

/-- A literal is no count. -/
theorem literal (c : Codec) (v : c.Value) : Begins [.literal c v] False := by
  have htext : (text [.literal c v]).toList = (c.literal v).toList := toList_text_singleton _
  obtain ⟨hnull, -⟩ | ⟨s, w, hliteral, -⟩ := c.literal_cases v
  · exact of_head (htext.trans (congrArg String.toList hnull)) (by decide)
  rw [hliteral] at htext
  rcases (s.literal_says w).2 with hnull | ⟨cs, hquoted | hquoted⟩ | ⟨-, cs, hnumber, hcs⟩
  · exact of_head (htext.trans (congrArg String.toList hnull)) (by decide)
  · exact of_head (htext.trans hquoted) (by decide)
  · exact of_head (htext.trans hquoted) (by decide)
  · rcases hcs with hcs | hcs
    · obtain ⟨d, ds, rfl⟩ : ∃ d ds, cs = d :: ds := by
        cases cs with
        | nil => cases hnumber
        | cons d ds => exact ⟨d, ds, rfl⟩
      rw [Literal.isNumber, Bool.and_eq_true] at hnumber
      exact of_isDigit (htext.trans hcs) hnumber.1
    · exact of_head (htext.trans hcs) (by decide)

/-- **A value is no count.** -/
theorem value {p : Piece} (h : p.IsValue) : Begins [p] False := by
  have htext := toList_text_singleton p
  cases p with
  | words w => exact h.elim
  | verbatim s => exact h.elim
  | name i => exact of_head (htext.trans i.toList_quoted) (by decide)
  | rowColumn row i =>
    rw [Piece.text, String.append_assoc, String.toList_append] at htext
    cases row <;> exact of_head htext (by decide)
  | number n => exact of_magnitude (htext ▸ integerText_natCast_written n.toNat)
  | literal c v => exact literal c v
  | quotedText s =>
    rw [Piece.text, textLiteral, Text.toList_quoted] at htext
    exact of_head htext (by decide)
  | slot c => exact of_head (htext.trans (show "?".toList = ['?'] from rfl)) (by decide)

theorem parenthesized (s : Sql) : s.parenthesized.Begins False :=
  (of_words (by decide)).append _ |>.append _

/-- **The count of values** has no star in its parentheses. -/
theorem count (h : s.Begins p) : (words "COUNT" ++ s.parenthesized).Begins False := by
  intro rest
  have hword : ¬Text.Opens countWord
      ((text (words "COUNT" ++ s.parenthesized)).toList ++ rest) := by
    intro hcount
    rw [Sql.parenthesized, List.append_assoc, toList_text_append, toList_text_append, text_words,
      text_words, List.append_assoc, List.append_assoc, toList_text_append,
      List.append_assoc] at hcount
    have hstar := ((Text.opens_append _ _ _).mp ((Text.opens_append _ _ _).mp hcount).2).2
    have hfirst : Text.Opens ['*'] _ := Text.opens_left hstar
    exact (h _).1 hfirst
  refine ⟨fun hstar => ?_, hword, False.elim⟩
  rw [toList_text_append, text_words] at hstar
  exact absurd (Text.opens_cons_cons.mp hstar).1 (by decide)

theorem countStar : (words "COUNT(*)").Begins True := by
  intro rest
  rw [text_words, Text.opens_append, Text.opens_append]
  exact ⟨fun hstar => absurd hstar.1 (by decide), fun _ => trivial, fun _ => ⟨by decide, rfl⟩⟩

theorem parenthesizedIf (h : s.Begins p) (setOff : Bool) :
    (s.parenthesizedIf setOff).Begins (setOff = false ∧ p) := by
  cases setOff with
  | false => exact h.congr (by simp)
  | true => exact (parenthesized s).congr (by simp)

end Begins

end Sql

/-! ## Terms

A term is written with its operand in front, in parentheses or not, or else it
begins with something of its own. The induction is over the term, and only its
left edge is followed; what stands to the right of the operand is never looked
at. -/

/-- **The leftmost term**: what stands on the left edge of the text, down to
the first parenthesis or to what has nothing to its left. -/
def Term.leftmost : Term → Term
  | .binary op l r => if needsParentheses op l false then .binary op l r else l.leftmost
  | .isNull t negated =>
    if bindsLooser t (equality + 1) then .isNull t negated else t.leftmost
  | .between t low high =>
    if bindsLooser t (equality + 1) then .between t low high else t.leftmost
  | .inList t items negated =>
    if bindsLooser t (equality + 1) then .inList t items negated else t.leftmost
  | .inQuery t query negated =>
    if bindsLooser t (equality + 1) then .inQuery t query negated else t.leftmost
  | t => t

namespace Term

/-- A term that stands behind its operand begins as the operand does. -/
theorem leftmost_iff {t operand : Term} {setOff : Bool} (ht : t ≠ .countStar) :
    (setOff = false ∧ operand.leftmost = .countStar) ↔
      (if setOff then t else operand.leftmost) = .countStar := by
  cases setOff <;> simp [ht]

/-- **A term begins with a count** exactly if its leftmost term is one. -/
theorem begins : ∀ t : Term, t.sql.Begins (t.leftmost = .countStar)
  | .literal c v => (Sql.Begins.value (p := .literal c v) trivial).congr (by simp [leftmost])
  | .slot c => (Sql.Begins.value (p := .slot c) trivial).congr (by simp [leftmost])
  | .rowColumn scope name =>
    (Sql.Begins.value (p := .rowColumn scope name) trivial).congr (by simp [leftmost])
  | .reference name => (Sql.Begins.value (p := .name name) trivial).congr (by simp [leftmost])
  | .column _ _ =>
    (((Sql.Begins.value (p := .name _) trivial).append _).append _).congr (by simp [leftmost])
  | .not _ => ((Sql.Begins.of_words (by decide)).append _).congr (by simp [leftmost])
  | .binary op l r =>
    ((((begins l).parenthesizedIf _).append _).append _).congr (leftmost_iff nofun)
  | .isNull t negated =>
    (((begins t).parenthesizedIf _).append _).congr (leftmost_iff nofun)
  | .between t low high =>
    ((((((begins t).parenthesizedIf _).append _).append _).append _).append _).congr
      (leftmost_iff nofun)
  | .inList t items negated =>
    ((((begins t).parenthesizedIf _).append _).append _).congr (leftmost_iff nofun)
  | .inQuery t query negated =>
    ((((begins t).parenthesizedIf _).append _).append _).congr (leftmost_iff nofun)
  | .exists _ negated => by
    refine (Sql.Begins.append ?_ _).congr (p := False) (by simp [leftmost])
    cases negated <;> exact Sql.Begins.of_words (by decide)
  | .call f _ => by
    refine (Sql.Begins.append ?_ _).congr (p := False) (by simp [leftmost])
    cases f <;> exact Sql.Begins.of_words (by decide)
  | .aggregate f t => by
    refine Sql.Begins.congr (p := False) ?_ (by simp [leftmost])
    cases f with
    | count => exact Sql.Begins.count (begins t)
    | _ => exact (Sql.Begins.of_words (by decide)).append _
  | .countStar => Sql.Begins.countStar.congr (by simp [leftmost])
  | .countDistinct t =>
    (((Sql.Begins.of_words (by decide)).append _).append _).congr (by simp [leftmost])
  | .groupConcat t separator =>
    ((((Sql.Begins.of_words (by decide)).append _).append _).append _).congr (by simp [leftmost])
  | .scalar _ => (Sql.Begins.parenthesized _).congr (by simp [leftmost])

end Term

/-! ## Queries -/

/-- **A query that begins like a count**: it asks for all rows, and the leftmost
term of its first item is the count of rows. -/
def Select.BeginsWithCount (s : Select) : Prop :=
  s.isDistinct = false ∧ ∃ i ∈ s.items.head?, i.expr.term.leftmost = .countStar

/-- **A query that is a count**: the count of rows is all that it selects, and
rows are not grouped. -/
def Select.IsCount (s : Select) : Prop :=
  (∃ i, s.items = [i] ∧ i.expr.term = .countStar) ∧ s.grouping = []

namespace Query

/-- A text without blanks in front begins with a count if its first characters
are one. -/
theorem beginsWithCount_of_head {text : String} {c : Char} (htext : text.toList.head? = some c)
    (hc : Text.isBlank c = false) :
    beginsWithCount text = true ↔ Text.Opens countHead.toList text.toList := by
  have hblanks : Text.dropBlanks text.toList = text.toList := by
    obtain ⟨cs, hcs⟩ := List.head?_eq_some_iff.mp htext
    rw [hcs]
    exact List.dropWhile_cons_of_neg (Bool.not_eq_true _ ▸ hc)
  rw [beginsWithCount, hblanks, beq_iff_eq, Text.Opens]

end Query

namespace Select

/-- How the select list begins. -/
theorem begins_items (items : List Item) (behind : Sql) :
    (Sql.commaList (items.map Item.sql) ++ (Sql.words " FROM " ++ behind)).Begins
      (∃ i ∈ items.head?, i.expr.term.leftmost = .countStar) := by
  cases items with
  | nil => exact ((Sql.Begins.of_words (by decide)).append behind).congr (by simp)
  | cons i items =>
    obtain ⟨more, hmore⟩ : ∃ more, Sql.commaList ((i :: items).map Item.sql)
        = i.expr.term.sql ++ more := by
      rw [List.map_cons, Item.sql]
      cases items.map Item.sql with
      | nil => exact ⟨_, rfl⟩
      | cons t ts =>
        rw [Sql.commaList, List.append_assoc, List.append_assoc]
        exact ⟨_, rfl⟩
    rw [hmore, List.append_assoc]
    exact (i.expr.term.begins.append _).congr (by simp)

theorem exists_text_eq (s : Select) : ∃ cs,
    s.sql.text.toList = (if s.isDistinct then "SELECT DISTINCT " else "SELECT ").toList ++ cs ∧
      (Text.Opens countWord cs ↔ ∃ i ∈ s.items.head?, i.expr.term.leftmost = .countStar) := by
  obtain ⟨behind, hsql⟩ := s.exists_sql_eq
  simp only [opening, Term.sqlItems_entry, List.append_assoc] at hsql
  have hlist := (begins_items s.items (s.source.sql ++ behind) []).2
  rw [List.append_nil] at hlist
  rw [hsql, Sql.toList_text_append, Sql.text_words]
  exact ⟨_, rfl, hlist⟩

/-- **Which queries are taken for counts.** -/
theorem beginsWithCount_iff (s : Select) :
    Query.beginsWithCount s.sql.text = true ↔ s.BeginsWithCount := by
  have hhead : Query.countHead.toList = "SELECT ".toList ++ countWord := rfl
  obtain ⟨cs, htext, hlist⟩ := s.exists_text_eq
  rw [BeginsWithCount, ← hlist]
  cases hdistinct : s.isDistinct with
  | true =>
    rw [hdistinct, if_pos rfl] at htext
    have hfirst : s.sql.text.toList.head? = some 'S' := by rw [htext]; rfl
    rw [Query.beginsWithCount_of_head hfirst (by decide), htext, Text.opens_append]
    exact iff_of_false (fun h => absurd h.1 (by decide)) fun h => absurd h.1 (by decide)
  | false =>
    rw [hdistinct, if_neg Bool.false_ne_true] at htext
    have hfirst : s.sql.text.toList.head? = some 'S' := by rw [htext]; rfl
    rw [Query.beginsWithCount_of_head hfirst (by decide), htext, hhead, Text.opens_append]
    exact and_congr (iff_of_true (by decide) rfl) .rfl

theorem IsCount.beginsWithCount {s : Select} (h : s.IsCount) (hall : s.isDistinct = false) :
    s.BeginsWithCount := by
  obtain ⟨⟨i, hitems, hcount⟩, -⟩ := h
  refine ⟨hall, i, ?_, ?_⟩
  · rw [hitems]
    rfl
  · rw [hcount]
    rfl

/-! ### Clauses -/

/-- No clause but one makes a difference for how a query begins. -/
theorem isDistinct_foldl_refine (clauses : List SelectClause) (s : Select) :
    (clauses.foldl refine s).isDistinct = false ↔
      s.isDistinct = false ∧ ∀ clause ∈ clauses, clause ≠ .distinct := by
  induction clauses generalizing s with
  | nil => exact (and_iff_left nofun).symm
  | cons clause clauses ih =>
    rw [List.foldl_cons, ih, List.forall_mem_cons, ← and_assoc]
    refine and_congr_left fun _ => ?_
    cases clause with
    | distinct => exact iff_of_false nofun fun h => h.2 rfl
    | _ => exact (and_iff_left nofun).symm

/-- The first item that is asked for is the first one that is selected. -/
theorem head?_distinctItems (items : List Item) : (distinctItems [] items).head? = items.head? := by
  cases items with
  | nil => rfl
  | cons i items => rfl

/-- **Which queries are taken for counts**, in the order of the calls: neither
conditions nor groups, order or limits matter, and what else is selected does
not matter either. -/
theorem beginsWithCount_run (source : Source) (items : List Item) (clauses : List SelectClause) :
    (clauses.foldl refine (of source items)).BeginsWithCount ↔
      (∀ clause ∈ clauses, clause ≠ .distinct) ∧
        ∃ i ∈ (if items.isEmpty then source.items else items).head?,
          i.expr.term.leftmost = .countStar := by
  rw [BeginsWithCount, isDistinct_foldl_refine, (foldl_refine clauses _).1, of,
    head?_distinctItems, and_iff_right rfl]

end Select

/-! ## The query around a query -/

namespace Query

/-- The tokens in front of a query that is counted. -/
def countOpening : List Token :=
  [.select, .word ['C', 'O', 'U', 'N', 'T'], .opening, .op .mul, .closing,
    .word ['F', 'R', 'O', 'M'], .opening]

/-- **A query that counts the rows of another one**, which stands whole between
its parentheses. -/
structure CountsRows (q counted : Sql) : Prop where
  /-- The text. -/
  text : q.text = "SELECT COUNT(*) FROM ( " ++ counted.text ++ " )"
  /-- The tokens: those of the other query are not touched. -/
  tokens : Token.lex q.text.toList
    = countOpening ++ Token.lex counted.text.toList ++ [.closing]
  /-- The parenthesis in front closes behind the other query and not in it. -/
  whole : Token.nest 0 (Token.lex counted.text.toList) = some 0

/-- **What a query is put into to count its rows.** -/
theorem countsRows_of_phrase {counted : Sql} (h : Phrase counted) :
    CountsRows (Sql.words (countHead ++ " FROM ( ") ++ counted ++ Sql.words " )") counted := by
  refine ⟨?_, ?_, h.lex_text ▸ h.nest_tokens 0⟩
  · rw [Sql.text_append, Sql.text_append, Sql.text_words, Sql.text_words]
    rfl
  · have hopening : Token.lex (countHead ++ " FROM ( ").toList = countOpening := by decide
    have hends : ∀ c, Token.EndsBefore (countHead ++ " FROM ( ").toList c := fun c => by
      rw [Token.EndsBefore, show (Lexeme.none.scan (countHead ++ " FROM ( ").toList).2 = .none by
        decide]
      rfl
    have hboundary : Phrase.AtBoundary " )".toList := fun c hc => Option.some.inj hc ▸ by decide
    have hsplit := h.split (f := Token.lex) (fun p _ cs hcs => Token.lex_append _ cs hcs) hboundary
    have hclosing : Token.lex " )".toList = [.closing] := by decide
    rw [Sql.toList_text_append, Sql.toList_text_append, Sql.text_words, Sql.text_words,
      List.append_assoc, Token.lex_append _ _ fun c _ => hends c, hopening, hsplit, hclosing,
      h.lex_text, List.append_assoc]
    rfl

theorem CountsRows.beginsWithCount {q counted : Sql} (h : CountsRows q counted) :
    beginsWithCount q.text = true := by
  have htext : q.text.toList = countHead.toList ++ (" FROM ( " ++ counted.text ++ " )").toList := by
    rw [h.text, ← String.toList_append, ← String.append_assoc, ← String.append_assoc]
    rfl
  have hfirst : q.text.toList.head? = some 'S' := by rw [htext]; rfl
  rw [beginsWithCount_of_head hfirst (by decide), htext, Text.opens_append]
  exact ⟨by decide, rfl⟩

/-- Queries that do not begin like a count are put into one that is a count. -/
theorem countSql_of_not {s : Select} (h : ¬s.BeginsWithCount) :
    CountsRows s.toQuery.countSql s.sql := by
  have hsql : s.toQuery.countSql = _ := if_neg (mt s.beginsWithCount_iff.mp h)
  exact hsql ▸ countsRows_of_phrase s.phrase

/-- **A query is left as it is** exactly if it begins like a count. -/
theorem countSql_eq_iff (s : Select) : s.toQuery.countSql = s.sql ↔ s.BeginsWithCount := by
  refine ⟨fun heq => Classical.byContradiction fun h => ?_, fun h => ?_⟩
  · have hcount := (countSql_of_not h).beginsWithCount
    rw [heq] at hcount
    exact h (s.beginsWithCount_iff.mp hcount)
  · exact if_pos (s.beginsWithCount_iff.mpr h)

/-- **How the rows of a query are counted**, in every run of clauses. The query
is left as it is exactly if it begins like a count: no clause asks for different
rows, and the leftmost term of the first item is the count of rows. A query that
is a count is one of these. Every other query stands whole in a query that
counts its rows. The placeholders are those of the query in either case. -/
theorem countSql_run (source : Source) (items : List Item) (clauses : List SelectClause) :
    let s := clauses.foldl Select.refine (Select.of source items)
    s.toQuery.countSql.slots = s.sql.slots ∧
      (s.toQuery.countSql = s.sql ↔ (∀ clause ∈ clauses, clause ≠ .distinct) ∧
        ∃ i ∈ (if items.isEmpty then source.items else items).head?,
          i.expr.term.leftmost = .countStar) ∧
      (s.IsCount → (∀ clause ∈ clauses, clause ≠ .distinct) → s.toQuery.countSql = s.sql) ∧
      (s.toQuery.countSql ≠ s.sql → CountsRows s.toQuery.countSql s.sql) := by
  intro s
  refine ⟨slots_countSql _, ?_, fun hcount hclauses => ?_,
    fun hne => countSql_of_not (mt (countSql_eq_iff s).mpr hne)⟩
  · exact (countSql_eq_iff s).trans (Select.beginsWithCount_run source items clauses)
  · have hall : s.isDistinct = false :=
      (Select.isDistinct_foldl_refine clauses _).mpr ⟨rfl, hclauses⟩
    exact (countSql_eq_iff s).mpr (hcount.beginsWithCount hall)

/-- **Queries that are taken for counts and are none**: one with groups, of
which it says how large each is; one that adds something to the count; and one
that selects something else as well. Their rows are not counted. -/
theorem countSql_of_grouped :
    let t : Source := { tree := .named ⟨"t"⟩, items := [] }
    let a : Term := .column ⟨"t"⟩ ⟨"a"⟩
    let item (id : ExprId) (term : Term) : Item := .plain ⟨id, term, .long, .long⟩
    let grouped := (Select.of t [item 0 .countStar]).groupBy [a]
    let added := Select.of t [item 0 (.binary .add .countStar a)]
    let several := Select.of t [item 0 .countStar, item 1 a]
    grouped.toQuery.countSql.text = "SELECT COUNT(*) FROM \"t\" GROUP BY \"t\".\"a\"" ∧
      ∀ s ∈ [grouped, added, several], s.toQuery.countSql = s.sql ∧ ¬s.IsCount := by
  intro t a item grouped added several
  have hcount : ∀ s : Select, s.BeginsWithCount → s.toQuery.countSql = s.sql := fun s =>
    (countSql_eq_iff s).mpr
  have hgrouped : grouped.toQuery.countSql = grouped.sql := hcount _ ⟨rfl, _, rfl, rfl⟩
  refine ⟨by rw [hgrouped]; decide, ?_⟩
  simp only [List.forall_mem_cons]
  refine ⟨⟨hgrouped, fun h => ?_⟩, ⟨hcount _ ⟨rfl, _, rfl, rfl⟩, ?_⟩,
    ⟨hcount _ ⟨rfl, _, rfl, rfl⟩, ?_⟩, nofun⟩
  · exact absurd h.2 (List.cons_ne_nil _ _)
  · rintro ⟨⟨i, hi, hterm⟩, -⟩
    obtain ⟨rfl, -⟩ := List.cons.inj hi
    cases hterm
  · rintro ⟨⟨i, hi, -⟩, -⟩
    cases hi

end Query

end TypedSql

import TypedSql.Proofs.Sql.Phrase

/-!
# What stands outside quotes

A scan from the left that knows nothing of the language but its two kinds of
quotes. `unquoted` is what it sees: every character that stands outside, and
nothing in the place of one that is quoted, so that places stay what they
are in the text.

The view of a phrase is that of its pieces one after the other
(`Phrase.unquoted_text`). Names, texts and bytes show nothing, whatever
characters are in them; a placeholder is the one piece that shows a question
mark, and no piece shows a semicolon or a part of a comment.
-/

namespace TypedSql

/-! ## The scan

Three places are enough: outside, inside a quote, and behind a quote that may
yet turn out to be the first of two. The last is as good as outside for every
character but the quote itself, and that is what `Place.Leaves` says. -/

/-- **The place of a scan.** -/
inductive Place where
  /-- Outside quotes. -/
  | outside
  /-- Behind a quote that opened. -/
  | inside (q : Char)
  /-- Behind a quote that closes what it stands in, or is the first of two. -/
  | closing (q : Char)
deriving DecidableEq

namespace Place

/-- The place behind a character that stands outside. -/
def enter (c : Char) : Place := if c = '"' ∨ c = '\'' then .inside c else .outside

/-- The place behind a character. -/
def next : Place → Char → Place
  | .outside, c => enter c
  | .inside q, c => if c = q then .closing q else .inside q
  | .closing q, c => if c = q then .inside q else enter c

/-- The place behind a text. -/
def after (p : Place) (cs : List Char) : Place := cs.foldl next p

/-- What a scan sees of a text: the characters outside quotes. -/
def view : Place → List Char → List (Option Char)
  | _, [] => []
  | p, c :: cs => (if p.next c = .outside then some c else none) :: view (p.next c) cs

/-- The quote that a scan leaves open if it ends here. -/
def pending : Place → List Char
  | .inside q => [q]
  | _ => []

theorem after_append (p : Place) (xs ys : List Char) :
    p.after (xs ++ ys) = (p.after xs).after ys :=
  List.foldl_append

theorem view_append (p : Place) (xs ys : List Char) :
    p.view (xs ++ ys) = p.view xs ++ (p.after xs).view ys := by
  induction xs generalizing p with
  | nil => rfl
  | cons c cs ih =>
    rw [List.cons_append, view, view, ih]
    rfl

@[simp] theorem length_view (p : Place) (cs : List Char) : (p.view cs).length = cs.length := by
  induction cs generalizing p with
  | nil => rfl
  | cons c cs ih => rw [view, List.length_cons, ih, List.length_cons]

/-- **A place that is as good as outside** for what comes next. -/
def Leaves (p : Place) (cs : List Char) : Prop :=
  p = .outside ∨ ∃ q, p = .closing q ∧ ∀ c, cs.head? = some c → c ≠ q

theorem Leaves.view_eq {p : Place} {cs : List Char} (h : p.Leaves cs) :
    p.view cs = Place.outside.view cs := by
  rcases h with rfl | ⟨q, rfl, hq⟩
  · rfl
  · cases cs with
    | nil => rfl
    | cons c cs =>
      have hnext : (Place.closing q).next c = Place.outside.next c := if_neg (hq c rfl)
      rw [view, view, hnext]

/-- Behind such a place a text leaves open what it does outside. -/
theorem Leaves.pending_after {p : Place} {cs : List Char} (h : p.Leaves cs) :
    (p.after cs).pending = (Place.outside.after cs).pending := by
  rcases h with rfl | ⟨q, rfl, hq⟩
  · rfl
  · cases cs with
    | nil => rfl
    | cons c cs =>
      have hnext : (Place.closing q).next c = Place.outside.next c := if_neg (hq c rfl)
      rw [after, List.foldl_cons, hnext]
      rfl

theorem Leaves.pending_eq_nil {p : Place} {cs : List Char} (h : p.Leaves cs) : p.pending = [] := by
  rcases h with rfl | ⟨q, rfl, -⟩ <;> rfl

/-! ### Texts without and between quotes -/

/-- A text without quotes is seen as it is. -/
theorem outside_of_plain {cs : List Char} (h : ∀ c ∈ cs, c ≠ '"' ∧ c ≠ '\'') :
    Place.outside.after cs = .outside ∧ Place.outside.view cs = cs.map some := by
  induction cs with
  | nil => exact ⟨rfl, rfl⟩
  | cons c cs ih =>
    obtain ⟨hdouble, hsingle⟩ := h c List.mem_cons_self
    have hnext : Place.outside.next c = .outside := if_neg (by simp [hdouble, hsingle])
    obtain ⟨hafter, hview⟩ := ih fun d hd => h d (List.mem_cons_of_mem c hd)
    constructor
    · rw [after, List.foldl_cons, hnext]
      exact hafter
    · rw [view, hnext, hview, if_pos rfl, List.map_cons]

/-- The content of a quoted text is not seen. -/
theorem inside_of_doubled (q : Char) (s : List Char) :
    (Place.inside q).after (Text.doubled q s) = .inside q ∧
      ∀ x ∈ (Place.inside q).view (Text.doubled q s), x = none := by
  induction s with
  | nil => exact ⟨rfl, nofun⟩
  | cons c s ih =>
    by_cases hc : c = q
    · -- the first of two quotes seems to close the text, and the second goes on with it
      have hclose : (Place.inside q).next q = .closing q := if_pos rfl
      have hopen : (Place.closing q).next q = .inside q := if_pos rfl
      rw [hc, Text.doubled_cons_self]
      refine ⟨?_, fun x hx => ?_⟩
      · rw [after, List.foldl_cons, hclose, List.foldl_cons, hopen]
        exact ih.1
      · rw [view, hclose, view, hopen, List.mem_cons, List.mem_cons] at hx
        rcases hx with rfl | rfl | hx
        · rfl
        · rfl
        · exact ih.2 x hx
    · have hstay : (Place.inside q).next c = .inside q := if_neg hc
      rw [Text.doubled_cons_of_ne hc]
      refine ⟨?_, fun x hx => ?_⟩
      · rw [after, List.foldl_cons, hstay]
        exact ih.1
      · rw [view, hstay, List.mem_cons] at hx
        rcases hx with rfl | hx
        · rfl
        · exact ih.2 x hx

/-- **A quoted text is not seen**, and its last quote closes it. -/
theorem outside_of_quoted {q : Char} (hq : q = '"' ∨ q = '\'') (s : List Char) :
    Place.outside.after (q :: Text.doubled q s ++ [q]) = .closing q ∧
      ∀ x ∈ Place.outside.view (q :: Text.doubled q s ++ [q]), x = none := by
  have hopen : Place.outside.next q = .inside q := if_pos hq
  have hclose : (Place.inside q).next q = .closing q := if_pos rfl
  obtain ⟨hafter, hview⟩ := inside_of_doubled q s
  rw [List.cons_append]
  refine ⟨?_, fun x hx => ?_⟩
  · rw [after, List.foldl_cons, hopen]
    exact (after_append _ _ _).trans (by rw [hafter]; exact hclose)
  · rw [view, hopen, view_append, hafter, List.mem_cons, List.mem_append] at hx
    rcases hx with rfl | hx | hx
    · rfl
    · exact hview x hx
    · rw [view, hclose] at hx
      exact List.mem_singleton.mp hx

end Place

/-- **What stands outside quotes**, place by place. -/
def unquoted (cs : List Char) : List (Option Char) := Place.outside.view cs

/-- The quote that a text leaves open, if it does. -/
def openQuote (cs : List Char) : List Char := (Place.outside.after cs).pending

/-! ## What pieces show

Three forms of a piece cover everything that is printed: plain text, a quoted
text with plain text in front of it or none, and the placeholder. Every
statement about what a piece shows is proved for the three forms, and
`Piece.form_of_plain` is the one place where the kinds of pieces are gone
through. -/

/-- Neighbours that do not begin a comment. -/
def NoComment (x y : Option Char) : Prop :=
  ¬(x = some '-' ∧ y = some '-') ∧ ¬(x = some '/' ∧ y = some '*')

/-- **A quiet view**: nothing in it ends a statement or begins a comment,
alone or with what follows. -/
structure Quiet (v : List (Option Char)) : Prop where
  /-- There is no semicolon. -/
  noEnd : some ';' ∉ v
  /-- No comment begins. -/
  noComment : v.IsChain NoComment
  /-- None begins with the last character either. -/
  last : ∀ x, v.getLast? = some x → x ≠ some '-' ∧ x ≠ some '/'

namespace Quiet

theorem nil : Quiet [] := ⟨List.not_mem_nil, .nil, nofun⟩

theorem append {v w : List (Option Char)} (hv : Quiet v) (hw : Quiet w) : Quiet (v ++ w) where
  noEnd h := (List.mem_append.mp h).elim hv.noEnd hw.noEnd
  noComment := List.isChain_append.mpr ⟨hv.noComment, hw.noComment, fun x hx y _ =>
    ⟨fun h => (hv.last x hx).1 h.1, fun h => (hv.last x hx).2 h.1⟩⟩
  last x hx := by
    rw [List.getLast?_append, Option.or_eq_some_iff] at hx
    rcases hx with hx | ⟨_, hx⟩
    · exact hw.last x hx
    · exact hv.last x hx

theorem of_none {v : List (Option Char)} (h : ∀ x ∈ v, x = none) : Quiet v where
  noEnd hmem := nomatch h _ hmem
  noComment := by
    refine List.Pairwise.isChain (List.pairwise_of_forall_mem_list fun x hx y _ => ?_)
    rw [h x hx]
    exact ⟨nofun, nofun⟩
  last x hx := by
    rw [h x (List.mem_of_getLast? hx)]
    exact ⟨nofun, nofun⟩

/-- Plain text is quiet. -/
theorem of_plainText {cs : List Char} (h : PlainText cs) : Quiet (cs.map some) where
  noEnd hmem := by
    obtain ⟨c, hc, heq⟩ := List.mem_map.mp hmem
    have hplain := h.1 c hc
    simp_all
  noComment := by
    rw [List.isChain_map]
    refine h.2.1.imp fun c d hcd => ⟨fun heq => hcd.1 ?_, fun heq => hcd.2 ?_⟩
    · exact ⟨Option.some.inj heq.1, Option.some.inj heq.2⟩
    · exact ⟨Option.some.inj heq.1, Option.some.inj heq.2⟩
  last x hx := by
    rw [List.getLast?_map] at hx
    obtain ⟨c, hc, rfl⟩ := Option.map_eq_some_iff.mp hx
    have hplain := h.2.2 c hc
    simp_all

end Quiet

namespace Piece

/-- **The forms of a plain piece.** -/
inductive Form : Piece → Prop where
  /-- Plain text. -/
  | bare {p : Piece} (plain : PlainText p.text.toList) (slot : p.slot? = none) : Form p
  /-- A quoted text, perhaps with plain text in front. -/
  | quoted {p : Piece} {cs : List Char} {m : Mark} {s : List Char} (plain : PlainText cs)
    (text : p.text.toList = cs ++ (m.quote :: Text.doubled m.quote s ++ [m.quote]))
    (last : p.last = .closed m s) (slot : p.slot? = none) : Form p
  /-- A placeholder. -/
  | slot (c : Codec) : Form (.slot c)

end Piece

/-- A number without a sign is plain text. -/
theorem WrittenMagnitude.plainText {cs : List Char} (h : WrittenMagnitude cs) :
    (∀ c ∈ cs, c ∉ ['"', '\'', '?', ';', '-', '/']) := by
  obtain ⟨d, ds, rfl, hd, hds⟩ := h
  intro c hc
  have hchar : c.isDigit = true ∨ c = '.' ∨ c = 'e' := by
    rcases List.mem_cons.mp hc with rfl | hc
    · exact .inl hd
    · exact hds c hc
  rintro hbad
  simp only [List.mem_cons, List.not_mem_nil, or_false] at hbad
  rcases hbad with rfl | rfl | rfl | rfl | rfl | rfl <;> revert hchar <;> decide

/-- A number is plain text. -/
theorem WrittenNumber.plainText {cs : List Char} (h : WrittenNumber cs) : PlainText cs := by
  have hmagnitude : ∀ {cs : List Char}, WrittenMagnitude cs →
      PlainText cs ∧ ∀ c ∈ cs, c ≠ '-' := by
    intro cs hcs
    have hplain := hcs.plainText
    have hsign : ∀ c ∈ cs, c ≠ '-' ∧ c ≠ '/' := fun c hc => by
      have := hplain c hc
      simp_all
    refine ⟨⟨fun c hc hbad => hplain c hc (List.mem_append_left ['-', '/'] hbad), ?_,
      fun c hc hbad => hplain c (List.mem_of_getLast? hc) (List.mem_append_right ['"', '\'', '?', ';'] hbad)⟩,
      fun c hc => (hsign c hc).1⟩
    -- no character of it begins a comment, so no two neighbours do
    refine List.Pairwise.isChain (List.pairwise_of_forall_mem_list fun c hc d hd => ?_)
    exact ⟨fun heq => (hsign c hc).1 heq.1, fun heq => (hsign c hc).2 heq.1⟩
  cases h with
  | positive hcs => exact (hmagnitude hcs).1
  | negative hcs =>
    obtain ⟨⟨hplain, hchain, hlast⟩, hne⟩ := hmagnitude hcs
    -- a minus in front, with a digit behind it and no second minus
    obtain ⟨d, ds, rfl, -, -⟩ := hcs
    refine ⟨fun c hc => ?_, ?_, hlast⟩
    · rcases List.mem_cons.mp hc with rfl | hc
      · decide
      · exact hplain c hc
    · refine List.isChain_cons_cons.mpr ⟨⟨fun heq => hne d List.mem_cons_self heq.2, nofun⟩, hchain⟩

namespace Piece

/-- A literal is a number, a word or a quoted text. -/
theorem form_literal (c : Codec) (v : c.Value) : (Piece.literal c v).Form := by
  cases hencode : c.encode v with
  | null =>
    refine .bare ?_ rfl
    rw [text, Codec.literal, hencode, literalText]
    decide
  | blob bytes =>
    have htext : (Piece.literal c v).text = blobLiteral bytes := by
      rw [text, Codec.literal, hencode, literalText]
    refine @Form.quoted _ ['X'] .blob (Text.hex bytes) (by decide) ?_ ?_ rfl
    · rw [htext, blobLiteral, String.toList_ofList, show Mark.blob.quote = '\'' from rfl,
        Token.doubled_hex]
      rfl
    · rw [last, htext, Token.scan_blobLiteral]
  | text s =>
    by_cases hclass : c.storageClass = .integer ∨ c.storageClass = .real
    · refine .bare ?_ rfl
      rw [text, Codec.literal, hencode, literalText, if_pos hclass]
      exact (Codec.encode_written hclass hencode).plainText
    · have htext : (Piece.literal c v).text = textLiteral s := by
        rw [text, Codec.literal, hencode, literalText, if_neg hclass]
      refine @Form.quoted _ [] .text s.toList (by decide) ?_ ?_ rfl
      · rw [htext, textLiteral, Text.toList_quoted]
        rfl
      · rw [last, htext, Token.scan_textLiteral]

/-- **Every plain piece has one of the forms.** -/
theorem form_of_plain {p : Piece} (h : p.Plain) : p.Form := by
  cases p with
  | words w => exact .bare h rfl
  | verbatim s => exact h.elim
  | name i =>
    refine @Form.quoted _ [] .name i.name.toList (by decide) ?_ ?_ rfl
    · rw [text, Identifier.toList_quoted]
      rfl
    · rw [last, text, Token.scan_name]
  | rowColumn row i =>
    refine @Form.quoted _ (row.sql ++ ".").toList .name i.name.toList
      (by cases row <;> decide) ?_ ?_ rfl
    · rw [text, String.toList_append, Identifier.toList_quoted]
      rfl
    · rw [last, scan_rowColumn]
  | number n => exact .bare (WrittenNumber.positive (integerText_natCast_written _)).plainText rfl
  | literal c v => exact form_literal c v
  | quotedText s =>
    refine @Form.quoted _ [] .text s.toList (by decide) ?_ ?_ rfl
    · rw [text, textLiteral, Text.toList_quoted]
      rfl
    · rw [last, text, Token.scan_textLiteral]
  | slot c => exact .slot c

end Piece

theorem PlainText.outside {cs : List Char} (h : PlainText cs) :
    Place.outside.after cs = .outside ∧ Place.outside.view cs = cs.map some :=
  Place.outside_of_plain fun c hc => by
    have hplain := h.1 c hc
    simp_all

namespace Piece.Form

/-- **A piece is left** where its last token ends. -/
theorem leaves {p : Piece} (h : p.Form) {cs : List Char}
    (hcs : ∀ c, cs.head? = some c → p.last.extend? c = none) :
    (Place.outside.after p.text.toList).Leaves cs := by
  cases h with
  | bare plain _ => exact .inl plain.outside.1
  | slot c => exact .inl (by rw [Piece.text]; decide)
  | @quoted _ pre m s plain text last _ =>
    refine .inr ⟨m.quote, ?_, fun c hc heq => ?_⟩
    · rw [text, Place.after_append, plain.outside.1]
      exact (Place.outside_of_quoted (by cases m <;> simp [Mark.quote]) s).1
    · have hends := hcs c hc
      rw [last, Lexeme.extend?, if_pos heq] at hends
      cases hends

/-- **What a piece shows is quiet.** -/
theorem quiet {p : Piece} (h : p.Form) : Quiet (unquoted p.text.toList) := by
  cases h with
  | bare plain _ =>
    rw [unquoted, plain.outside.2]
    exact .of_plainText plain
  | slot c =>
    have hview : unquoted "?".toList = [some '?'] := by decide
    rw [Piece.text, hview]
    exact ⟨by decide, .singleton _, by decide⟩
  | @quoted _ pre m s plain text _ _ =>
    rw [unquoted, text, Place.view_append, plain.outside.2, plain.outside.1]
    exact (Quiet.of_plainText plain).append
      (.of_none (Place.outside_of_quoted (by cases m <;> simp [Mark.quote]) s).2)

/-- **Only a placeholder shows a question mark.** -/
theorem slot?_eq_none {p : Piece} (h : p.Form) :
    (∃ c, p = .slot c) ∨ p.slot? = none ∧ some '?' ∉ unquoted p.text.toList := by
  cases h with
  | slot c => exact .inl ⟨c, rfl⟩
  | bare plain hslot =>
    refine .inr ⟨hslot, fun hmem => ?_⟩
    rw [unquoted, plain.outside.2] at hmem
    obtain ⟨c, hc, heq⟩ := List.mem_map.mp hmem
    exact plain.1 c hc (by rw [Option.some.inj heq]; decide)
  | @quoted _ pre m s plain text _ hslot =>
    refine .inr ⟨hslot, fun hmem => ?_⟩
    rw [unquoted, text, Place.view_append, plain.outside.2, plain.outside.1,
      List.mem_append] at hmem
    rcases hmem with hmem | hmem
    · obtain ⟨c, hc, heq⟩ := List.mem_map.mp hmem
      exact plain.1 c hc (by rw [Option.some.inj heq]; decide)
    · exact nomatch (Place.outside_of_quoted (by cases m <;> simp [Mark.quote]) s).2 _ hmem

end Piece.Form

/-! ## What phrases show

A piece of a phrase is left where its last token ends, so the scan is outside
again when the next one begins. Showing the characters is then one more reading
that splits, like that of the tokens. -/

namespace Phrase

/-- The pieces of a phrase are plain. -/
theorem plain {s : Sql} (h : Phrase s) : ∀ p ∈ s, p.Plain := by
  induction h with
  | nil => exact List.forall_mem_nil _
  | value hp => exact List.forall_mem_singleton.mpr (Piece.plain_of_isValue hp)
  | dotted i j =>
    simp only [Sql.name, Sql.words, List.cons_append, List.nil_append, List.forall_mem_cons]
    exact ⟨trivial, show PlainText _ by decide, trivial, List.forall_mem_nil _⟩
  | words hw _ => exact List.forall_mem_singleton.mpr hw.plain
  | lead hw _ ih => exact List.forall_mem_cons.mpr ⟨hw.plain, ih⟩
  | within hw _ ih =>
    refine List.forall_mem_cons.mpr ⟨hw.plain, List.forall_mem_append.mpr ⟨ih, ?_⟩⟩
    exact List.forall_mem_singleton.mpr (show PlainText _ by decide)
  | append _ _ _ ihs iht => exact List.forall_mem_append.mpr ⟨ihs, iht⟩

theorem splits_unquoted : Splits unquoted := fun p hp cs hcs => by
  rw [unquoted, Place.view_append, ((Piece.form_of_plain hp).leaves hcs).view_eq]
  rfl

/-- **A phrase leaves no quote open.** -/
theorem openQuote_text {s : Sql} (h : Phrase s) : openQuote s.text.toList = [] := by
  have hleaves : ∀ p : Piece, p.Plain → ∀ cs : List Char,
      (∀ c, cs.head? = some c → p.last.extend? c = none) →
      (Place.outside.after p.text.toList).Leaves cs :=
    fun p hp cs hcs => (Piece.form_of_plain hp).leaves hcs
  have hsplits : Splits openQuote := fun p hp cs hcs => by
    have hp' := hleaves p hp cs hcs
    rw [openQuote, Place.after_append, hp'.pending_after, openQuote, hp'.pending_eq_nil]
    rfl
  rw [h.split_nil hsplits rfl, reading, List.flatMap_eq_nil_iff]
  -- nothing follows the last piece, and nothing is as good as a boundary
  intro p hp
  have hend : ∀ c, ([] : List Char).head? = some c → p.last.extend? c = none := fun c hc => by
    cases hc
  exact (hleaves p (h.plain p hp) [] hend).pending_eq_nil

/-- **A phrase shows what its pieces show.** -/
theorem unquoted_text {s : Sql} (h : Phrase s) :
    unquoted s.text.toList = s.flatMap fun p => unquoted p.text.toList :=
  h.split_nil splits_unquoted rfl

/-- **What a phrase shows is quiet.** -/
theorem quiet {s : Sql} (h : Phrase s) : Quiet (unquoted s.text.toList) := by
  rw [h.unquoted_text]
  have hplain := h.plain
  generalize s = pieces at hplain
  induction pieces with
  | nil => exact .nil
  | cons p s ih =>
    rw [List.flatMap_cons]
    rw [List.forall_mem_cons] at hplain
    exact (Piece.form_of_plain hplain.1).quiet.append (ih hplain.2)

end Phrase

end TypedSql

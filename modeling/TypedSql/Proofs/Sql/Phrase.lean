import TypedSql.Proofs.Sql.Piece
import Mathlib.Data.List.Chain

/-!
# Phrases

What is printed is a sequence of pieces, and what is read is a text. Between
the two stands the question where one piece ends: two names side by side
would be read as one, a minus behind a minus as a comment. `Phrase` is the
layout that avoids it. Between two values there is always a piece of words,
one that ends in a blank, a comma or a parenthesis before a value and begins
with one behind it.

Of a phrase everything can be read piece by piece: `Phrase.split` says so for
any reading of texts that respects the ends of tokens, `Phrase.lex_text` for
the tokens, and `Phrase.nest_tokens` says that its parentheses match.

Every theorem about a whole statement rests on this module. A new clause of the
language needs its words here, as an `Opener`, a `Closer` or a `Separator`,
each of which is checked by evaluation, and nothing that has been proved about
the other clauses changes.
-/

namespace TypedSql

/-! ## Words

Words are the only pieces whose text is chosen freely, so they are the ones
that need a condition. It is stated about single words such as `" FROM "` and
decided for each of them. The structures differ in what may stand beside the
word: nothing but other words, a value behind it, or a value in front of it. -/

/-- **Words that are what they look like**: no quote, no placeholder, nothing
that ends a statement or begins a comment, alone or with what follows. -/
def PlainText (cs : List Char) : Prop :=
  (∀ c ∈ cs, c ∉ ['"', '\'', '?', ';']) ∧
    cs.IsChain (fun c d => ¬(c = '-' ∧ d = '-') ∧ ¬(c = '/' ∧ d = '*')) ∧
    ∀ c ∈ cs.getLast?, c ∉ ['-', '/']

instance (cs : List Char) : Decidable (PlainText cs) := inferInstanceAs (Decidable (_ ∧ _ ∧ _))

/-- **Words that open a number of parentheses.** -/
structure Wording (opened : Nat) (w : String) : Prop where
  /-- The words are what they look like. -/
  plain : PlainText w.toList
  /-- So many parentheses are open at the end. -/
  nest : Token.nest 0 (Token.lex w.toList) = some opened

instance (opened : Nat) (w : String) : Decidable (Wording opened w) :=
  decidable_of_iff (PlainText w.toList ∧ Token.nest 0 (Token.lex w.toList) = some opened)
    ⟨fun h => ⟨h.1, h.2⟩, fun h => ⟨h.plain, h.nest⟩⟩

/-- **Words that may stand before a value**: their last token has ended. -/
structure Opener (opened : Nat) (w : String) : Prop extends Wording opened w where
  /-- No token is open at the end. -/
  last : (Piece.words w).last = .none

instance (opened : Nat) (w : String) : Decidable (Opener opened w) :=
  decidable_of_iff (Wording opened w ∧ (Piece.words w).last = .none)
    ⟨fun h => ⟨h.1, h.2⟩, fun h => ⟨h.toWording, h.last⟩⟩

/-- **Words that may stand behind a value**: they begin at a boundary, and end
at one too. -/
structure Closer (w : String) : Prop extends Wording 0 w where
  /-- A boundary is the first character. -/
  first : ∃ c ∈ boundaries, w.toList.head? = some c
  /-- Boundaries end them. -/
  last : (Piece.words w).last.Bounded

instance (w : String) : Decidable (Closer w) :=
  decidable_of_iff (Wording 0 w ∧ (∃ c ∈ boundaries, w.toList.head? = some c) ∧
      (Piece.words w).last.Bounded)
    ⟨fun h => ⟨h.1, h.2.1, h.2.2⟩, fun h => ⟨h.toWording, h.first, h.last⟩⟩

/-- **Words that may stand between two values.** -/
structure Separator (w : String) : Prop extends Opener 0 w where
  /-- A boundary is the first character. -/
  first : ∃ c ∈ boundaries, w.toList.head? = some c

instance (w : String) : Decidable (Separator w) :=
  decidable_of_iff (Opener 0 w ∧ ∃ c ∈ boundaries, w.toList.head? = some c)
    ⟨fun h => ⟨h.1, h.2⟩, fun h => ⟨h.toOpener, h.first⟩⟩

namespace Piece

/-- A piece that is not taken over as it is, and plain if it is words. -/
def Plain : Piece → Prop
  | .words w => PlainText w.toList
  | .verbatim _ => False
  | _ => True

theorem plain_of_isValue {p : Piece} (h : p.IsValue) : p.Plain := by
  cases p <;> first | exact trivial | exact h.elim

end Piece

/-! ## Phrases -/

namespace Sql

/-- The tokens of the pieces one after the other. -/
def tokens (s : Sql) : List Token := s.flatMap Piece.tokens

/-- **A part that may come behind a value**: it is empty or begins at a
boundary. -/
def Follows : Sql → Prop
  | [] => True
  | .words w :: _ => ∃ c ∈ boundaries, w.toList.head? = some c
  | _ => False

/-- Two parts that may come behind a value may do so together. -/
theorem Follows.append {s t : Sql} (hs : s.Follows) (ht : t.Follows) : (s ++ t).Follows := by
  match s, hs with
  | [], _ => exact ht
  | .words w :: s, hw => exact hw

theorem tokens_append (s t : Sql) : tokens (s ++ t) = tokens s ++ tokens t :=
  List.flatMap_append

theorem tokens_singleton (p : Piece) : tokens [p] = p.tokens := by
  rw [tokens, List.flatMap_singleton]

theorem tokens_ne_nil {s : Sql} {p : Piece} (hp : p ∈ s) (h : p.tokens ≠ []) :
    s.tokens ≠ [] :=
  fun hs => h (List.flatMap_eq_nil_iff.mp hs p hp)

/-- The tokens behind the first part of a list. -/
def commaTail : List Sql → List Token
  | [] => []
  | s :: ss => .comma :: tokens (commaList (s :: ss))

theorem tokens_commaList_cons (s : Sql) (ss : List Sql) :
    tokens (commaList (s :: ss)) = tokens s ++ commaTail ss := by
  cases ss with
  | nil => exact (List.append_nil _).symm
  | cons u ss =>
    have hcomma : tokens (words ", ") = [.comma] := by decide
    rw [commaList, tokens_append, tokens_append, hcomma, List.append_assoc]
    rfl

theorem toList_text_append (s t : Sql) :
    (text (s ++ t)).toList = s.text.toList ++ t.text.toList := by
  simp only [text, String.toList_join, List.map_append, List.flatMap_append]

theorem toList_text_singleton (p : Piece) : (text [p]).toList = p.text.toList := by
  rw [text, String.toList_join, List.map_singleton, List.flatMap_singleton]

end Sql

/-- **A phrase**, with a boundary before every value and behind it. -/
inductive Phrase : Sql → Prop where
  /-- Nothing. -/
  | nil : Phrase []
  /-- A value. -/
  | value {p : Piece} (h : p.IsValue) : Phrase [p]
  /-- The name of a source and the name of its column. -/
  | dotted (i j : Identifier) : Phrase (Sql.name i ++ Sql.words "." ++ Sql.name j)
  /-- Words by themselves. -/
  | words {w : String} (h : Wording 0 w) (last : (Piece.words w).last.Bounded) :
    Phrase (Sql.words w)
  /-- Words in front of a phrase. -/
  | lead {w : String} {s : Sql} (h : Opener 0 w) : Phrase s → Phrase (Sql.words w ++ s)
  /-- A phrase between parentheses. -/
  | within {w : String} {s : Sql} (h : Opener 1 w) :
    Phrase s → Phrase (Sql.words w ++ s ++ Sql.words ")")
  /-- A phrase behind another one. -/
  | append {s t : Sql} : Phrase s → Phrase t → t.Follows → Phrase (s ++ t)

namespace Phrase

/-! ### Reading piece by piece -/

/-- A text that is empty or begins at a boundary. -/
def AtBoundary (cs : List Char) : Prop := ∀ c, cs.head? = some c → c ∈ boundaries

/-- What comes behind a value begins at a boundary. -/
theorem atBoundary_of_follows {t : Sql} (h : t.Follows) {rest : List Char}
    (hrest : AtBoundary rest) : AtBoundary (t.text.toList ++ rest) := by
  match t, h with
  | [], _ => exact hrest
  | .words w :: t, ⟨c, hc, hw⟩ =>
    intro d hd
    obtain ⟨cs, hcs⟩ : ∃ cs, w.toList = c :: cs := List.head?_eq_some_iff.mp hw
    rw [Sql.text, String.toList_join, List.map_cons, List.flatMap_cons, Piece.text, hcs] at hd
    exact Option.some.inj hd ▸ hc

/-- **A reading that splits** a text behind every plain piece whose last token
ends there. -/
def Splits {β : Type} (f : List Char → List β) : Prop :=
  ∀ p : Piece, p.Plain → ∀ cs : List Char,
    (∀ c, cs.head? = some c → p.last.extend? c = none) →
      f (p.text.toList ++ cs) = f p.text.toList ++ f cs

section Split

variable {β : Type} {f : List Char → List β}

/-- The reading of pieces one after the other. -/
def reading (f : List Char → List β) (s : Sql) : List β := s.flatMap fun p => f p.text.toList

theorem reading_append (s t : Sql) : reading f (s ++ t) = reading f s ++ reading f t :=
  List.flatMap_append

theorem Splits.singleton (hf : Splits f) {p : Piece} (hp : p.Plain) {cs : List Char}
    (hcs : ∀ c, cs.head? = some c → p.last.extend? c = none) :
    f ((Sql.text [p]).toList ++ cs) = reading f [p] ++ f cs := by
  rw [Sql.toList_text_singleton, hf p hp cs hcs, reading, List.flatMap_singleton]

theorem Splits.words (hf : Splits f) {w : String} (hw : PlainText w.toList)
    (last : (Piece.words w).last = .none) (cs : List Char) :
    f ((Sql.text (Sql.words w)).toList ++ cs) = reading f (Sql.words w) ++ f cs :=
  hf.singleton (p := .words w) hw fun c _ => by rw [last]; rfl

theorem Splits.value (hf : Splits f) {p : Piece} (hp : p.IsValue) {cs : List Char}
    (hcs : AtBoundary cs) : f ((Sql.text [p]).toList ++ cs) = reading f [p] ++ f cs :=
  hf.singleton (Piece.plain_of_isValue hp) fun c hc => Piece.bounded_of_isValue hp c (hcs c hc)

/-- **A phrase is read piece by piece.** -/
theorem split (hf : Splits f) {s : Sql} (h : Phrase s) {rest : List Char}
    (hrest : AtBoundary rest) : f (s.text.toList ++ rest) = reading f s ++ f rest := by
  induction h generalizing rest with
  | nil => rfl
  | value hp => exact hf.value hp hrest
  | dotted i j =>
    -- the point is no boundary, but it ends a name all the same
    have hdot : ∀ cs, f ((Sql.text (Sql.name i)).toList ++ '.' :: cs)
        = reading f (Sql.name i) ++ f ('.' :: cs) := fun cs =>
      hf.singleton (p := .name i) trivial fun c hc => by
        rw [← Option.some.inj hc, Piece.last, Piece.text, Token.scan_name]
        rfl
    rw [Sql.toList_text_append, Sql.toList_text_append, List.append_assoc, List.append_assoc,
      Sql.words, Sql.toList_text_singleton]
    refine (hdot _).trans ?_
    rw [reading_append, reading_append, List.append_assoc, List.append_assoc]
    congr 1
    refine (hf.words (w := ".") (by decide) (by decide) _).trans ?_
    congr 1
    exact hf.value (p := .name j) trivial hrest
  | words hw last => exact hf.singleton (p := .words _) hw.plain fun c hc => last c (hrest c hc)
  | lead hw _ ih =>
    rw [Sql.toList_text_append, List.append_assoc, hf.words hw.plain hw.last, ih hrest,
      reading_append, List.append_assoc]
  | within hw _ ih =>
    have hclose : AtBoundary ((Sql.text (Sql.words ")")).toList ++ rest) :=
      atBoundary_of_follows (t := Sql.words ")") ⟨')', by decide, rfl⟩ hrest
    rw [Sql.toList_text_append, Sql.toList_text_append, List.append_assoc, List.append_assoc,
      hf.words hw.plain hw.last, ih hclose, hf.words (by decide) (by decide), reading_append,
      reading_append, List.append_assoc, List.append_assoc]
  | append _ _ hfollows ihs iht =>
    rw [Sql.toList_text_append, List.append_assoc, ihs (atBoundary_of_follows hfollows hrest),
      iht hrest, reading_append, List.append_assoc]

/-- **A phrase by itself is read piece by piece.** -/
theorem split_nil (hf : Splits f) {s : Sql} (h : Phrase s) (hnil : f [] = []) :
    f s.text.toList = reading f s := by
  have hend : AtBoundary [] := nofun
  have hread := h.split hf hend
  rwa [List.append_nil, hnil, List.append_nil] at hread

end Split

/-- **The tokens of a phrase** are those of its pieces. -/
theorem lex_text {s : Sql} (h : Phrase s) : Token.lex s.text.toList = s.tokens := by
  have hsplits : Splits Token.lex := fun p _ cs hcs => Token.lex_append _ cs hcs
  exact h.split_nil hsplits rfl

/-! ### Parentheses -/

/-- **The parentheses of a phrase match.** -/
theorem nest_tokens {s : Sql} (h : Phrase s) (depth : Nat) :
    Token.nest depth s.tokens = some depth := by
  have hwords : ∀ {w : String} {opened : Nat}, Wording opened w → ∀ depth,
      Token.nest depth (Sql.tokens (Sql.words w)) = some (opened + depth) := by
    intro w opened hw depth
    have hnest := Token.nest_add hw.nest depth
    rw [Nat.zero_add] at hnest
    rwa [Sql.words, Sql.tokens_singleton]
  induction h generalizing depth with
  | nil => rfl
  | value hp =>
    rw [Sql.tokens_singleton]
    exact Token.nest_of_isFlat (Piece.isFlat_of_isValue hp) depth
  | dotted i j =>
    refine Token.nest_of_isFlat ?_ depth
    have hdot : (Piece.words ".").tokens = [.dot] := by decide
    simp [hdot, Sql.tokens, Sql.name, Sql.words, Piece.tokens_name, Token.IsFlat]
  | words hw _ => exact (hwords hw depth).trans (by rw [Nat.zero_add])
  | lead hw _ ih =>
    rw [Sql.tokens_append, Token.nest_append, hwords hw.toWording, Nat.zero_add]
    exact ih depth
  | within hw _ ih =>
    -- one parenthesis more is open inside, and the word behind closes it
    rw [Sql.tokens_append, Sql.tokens_append, Token.nest_append, Token.nest_append,
      hwords hw.toWording,
      Option.bind_some, ih, Nat.add_comm]
    rfl
  | append _ _ _ ihs iht =>
    rw [Sql.tokens_append, Token.nest_append, ihs]
    exact iht depth

end Phrase

end TypedSql

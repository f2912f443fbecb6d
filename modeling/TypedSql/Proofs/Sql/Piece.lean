import TypedSql.Proofs.Number.Written
import TypedSql.Proofs.Sql.Token

/-!
# The tokens of a piece

A piece of a statement that stands for a value – a name, a literal, a
placeholder – is read as that value whatever is in it, and it ends at the
next blank, comma or parenthesis (`Piece.bounded_of_isValue`). For a literal
this needs to know how numbers are written: they are the one value without
quotes around it, and the one that can begin with a sign.
-/

namespace TypedSql

/-! ## Boundaries

A blank, a comma and the two parentheses begin a new token wherever they stand,
unless they stand between quotes or in a comment. A value is followed by one of
them in every statement that is printed. -/

/-- The characters that end every token before them. -/
def boundaries : List Char := [' ', '(', ')', ',']

namespace Lexeme

/-- A lexeme that ends at every boundary. -/
def Bounded (l : Lexeme) : Prop := ∀ c ∈ boundaries, l.extend? c = Option.none

instance (l : Lexeme) : Decidable l.Bounded := inferInstanceAs (Decidable (∀ _ ∈ _, _))

theorem bounded_none : Lexeme.none.Bounded := by decide

/-- A quoted text goes on with a quote only. -/
theorem bounded_closed (m : Mark) (cs : List Char) : (Lexeme.closed m cs).Bounded := by
  cases m <;> simp only [Bounded, boundaries, List.forall_mem_cons] <;>
    exact ⟨rfl, rfl, rfl, rfl, nofun⟩

theorem bounded_number (cs : List Char) : (Lexeme.number cs).Bounded := by
  simp only [Bounded, boundaries, List.forall_mem_cons]
  exact ⟨rfl, rfl, rfl, rfl, nofun⟩

end Lexeme

/-! ## The tokens of values

A number is the value that has to be looked at, since it carries no mark of
where it ends. `WrittenMagnitude` names the characters it consists of, and all
of them go on with a number once it has begun; a minus in front is a token of
its own. -/

namespace Lexeme

/-- A digit begins a number. -/
theorem start_of_isDigit {d : Char} (h : d.isDigit = true) : start d = ([], .number [d]) := by
  have hrange : 48 ≤ d.toNat ∧ d.toNat ≤ 57 := by
    simpa [Char.isDigit, UInt32.le_iff_toNat_le] using h
  have hne : ∀ c : Char, c.toNat < 48 ∨ 57 < c.toNat → d ≠ c := by
    rintro c hc rfl
    omega
  have halpha : d.isAlpha = false := by
    have hupper : ¬ 'A'.val ≤ d.val := fun hle => absurd (hrange.2.trans' hle) (by decide)
    have hlower : ¬ 'a'.val ≤ d.val := fun hle => absurd (hrange.2.trans' hle) (by decide)
    show (decide ('A'.val ≤ d.val ∧ _) || decide ('a'.val ≤ d.val) && _) = false
    rw [decide_eq_false fun hletter => hupper hletter.1, decide_eq_false hlower]
    rfl
  unfold start
  rw [if_neg (by simp [hne]), if_neg (by simp [hne, halpha]), if_pos h]

/-- The characters of a number belong to it. -/
theorem scan_number (cs ds : List Char) (h : ∀ c ∈ ds, c.isDigit = true ∨ c = '.' ∨ c = 'e') :
    (Lexeme.number cs).scan ds = ([], .number (cs ++ ds)) := by
  induction ds generalizing cs with
  | nil => rw [scan_nil, List.append_nil]
  | cons c ds ih =>
    have hc : c.isAlphanum = true ∨ c = '.' := by
      rcases h c List.mem_cons_self with hc | rfl | rfl
      · exact .inl (by rw [Char.isAlphanum, hc, Bool.or_true])
      · exact .inr rfl
      · exact .inl rfl
    have hstep : (Lexeme.number cs).step c = ([], .number (cs ++ [c])) :=
      step_of_extend? (by rw [extend?, if_pos hc])
    rw [scan_cons, hstep, ih _ fun d hd => h d (List.mem_cons_of_mem c hd)]
    simp

/-- **A number without a sign is one lexeme.** -/
theorem scan_magnitude {cs : List Char} (h : WrittenMagnitude cs) :
    Lexeme.none.scan cs = ([], .number cs) := by
  obtain ⟨d, ds, rfl, hd, hds⟩ := h
  rw [scan_cons, step_none, start_of_isDigit hd]
  simp only [scan_number [d] ds hds, List.nil_append, List.singleton_append]

/-- A minus in front of a number is a token of its own. -/
theorem scan_negative {cs : List Char} (h : WrittenMagnitude cs) :
    Lexeme.none.scan ('-' :: cs) = ([.op .sub], .number cs) := by
  obtain ⟨d, ds, rfl, hd, hds⟩ := h
  have hne : d ≠ '-' := by
    rintro rfl
    cases hd
  have hsign : Lexeme.none.step '-' = ([], .sign '-') := rfl
  have hstep : (Lexeme.sign '-').step d = ([.op .sub], .number [d]) := by
    rw [step_of_extend?_eq_none (by simp [extend?, hne, Token.ofPair?]), start_of_isDigit hd]
    rfl
  rw [scan_cons, hsign, scan_cons, hstep]
  simp only [scan_number [d] ds hds, List.nil_append, List.singleton_append, List.append_nil]

end Lexeme

namespace Token

/-- The tokens of a number. -/
def ofNumber : List Char → List Token
  | '-' :: cs => [.op .sub, .number cs]
  | cs => [.number cs]

/-- The tokens of an argument that is written as a literal. -/
def ofArgument (c : StorageClass) : Argument → List Token
  | .null => [.null]
  | .text s => if c = .integer ∨ c = .real then ofNumber s.toList else [.text s.toList]
  | .blob bytes => [.blob (Text.hex bytes)]

/-- **Whether a token may belong to a value.** Parentheses, commas and words do
not. -/
def ofValue : Token → Bool
  | .op .sub | .null | .scope _ | .number _ | .name _ | .text _ | .blob _ | .slot | .dot => true
  | _ => false

theorem isFlat_of_ofValue {t : Token} (h : t.ofValue = true) : t.IsFlat := by
  constructor
  · rintro rfl
    cases h
  · rintro rfl
    cases h

/-- The tokens of an argument are tokens of values. -/
theorem ofValue_ofArgument (c : StorageClass) (a : Argument) :
    ∀ t ∈ ofArgument c a, t.ofValue = true := by
  cases a with
  | null => exact List.forall_mem_singleton.mpr rfl
  | blob bytes => exact List.forall_mem_singleton.mpr rfl
  | text s =>
    rw [ofArgument]
    split
    · unfold ofNumber
      split <;> simp [ofValue]
    · exact List.forall_mem_singleton.mpr rfl

/-- A literal has tokens. -/
theorem ofArgument_ne_nil (c : StorageClass) (a : Argument) : ofArgument c a ≠ [] := by
  cases a with
  | null => exact List.cons_ne_nil _ _
  | blob bytes => exact List.cons_ne_nil _ _
  | text s =>
    rw [ofArgument]
    split
    · unfold Token.ofNumber
      split <;> exact List.cons_ne_nil _ _
    · exact List.cons_ne_nil _ _

/-- A number without a sign has one token. -/
theorem ofNumber_magnitude {cs : List Char} (h : WrittenMagnitude cs) :
    ofNumber cs = [.number cs] := by
  obtain ⟨d, ds, rfl, hd, -⟩ := h
  have hne : d ≠ '-' := by
    rintro rfl
    cases hd
  unfold ofNumber
  split
  · next heq => exact absurd (List.cons.inj heq).1 hne
  · rfl

end Token

namespace Piece

/-- The tokens of a piece. -/
def tokens (p : Piece) : List Token := Token.lex p.text.toList

/-- The lexeme at the end of a piece. -/
def last (p : Piece) : Lexeme := (Lexeme.none.scan p.text.toList).2

/-- **A value**: a piece that is neither words nor taken over as it is. -/
def IsValue : Piece → Prop
  | .words _ | .verbatim _ => False
  | _ => True

/-- The tokens of a piece are those that end in it and that of its last
lexeme. -/
theorem tokens_eq (p : Piece) {ts : List Token} {l : Lexeme}
    (h : Lexeme.none.scan p.text.toList = (ts, l)) : p.tokens = ts ++ l.finish := by
  rw [tokens, Token.lex, h]

theorem tokens_name (i : Identifier) : (Piece.name i).tokens = [.name i] := by
  rw [tokens_eq (.name i) (Token.scan_name i), Lexeme.finish, Mark.token, String.ofList_toList]
  rfl

theorem scan_rowColumn (row : RowScope) (i : Identifier) :
    Lexeme.none.scan (Piece.rowColumn row i).text.toList
      = ([.scope row, .dot], .closed .name i.name.toList) := by
  have hscope : Lexeme.none.scan (row.sql ++ ".").toList = ([.scope row, .dot], .none) := by
    cases row <;> rfl
  rw [text, String.toList_append, Lexeme.scan_append, hscope]
  simp only [Token.scan_name, List.append_nil]

theorem tokens_rowColumn (row : RowScope) (i : Identifier) :
    (Piece.rowColumn row i).tokens = [.scope row, .dot, .name i] := by
  rw [tokens_eq _ (scan_rowColumn row i), Lexeme.finish, Mark.token, String.ofList_toList]
  rfl

theorem scan_count (n : UInt64) :
    Lexeme.none.scan (Piece.number n).text.toList
      = ([], .number (integerText n.toNat).toList) :=
  Lexeme.scan_magnitude (integerText_natCast_written n.toNat)

theorem scan_slot (c : Codec) :
    Lexeme.none.scan (Piece.slot c).text.toList = ([.slot], .none) := by
  rw [text]
  decide

theorem tokens_quotedText (s : String) : (Piece.quotedText s).tokens = [.text s.toList] :=
  tokens_eq (.quotedText s) (Token.scan_textLiteral s)

theorem tokens_number (n : UInt64) :
    (Piece.number n).tokens = [.number (integerText n.toNat).toList] :=
  tokens_eq (.number n) (scan_count n)

theorem tokens_slot (c : Codec) : (Piece.slot c).tokens = [.slot] :=
  tokens_eq (.slot c) (scan_slot c)

/-- **A literal is one value**: its tokens are those of its argument, and its
last lexeme ends at every boundary. -/
theorem scan_literal (c : Codec) (v : c.Value) :
    ∃ ts l, Lexeme.none.scan (Piece.literal c v).text.toList = (ts, l) ∧ l.Bounded ∧
      ts ++ l.finish = Token.ofArgument c.storageClass (c.encode v) := by
  rw [text, Codec.literal]
  cases hencode : c.encode v with
  | null => exact ⟨[], .word "NULL".toList, by rw [literalText]; decide, by decide,
    by rw [Token.ofArgument]; decide⟩
  | blob bytes =>
    exact ⟨[], _, Token.scan_blobLiteral bytes, Lexeme.bounded_closed _ _, rfl⟩
  | text s =>
    rw [literalText, Token.ofArgument]
    -- the class of the column decides between a number and a text in quotes
    split
    · next hclass =>
      have hwritten := Codec.encode_written hclass hencode
      generalize s.toList = cs at hwritten ⊢
      cases hwritten with
      | positive hcs =>
        rw [Token.ofNumber_magnitude hcs]
        exact ⟨[], _, Lexeme.scan_magnitude hcs, Lexeme.bounded_number _, rfl⟩
      | negative hcs =>
        exact ⟨[.op .sub], _, Lexeme.scan_negative hcs, Lexeme.bounded_number _, rfl⟩
    · exact ⟨[], _, Token.scan_textLiteral s, Lexeme.bounded_closed _ _, rfl⟩

theorem tokens_literal (c : Codec) (v : c.Value) :
    (Piece.literal c v).tokens = Token.ofArgument c.storageClass (c.encode v) := by
  obtain ⟨ts, l, hscan, -, htokens⟩ := scan_literal c v
  rw [tokens_eq _ hscan, htokens]

/-- **A value ends at every boundary.** -/
theorem bounded_of_isValue {p : Piece} (h : p.IsValue) : p.last.Bounded := by
  cases p with
  | words w => exact h.elim
  | verbatim s => exact h.elim
  | name i => rw [last, text, Token.scan_name]; exact Lexeme.bounded_closed _ _
  | rowColumn row i => rw [last, scan_rowColumn]; exact Lexeme.bounded_closed _ _
  | number n => rw [last, scan_count]; exact Lexeme.bounded_number _
  | literal c v =>
    obtain ⟨ts, l, hscan, hbounded, -⟩ := scan_literal c v
    rw [last, hscan]
    exact hbounded
  | quotedText s => rw [last, text, Token.scan_textLiteral]; exact Lexeme.bounded_closed _ _
  | slot c => rw [last, scan_slot]; exact Lexeme.bounded_none

/-- **The tokens of a value are tokens of values.** -/
theorem ofValue_of_isValue {p : Piece} (h : p.IsValue) : ∀ t ∈ p.tokens, t.ofValue = true := by
  cases p with
  | words w => exact h.elim
  | verbatim s => exact h.elim
  | name i => rw [tokens_name]; exact List.forall_mem_singleton.mpr rfl
  | rowColumn row i => rw [tokens_rowColumn]; simp [Token.ofValue]
  | number n => rw [tokens_number]; exact List.forall_mem_singleton.mpr rfl
  | literal c v => rw [tokens_literal]; exact Token.ofValue_ofArgument c.storageClass (c.encode v)
  | quotedText s => rw [tokens_quotedText]; exact List.forall_mem_singleton.mpr rfl
  | slot c => rw [tokens_slot]; exact List.forall_mem_singleton.mpr rfl

theorem isFlat_of_isValue {p : Piece} (h : p.IsValue) : ∀ t ∈ p.tokens, t.IsFlat := fun t ht =>
  Token.isFlat_of_ofValue (ofValue_of_isValue h t ht)

/-- A value has tokens. -/
theorem tokens_ne_nil_of_isValue {p : Piece} (h : p.IsValue) : p.tokens ≠ [] := by
  cases p with
  | words w => exact h.elim
  | verbatim s => exact h.elim
  | name i => rw [tokens_name]; exact List.cons_ne_nil _ _
  | rowColumn row i => rw [tokens_rowColumn]; exact List.cons_ne_nil _ _
  | number n => rw [tokens_number]; exact List.cons_ne_nil _ _
  | literal c v => rw [tokens_literal]; exact Token.ofArgument_ne_nil _ _
  | quotedText s => rw [tokens_quotedText]; exact List.cons_ne_nil _ _
  | slot c => rw [tokens_slot]; exact List.cons_ne_nil _ _

end Piece

end TypedSql

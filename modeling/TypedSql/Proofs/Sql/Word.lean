import Mathlib.Algebra.BigOperators.Group.List.Basic
import Mathlib.Algebra.GroupWithZero.Nat
import TypedSql.Proofs.Sql.Piece

/-!
# One word

When a text that is taken over as it is stands for one word, or for one name in
quotes. The tokens of a text have no more characters between them than the text
has (`Token.weights_lex_le`), and this bound decides it: a text whose first
token is the text itself, as a word, has no other token, and no text is a name
in quotes whose content is the text itself.

A text that is one word leaves nothing open, so it is read as that word in
front of everything that may follow a value (`Token.bounded_of_lex_eq_word`).
Letters and digits with a letter in front are one word (`Token.lex_eq_word`);
only the letters of ASCII count as letters.
-/

namespace TypedSql

/-! ## Lexemes that end at boundaries

The two that a word can end with. A sign needs a look at the table of signs of
two characters, none of which has a boundary in the second place. -/

namespace Lexeme

theorem bounded_word (cs : List Char) : (Lexeme.word cs).Bounded := by
  simp only [Bounded, boundaries, List.forall_mem_cons]
  exact ⟨rfl, rfl, rfl, rfl, List.forall_mem_nil _⟩

/-- No boundary is the second character of a sign. -/
theorem bounded_sign (c : Char) : (Lexeme.sign c).Bounded := by
  simp only [Bounded, boundaries, List.forall_mem_cons]
  refine ⟨?_, ?_, ?_, ?_, List.forall_mem_nil _⟩ <;> simp [extend?, Token.ofPair?]

end Lexeme

/-! ## Words

Letters and digits belong to a word that has begun, and the language has words
of its own that are not read as names. -/

/-- A character that goes on a word. -/
def IsWordCharacter (c : Char) : Prop := c.isAlphanum = true ∨ c = '_'

instance (c : Char) : Decidable (IsWordCharacter c) := inferInstanceAs (Decidable (_ ∨ _))

namespace Lexeme

/-- The characters of a word belong to it. -/
theorem scan_word (cs : List Char) {ds : List Char} (h : ∀ d ∈ ds, IsWordCharacter d) :
    (Lexeme.word cs).scan ds = ([], .word (cs ++ ds)) := by
  induction ds generalizing cs with
  | nil => rw [scan_nil, List.append_nil]
  | cons d ds ih =>
    rw [List.forall_mem_cons] at h
    have hstep : (Lexeme.word cs).step d = ([], .word (cs ++ [d])) :=
      step_of_extend? (if_pos h.1)
    rw [scan_cons, hstep, ih _ h.2, List.append_assoc]
    rfl

theorem start_of_letter {c : Char} (h : c.isAlpha = true ∨ c = '_') :
    start c = ([], .word [c]) := by
  have hblank : ¬(c = ' ' ∨ c = '\n' ∨ c = '\r' ∨ c = '\t') := by
    rintro (rfl | rfl | rfl | rfl) <;> exact absurd h (by decide)
  rw [start, if_neg hblank, if_pos h]

end Lexeme

namespace Token

/-- **Letters and digits with a letter in front** are one word, unless the
language has a token of its own for them. -/
theorem lex_eq_word {c : Char} {cs : List Char} (hc : c.isAlpha = true ∨ c = '_')
    (hcs : ∀ d ∈ cs, IsWordCharacter d)
    (hkeyword : ∀ k ∈ keywords, k.1.toList ≠ (c :: cs).map Char.toUpper) :
    lex (c :: cs) = [.word (c :: cs)] := by
  have hscan : Lexeme.none.scan (c :: cs) = ([], .word (c :: cs)) := by
    rw [Lexeme.scan_cons, Lexeme.step_none, Lexeme.start_of_letter hc]
    exact Lexeme.scan_word [c] hcs
  have hfind : (keywords.find? fun k => k.1.toList == (c :: cs).map Char.toUpper) = none :=
    List.find?_eq_none.mpr fun k hk heq => hkeyword k hk (beq_iff_eq.mp heq)
  rw [lex, hscan, Lexeme.finish, ofWord, hfind]
  rfl

end Token

/-! ## How long tokens are

A token has a weight, which is what it takes at least to write it: the length of
a word, and two quotes more for a name. Along the scan the weights of what has
been read never exceed the number of characters read, and this is all that is
needed: a text that were a name in quotes, with that very text inside, would be
longer than itself. -/

/-- How many characters a token needs at least. -/
def Token.weight : Token → Nat
  | .word cs => max 1 cs.length
  | .name i => i.name.length + 2
  | _ => 1

/-- How many characters tokens need at least. -/
def Token.weights (ts : List Token) : Nat := (ts.map Token.weight).sum

/-- How many characters have gone into a lexeme at least. -/
def Lexeme.weight : Lexeme → Nat
  | .none => 0
  | .word cs => max 1 cs.length
  | .quoted _ cs => cs.length + 1
  | .closed _ cs => cs.length + 2
  | .number _ | .sign _ | .lineComment | .blockComment _ => 1

namespace Token

theorem weights_append (ts us : List Token) : weights (ts ++ us) = weights ts + weights us := by
  rw [weights, List.map_append, List.sum_append]
  rfl

theorem weight_pos (t : Token) : 0 < t.weight := by
  cases t with
  | word cs => exact Nat.lt_of_lt_of_le Nat.one_pos (Nat.le_max_left _ _)
  | name i => exact Nat.succ_pos _
  | _ => exact Nat.one_pos

theorem weight_ofSign (c : Char) : (ofSign c).weight = 1 := by
  unfold ofSign
  split <;> rfl

theorem weight_of_ofPair? {c d : Char} {t : Token} (h : ofPair? c d = some t) : t.weight = 1 := by
  unfold ofPair? at h
  split at h <;> first | cases h; rfl | cases h

theorem weight_ofWord_le (cs : List Char) : (ofWord cs).weight ≤ max 1 cs.length := by
  unfold ofWord
  split
  · next k hk =>
    have hall : ∀ k ∈ keywords, k.2.weight = 1 := by decide
    rw [hall k (List.mem_of_find?_eq_some hk)]
    exact Nat.le_max_left _ _
  · exact Nat.le_refl _

/-- What is quoted has its quotes besides. -/
theorem weight_token_le (m : Mark) (cs : List Char) : (m.token cs).weight ≤ cs.length + 2 := by
  cases m with
  | name => rw [Mark.token, weight, String.length_ofList]
  | text | blob => exact Nat.le_add_left 1 _

end Token

namespace Lexeme

open Token

/-- A lexeme that ends gives no more than went into it. -/
theorem weights_finish_le (l : Lexeme) : weights l.finish ≤ l.weight := by
  cases l with
  | none | lineComment => exact Nat.zero_le _
  | word cs => exact weight_ofWord_le cs
  | sign c => exact (weight_ofSign c).le
  | closed m cs => exact weight_token_le m cs
  | quoted m cs => exact Nat.le_add_left 1 _
  | number | blockComment => exact Nat.le_refl 1

theorem weight_start_le (c : Char) : weights (start c).1 + (start c).2.weight ≤ 1 := by
  have hsign : weights [ofSign c] = 1 := weight_ofSign c
  unfold start
  repeat' split
  · exact Nat.zero_le 1
  all_goals first | exact Nat.le_refl 1 | exact hsign.le

/-- A character that belongs to a lexeme adds one at most. -/
theorem weight_extend?_le {l : Lexeme} {c : Char} {r : List Token × Lexeme}
    (h : l.extend? c = some r) : weights r.1 + r.2.weight ≤ l.weight + 1 := by
  have hnext : ∀ ds : List Char, (ds ++ [c]).length = ds.length + 1 := fun _ =>
    List.length_append
  cases l with
  | none => cases h
  | word cs =>
    rw [extend?] at h
    split at h
    · cases h
      show 0 + max 1 (cs ++ [c]).length ≤ max 1 cs.length + 1
      rw [hnext]
      omega
    · split at h
      · cases h
        exact Nat.succ_le_succ (Nat.zero_le _)
      · cases h
  | number cs =>
    rw [extend?] at h
    split at h
    · cases h
      exact Nat.le_succ 1
    · cases h
  | sign d =>
    rw [extend?] at h
    split at h
    · cases h
      exact Nat.le_succ 1
    · split at h
      · cases h
        exact Nat.le_succ 1
      · obtain ⟨t, ht, rfl⟩ := Option.map_eq_some_iff.mp h
        show t.weight + 0 + 0 ≤ 1 + 1
        rw [weight_of_ofPair? ht]
        exact Nat.le_succ 1
  | quoted m cs =>
    cases h
    show 0 + Lexeme.weight (if c = m.quote then .closed m cs else .quoted m (cs ++ [c]))
      ≤ cs.length + 1 + 1
    split
    · exact (Nat.zero_add _).le
    · rw [weight, hnext, Nat.zero_add]
  -- the second of two quotes, which is one character of what is quoted
  | closed m cs =>
    rw [extend?] at h
    split at h
    · cases h
      show 0 + ((cs ++ [c]).length + 1) ≤ cs.length + 2 + 1
      rw [hnext]
      omega
    · cases h
  | lineComment =>
    cases h
    show 0 + Lexeme.weight (if c = '\n' then .none else .lineComment) ≤ 1 + 1
    split <;> decide
  | blockComment star =>
    cases h
    show 0 + Lexeme.weight (if star ∧ c = '/' then .none else .blockComment (c = '*')) ≤ 1 + 1
    split
    · decide
    · exact Nat.le_succ 1

/-- **One character more** is one more in the tokens and the lexeme at most. -/
theorem weight_step_le (l : Lexeme) (c : Char) :
    weights (l.step c).1 + (l.step c).2.weight ≤ l.weight + 1 := by
  cases h : l.extend? c with
  | some r =>
    rw [step_of_extend? h]
    exact weight_extend?_le h
  | none =>
    rw [step_of_extend?_eq_none h, weights_append, Nat.add_assoc]
    exact Nat.add_le_add l.weights_finish_le (weight_start_le c)

/-- So it is for a whole text. -/
theorem weight_scan_le (l : Lexeme) (cs : List Char) :
    weights (l.scan cs).1 + (l.scan cs).2.weight ≤ l.weight + cs.length := by
  induction cs generalizing l with
  | nil => exact (Nat.zero_add _).le
  | cons c cs ih =>
    have hstep := l.weight_step_le c
    have hrest := ih (l.step c).2
    rw [scan_cons, List.length_cons]
    show weights (_ ++ _) + _ ≤ _
    rw [weights_append]
    dsimp only
    omega

end Lexeme

namespace Token

/-- **The tokens of a text** have no more characters than the text. -/
theorem weights_lex_le (cs : List Char) : weights (lex cs) ≤ cs.length := by
  have hscan : weights (Lexeme.none.scan cs).1 + (Lexeme.none.scan cs).2.weight ≤ cs.length :=
    (Lexeme.none.weight_scan_le cs).trans (Nat.zero_add _).le
  have hfinish := (Lexeme.none.scan cs).2.weights_finish_le
  rw [lex, weights_append]
  omega

theorem weight_le_of_mem_lex {cs : List Char} {t : Token} (h : t ∈ lex cs) :
    t.weight ≤ cs.length := by
  obtain ⟨before, behind, hlex⟩ := List.append_of_mem h
  have hweights := weights_lex_le cs
  rw [hlex, weights_append, weights, weights, List.map_cons, List.sum_cons] at hweights
  omega

/-- **No text is a quoted name that it is the content of.** -/
theorem name_notMem_lex (s : String) : .name ⟨s⟩ ∉ lex s.toList := by
  intro h
  have hlength := weight_le_of_mem_lex h
  rw [String.length_toList] at hlength
  have hquotes : weight (.name ⟨s⟩) = s.length + 2 := rfl
  omega

/-- **A text that begins with itself** as a word is this one word. -/
theorem lex_eq_word_of_cons {cs : List Char} {ts : List Token} (h : lex cs = .word cs :: ts) :
    ts = [] := by
  have hweights := weights_lex_le cs
  rw [h, weights, List.map_cons, List.sum_cons, weight] at hweights
  cases ts with
  | nil => rfl
  | cons t ts =>
    have ht := t.weight_pos
    rw [List.map_cons, List.sum_cons] at hweights
    have hmax := Nat.le_max_right 1 cs.length
    omega

/-- **A text that is one word** leaves nothing open. -/
theorem bounded_of_lex_eq_word {cs : List Char} (h : lex cs = [.word cs]) :
    (Lexeme.none.scan cs).2.Bounded := by
  have hscan : weights (Lexeme.none.scan cs).1 + (Lexeme.none.scan cs).2.weight ≤ cs.length :=
    (Lexeme.none.weight_scan_le cs).trans (Nat.zero_add _).le
  rw [lex] at h
  generalize (Lexeme.none.scan cs).1 = ts, (Lexeme.none.scan cs).2 = l at h hscan
  have hlast : ∀ u, ts ++ [u] = [.word cs] → u = .word cs := by
    intro u heq
    have hparts : ts ++ [u] = [] ++ [.word cs] := heq
    obtain ⟨-, hu⟩ := List.append_inj' hparts rfl
    exact (List.cons.inj hu).1
  have hweight : weights [.word cs] = max 1 cs.length := rfl
  -- how the scan ends: with the word, or with something that leaves no such token
  cases l with
  | none => exact Lexeme.bounded_none
  | word ds => exact Lexeme.bounded_word ds
  | number ds => exact Lexeme.bounded_number ds
  | sign c => exact Lexeme.bounded_sign c
  | closed m ds => exact Lexeme.bounded_closed m ds
  | quoted m ds => cases hlast _ h
  | blockComment star => cases hlast _ h
  | lineComment =>
    -- the comment would have taken characters that the word has
    have hword : ts = [.word cs] := (List.append_nil ts).symm.trans h
    rw [hword, hweight, Lexeme.weight] at hscan
    exact absurd hscan (by omega)

end Token

end TypedSql

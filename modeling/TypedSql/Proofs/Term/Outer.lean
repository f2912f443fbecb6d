import TypedSql.Proofs.Term.Phrase

/-!
# Tokens outside of parentheses

What a reader sees of a term who goes over everything between parentheses.
Commas, the words of the clauses of a query and the words of a FROM clause are
what such a reader looks for, and in the text of a term they stand in
parentheses only: outside of them there are the tokens of values and a few words
of terms (`Token.inTerm`, `Term.outer`).

The reader is a fold that carries the depth in parentheses along and stops at a
token that is not allowed outside of them. So parts can be read one after the
other, and whoever allows more reads as much (`Token.Outer.mono`).
-/

namespace TypedSql

namespace Token

/-- **The depth in parentheses behind a token**, or nothing if the token is not
allowed where it stands. -/
def outer? (allowed : Token → Bool) : Nat → Token → Option Nat
  | depth, .opening => some (depth + 1)
  | depth + 1, .closing => some depth
  | 0, .closing => none
  | depth + 1, _ => some (depth + 1)
  | 0, t => if allowed t then some 0 else none

/-- **Tokens of which all are allowed** that stand outside of parentheses, and
the parentheses match. -/
def Outer (allowed : Token → Bool) (ts : List Token) : Prop :=
  ts.foldlM (outer? allowed) 0 = some 0

instance (allowed : Token → Bool) (ts : List Token) : Decidable (Outer allowed ts) :=
  inferInstanceAs (Decidable (_ = _))

variable {allowed : Token → Bool} {ts us : List Token}

/-- Outside of parentheses a token is allowed or opens one. -/
theorem outer?_zero {t : Token} {depth : Nat} (h : outer? allowed 0 t = some depth) :
    t = .opening ∧ depth = 1 ∨ t.IsFlat ∧ allowed t = true ∧ depth = 0 := by
  rcases t.isFlat_or with hflat | rfl | rfl
  · have ht : outer? allowed 0 t = if allowed t then some 0 else none := by
      cases t <;> simp_all [outer?, IsFlat]
    rw [ht] at h
    split at h
    · next hallowed => exact .inr ⟨hflat, hallowed, (Option.some.inj h).symm⟩
    · cases h
  · exact .inl ⟨rfl, (Option.some.inj h).symm⟩
  · cases h

/-- Inside of parentheses every token is allowed. -/
theorem outer?_succ_of_isFlat {t : Token} (h : t.IsFlat) (depth : Nat) :
    outer? allowed (depth + 1) t = some (depth + 1) := by
  cases t <;> simp_all [outer?, IsFlat]

/-- A reader that goes on wherever another one does reads as much. -/
theorem foldlM_mono {f g : Nat → Token → Option Nat}
    (h : ∀ depth t depth', f depth t = some depth' → g depth t = some depth') {depth depth' : Nat}
    (hts : ts.foldlM f depth = some depth') : ts.foldlM g depth = some depth' := by
  induction ts generalizing depth with
  | nil => exact hts
  | cons t ts ih =>
    rw [List.foldlM_cons] at hts ⊢
    obtain ⟨next, hnext, hts⟩ := Option.bind_eq_some_iff.mp hts
    rw [h depth t next hnext]
    exact ih hts

/-- Inside of parentheses nothing matters but that they match. -/
theorem foldlM_outer?_of_nest {depth depth' : Nat} (h : nest depth ts = some depth') :
    ts.foldlM (outer? allowed) (depth + 1) = some (depth' + 1) := by
  induction ts generalizing depth with
  | nil =>
    rw [show depth = depth' from Option.some.inj h]
    rfl
  | cons t ts ih =>
    rw [List.foldlM_cons]
    rcases t.isFlat_or with hflat | rfl | rfl
    · rw [nest_cons_of_isFlat hflat] at h
      rw [outer?_succ_of_isFlat hflat]
      exact ih h
    · exact ih h
    · cases depth with
      | zero => cases h
      | succ depth => exact ih h

namespace Outer

theorem append (hts : Outer allowed ts) (hus : Outer allowed us) : Outer allowed (ts ++ us) := by
  rw [Outer, List.foldlM_append, show ts.foldlM (outer? allowed) 0 = some 0 from hts]
  exact hus

theorem of_flat (h : ∀ t ∈ ts, t.IsFlat ∧ allowed t = true) : Outer allowed ts := by
  induction ts with
  | nil => rfl
  | cons t ts ih =>
    obtain ⟨⟨hflat, ht⟩, hts⟩ := List.forall_mem_cons.mp h
    have hstep : outer? allowed 0 t = some 0 := by
      cases t <;> simp_all [outer?, IsFlat]
    rw [Outer, List.foldlM_cons, hstep]
    exact ih hts

theorem head {t : Token} (h : Outer allowed (t :: ts)) : t = .opening ∨ allowed t = true := by
  rw [Outer, List.foldlM_cons] at h
  obtain ⟨depth, hdepth, -⟩ := Option.bind_eq_some_iff.mp h
  exact (outer?_zero hdepth).imp And.left fun ht => ht.2.1

/-- **Whoever allows more** reads as much. -/
theorem mono {more : Token → Bool} (h : Outer allowed ts)
    (hmore : ∀ t, allowed t = true → more t = true) : Outer more ts := by
  refine foldlM_mono (fun depth t depth' ht => ?_) h
  cases depth with
  | zero =>
    obtain ⟨rfl, rfl⟩ | ⟨hflat, hallowed, rfl⟩ := outer?_zero ht
    · rfl
    · have hmem : Outer more [t] :=
        of_flat (List.forall_mem_singleton.mpr ⟨hflat, hmore t hallowed⟩)
      rw [Outer, List.foldlM_cons] at hmem
      obtain ⟨next, hnext, hnil⟩ := Option.bind_eq_some_iff.mp hmem
      obtain rfl : next = 0 := Option.some.inj hnil
      exact hnext
  | succ depth => cases t <;> exact ht

end Outer

/-- The words of functions. -/
def functionWords : List (List Char) :=
  (["LOWER", "UPPER", "LENGTH", "ABS", "COALESCE", "COUNT", "MAX", "MIN", "SUM", "AVG",
    "GROUP_CONCAT"] : List String).map String.toList

/-- **The tokens of terms** outside of parentheses. -/
def inTerm : Token → Bool
  | .op _ | .not | .is | .null | .member | .between | .exists => true
  | .scope _ | .number _ | .name _ | .text _ | .blob _ | .slot | .dot => true
  | .word cs => functionWords.contains cs
  | _ => false

theorem inTerm_of_ofValue {t : Token} (h : t.ofValue = true) : t.inTerm = true := by
  cases t <;> first | rfl | cases h

end Token

namespace Sql

/-- **A part whose tokens are those of terms** outside of parentheses. -/
def Outer (s : Sql) : Prop := Token.Outer Token.inTerm s.tokens

instance (s : Sql) : Decidable s.Outer := inferInstanceAs (Decidable (Token.Outer _ _))

namespace Outer

theorem append {s t : Sql} (hs : s.Outer) (ht : t.Outer) : (s ++ t).Outer := by
  rw [Outer, tokens_append]
  exact Token.Outer.append hs ht

theorem value {p : Piece} (h : p.IsValue) : Outer [p] := by
  rw [Outer, tokens_singleton]
  exact .of_flat fun t ht =>
    ⟨Piece.isFlat_of_isValue h t ht, Token.inTerm_of_ofValue (Piece.ofValue_of_isValue h t ht)⟩

/-- What stands between parentheses, whatever it is. -/
theorem enclosed {w : String}
    (hw : (tokens (words w)).foldlM (Token.outer? Token.inTerm) 0 = some 1) {s : Sql}
    (hs : Phrase s) : (words w ++ s ++ words ")").Outer := by
  rw [Outer, Token.Outer, tokens_append, tokens_append, List.foldlM_append,
    List.foldlM_append, hw, Option.bind_eq_bind, Option.bind_some,
    Token.foldlM_outer?_of_nest (hs.nest_tokens 0)]
  rfl

theorem parenthesized {s : Sql} (hs : Phrase s) : s.parenthesized.Outer :=
  enclosed (by decide) hs

theorem parenthesizedIf {s : Sql} (h : s.Outer) (hs : Phrase s) (condition : Bool) :
    (s.parenthesizedIf condition).Outer := by
  cases condition
  · exact h
  · exact parenthesized hs

end Outer

end Sql

/-- **Outside of parentheses there are the tokens of terms only.** Lists and
queries are always in parentheses. -/
theorem Term.outer : ∀ t : Term, t.sql.Outer
  | .literal _ _ | .slot _ | .rowColumn _ _ | .reference _ => .value trivial
  | .column source name =>
    ((Sql.Outer.value (p := .name source) trivial).append (by decide)).append
      (.value (p := .name name) trivial)
  | .not t => .append (by decide) (t.outer.parenthesizedIf t.phrase _)
  | .isNull t negated =>
    (t.outer.parenthesizedIf t.phrase _).append (by cases negated <;> decide)
  | .binary op l r =>
    ((l.outer.parenthesizedIf l.phrase _).append (by cases op <;> decide)).append
      (r.outer.parenthesizedIf r.phrase _)
  | .between t low high =>
    ((((t.outer.parenthesizedIf t.phrase _).append (by decide)).append
      (low.outer.parenthesizedIf low.phrase _)).append (by decide)).append
        (high.outer.parenthesizedIf high.phrase _)
  -- lists and queries have parentheses of their own, so nothing inside matters
  | .inList t items negated =>
    ((t.outer.parenthesizedIf t.phrase _).append (by cases negated <;> decide)).append
      (.parenthesized (.commaList (Term.phrase_list items)))
  | .inQuery t query negated =>
    ((t.outer.parenthesizedIf t.phrase _).append (by cases negated <;> decide)).append
      (.parenthesized query.phrase)
  | .exists query negated =>
    .append (by cases negated <;> decide) (.parenthesized query.phrase)
  | .call f arguments =>
    .append (by cases f <;> decide) (.parenthesized (.commaList (Term.phrase_list arguments)))
  | .aggregate f t => .append (by cases f <;> decide) (.parenthesized t.phrase)
  | .countStar => by decide
  | .countDistinct t => .enclosed (by decide) t.phrase
  | .groupConcat t none => by
    rw [Term.sql, List.append_nil]
    exact .enclosed (by decide) t.phrase
  | .groupConcat t (some s) => by
    rw [Term.sql, List.append_assoc (Sql.words "GROUP_CONCAT("), ← List.append_assoc t.sql]
    exact .enclosed (by decide) (t.phrase.between separator_comma (.value trivial))
  | .scalar query => .parenthesized query.phrase

/-- **The text of a term has tokens**: those of a value, of a parenthesis, or of
the words between its operands. -/
theorem Term.tokens_ne_nil (t : Term) : t.sql.tokens ≠ [] := by
  have hvalue : ∀ {p : Piece}, p.IsValue → Sql.tokens [p] ≠ [] := fun h =>
    Sql.tokens_ne_nil List.mem_cons_self (Piece.tokens_ne_nil_of_isValue h)
  have hgroup : ∀ s t : Sql, Sql.tokens (s ++ t.parenthesized) ≠ [] := fun s t =>
    Sql.tokens_ne_nil (p := .words "(") (by simp [Sql.parenthesized, Sql.words]) (by decide)
  have hend : ∀ {s : Sql} {w : String}, (Piece.words w).tokens ≠ [] →
      Sql.tokens (s ++ Sql.words w) ≠ [] := fun h =>
    Sql.tokens_ne_nil (List.mem_append_right _ List.mem_cons_self) h
  -- each kind of term has one piece that is never empty
  cases t with
  | literal | slot | rowColumn | reference => exact hvalue trivial
  | column => exact Sql.tokens_ne_nil (p := .words ".") (by simp [Term.sql, Sql.words]) (by decide)
  | not => exact Sql.tokens_ne_nil (p := .words "NOT ") (by simp [Term.sql, Sql.words]) (by decide)
  | isNull _ negated => exact hend (by cases negated <;> decide)
  | binary op =>
    exact Sql.tokens_ne_nil (p := .words (" " ++ op.sql ++ " ")) (by simp [Term.sql, Sql.words])
      (by cases op <;> decide)
  | between =>
    exact Sql.tokens_ne_nil (p := .words " AND ") (by simp [Term.sql, Sql.words]) (by decide)
  | inList | inQuery | «exists» | call | aggregate => exact hgroup _ _
  | scalar => exact hgroup [] _
  | countStar => decide
  | countDistinct | groupConcat => exact hend (by decide)

end TypedSql

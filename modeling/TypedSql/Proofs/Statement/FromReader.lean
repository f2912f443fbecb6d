import TypedSql.Proofs.Statement.FromGrammar
import TypedSql.Proofs.Term.Outer
import TypedSql.Proofs.Term.Reading

/-!
# The steps of the reader of clauses

What the reader does with the parts of a clause. A query is read up to its
parenthesis, whatever is in it (`FromReader.run_query`). A condition is read
up to where it ends, and this is where the words of the clause matter: in the
text of a term they stand inside of parentheses only (`Term.within`). Behind a
source it does not matter how the source was read (`FromReader.run_ended`).
-/

namespace TypedSql

/-! ## Conditions

The reader finds the end of a condition without reading it as a term: it counts
parentheses and looks for words. That the text of a term has no such word
outside of its parentheses is a fact about the printer of terms. -/

namespace Token

/-- **Tokens that stay inside a condition**: no word of a clause is among them
outside of parentheses, and their parentheses match. -/
def Within (ts : List Token) : Prop := ts.foldlM within? 0 = some 0

/-- A word of a clause ends a condition. -/
theorem within?_of_fromWord? {t : Token} {w : FromWord} (h : t.fromWord? = some w) :
    t.within? 0 = none := by
  cases t
  case word cs => exact if_pos (by rw [h]; rfl)
  all_goals cases h

theorem fromWord?_of_inTerm {t : Token} (h : t.inTerm = true) : t.fromWord? = none := by
  have hwords : ∀ cs ∈ functionWords, (Token.word cs).fromWord? = none := by decide
  cases t with
  | word cs => exact hwords cs (List.contains_iff_mem.mp h)
  | _ => rfl

end Token

/-- **A part of a condition.** -/
def Sql.Within (s : Sql) : Prop := Token.Within s.tokens

/-- **The text of a term is within a condition**, since no word of a clause
stands outside of its parentheses. -/
theorem Term.within (t : Term) : t.sql.Within := by
  refine Token.foldlM_mono (fun depth u depth' hu => ?_) t.outer
  cases depth with
  | zero =>
    obtain ⟨rfl, rfl⟩ | ⟨⟨hopening, hclosing⟩, hterm, rfl⟩ := Token.outer?_zero hu
    · rfl
    · have hword := Token.fromWord?_of_inTerm hterm
      cases u <;> simp_all [Token.within?]
  | succ depth => cases u <;> exact hu

/-! ## Steps

One lemma for each part of a clause, each with any tokens behind the part. The
proofs about whole clauses use these and do not look at the state of the reader
again. -/

theorem Sql.tokens_alias (s : Sql) (name : Identifier) :
    tokens (s ++ words " AS " ++ Sql.name name)
      = s.tokens ++ [.word ['A', 'S'], .name name] := by
  have has : tokens (words " AS ") = [.word ['A', 'S']] := by decide
  rw [tokens_append, tokens_append, has, Sql.name, tokens_singleton, Piece.tokens_name,
    List.append_assoc]
  rfl

namespace FromReader

theorem run_cons {s s' : State} {t : Token} (h : s.extend? t = some s') (ts : List Token) :
    run s (t :: ts) = run s' ts := by
  rw [run, List.foldlM_cons, step, h]
  rfl

theorem run_behind_cons {outer : List Gap} {c : FromClause} {t : Token} {s : State}
    (h : follow outer c t = some s) (ts : List Token) :
    run (.behind outer c) (t :: ts) = run s ts := by
  have hstep : step (.behind outer c) t = some s := h
  rw [run, List.foldlM_cons, hstep]
  rfl

/-- **Where what has been begun ends**, the clause goes on as it does behind
any source. -/
theorem run_ended {s : State} {rest : List Token}
    (h : ∀ t, rest.head? = some t → s.extend? t = none) :
    run s rest = s.ended?.bind fun p => run (.behind p.1 p.2) rest := by
  cases rest with
  | nil =>
    show finish? s = s.ended?.bind fun p => finish? (.behind p.1 p.2)
    rw [finish?]
    rcases s.ended? with _ | ⟨_ | _, _⟩ <;> rfl
  | cons t ts =>
    have hstep : step s t = s.ended?.bind fun p => step (.behind p.1 p.2) t := by
      rw [step, h t rfl]
      rfl
    rw [run, List.foldlM_cons, hstep]
    cases s.ended? <;> rfl

/-- **Tokens that end a source**: there are none, or a parenthesis closes, or a
word comes that is not for an alias. -/
def Ends (rest : List Token) : Prop :=
  ∀ t, rest.head? = some t → t = .closing ∨ ∃ w, t.fromWord? = some w ∧ w ≠ .as

theorem ends_nil : Ends [] := nofun

theorem ends_cons {t : Token} {w : FromWord} (h : t.fromWord? = some w) (hw : w ≠ .as)
    (ts : List Token) : Ends (t :: ts) := by
  intro u hu
  rw [← Option.some.inj hu]
  exact .inr ⟨w, h, hw⟩

theorem run_named {rest : List Token} (h : Ends rest) (outer : List Gap) (gap : Gap)
    (i : Identifier) :
    run (.named outer gap i) rest = run (.behind outer (gap.fill (.named i))) rest := by
  refine run_ended fun t ht => if_neg ?_
  obtain rfl | ⟨w, hw, has⟩ := h t ht
  · exact nofun
  · rw [hw]
    exact fun heq => has (Option.some.inj heq)

/-- **A query is read up to the parenthesis that closes it.** -/
theorem run_query {depth depth' : Nat} {ts : List Token} (h : Token.nest depth ts = some depth')
    (outer : List Gap) (gap : Gap) (done rest : List Token) :
    run (.query outer gap done depth) (ts ++ rest)
      = run (.query outer gap (done ++ ts) depth') rest := by
  induction ts generalizing depth done with
  | nil => rw [show depth = depth' from Option.some.inj h, List.nil_append, List.append_nil]
  | cons t ts ih =>
    rw [List.cons_append, List.append_cons]
    rcases t.isFlat_or with hflat | rfl | rfl
    · rw [Token.nest_cons_of_isFlat hflat] at h
      have ht : (State.query outer gap done depth).extend? t
          = some (.query outer gap (done ++ [t]) depth) := by
        cases t <;> cases depth <;> simp_all [State.extend?, Token.IsFlat]
      rw [run_cons ht, ih h]
    · exact (run_cons rfl _).trans (ih h _)
    · cases depth with
      | zero => cases h
      | succ depth => exact (run_cons rfl _).trans (ih h _)

/-- A query in parentheses with its name. -/
theorem run_select (q : SelectTerm) (name : Identifier) (outer : List Gap) (gap : Gap)
    (rest : List Token) :
    run (.due outer gap) ((FromTerm.query q name).sql.tokens ++ rest)
      = run (.behind outer (gap.fill (.query q.sql.tokens name))) rest := by
  obtain ⟨body, -, hbody, hnest⟩ := q.exists_tokens_eq
  have htokens : (FromTerm.query q name).sql.tokens ++ rest
      = .opening :: .select :: (body ++ .closing :: .word ['A', 'S'] :: .name name :: rest) := by
    rw [FromTerm.sql, Sql.tokens_alias, Sql.tokens_parenthesized, hbody]
    simp only [List.cons_append, List.append_assoc, List.nil_append]
  rw [htokens, run_cons rfl, run_cons rfl, run_query hnest, run_cons rfl, run_cons rfl,
    run_cons rfl, hbody]
  rfl

/-- A condition is read up to where it ends. -/
theorem run_condition {depth depth' : Nat} {ts : List Token}
    (h : ts.foldlM Token.within? depth = some depth') (outer : List Gap) (c : FromClause)
    (done rest : List Token) :
    run (.condition outer c done depth) (ts ++ rest)
      = run (.condition outer c (done ++ ts) depth') rest := by
  induction ts generalizing depth done with
  | nil => rw [show depth = depth' from Option.some.inj h, List.nil_append, List.append_nil]
  | cons t ts ih =>
    rw [List.foldlM_cons] at h
    obtain ⟨d, hd, hrest⟩ := Option.bind_eq_some_iff.mp h
    have ht : (State.condition outer c done depth).extend? t
        = some (.condition outer c (done ++ [t]) d) := by
      rw [State.extend?, hd]
      rfl
    rw [List.cons_append, List.append_cons, run_cons ht, ih hrest]

/-- **The condition of a link** goes to the last source that was read. -/
theorem run_on (t : Term) {rest : List Token} (h : Ends rest) (outer : List Gap)
    (c : FromClause) :
    run (.behind outer c) (.word ['O', 'N'] :: (t.sql.tokens ++ rest))
      = (c.on? t.sql.tokens).bind fun d => run (.behind outer d) rest := by
  rw [run_behind_cons (s := .condition outer c [] 0) rfl, run_condition t.within,
    List.nil_append, run_ended]
  · rw [State.ended?]
    cases c.on? t.sql.tokens <;> rfl
  · intro u hu
    obtain rfl | ⟨w, hw, -⟩ := h u hu
    · rfl
    · exact congrArg (Option.map _) (Token.within?_of_fromWord? hw)

end FromReader

end TypedSql

import TypedSql.Proofs.Term.Reading

/-!
# Negated questions for rows, read back

The printer gives a negated `EXISTS` the precedence of an operand that needs no
parentheses, while its text begins with the loose `NOT`. To a reader the
negation goes on as long as tighter operators follow, so the text means what the
term means exactly if none does: `Term.read?_keepsNegations`. On the right of a
comparison, as the bound of a range or as an item of a list a negated question
is safe; on the left of one it is lost, and so is one at the right end of what
stands there.
-/

namespace TypedSql

/-- **Where the negations are kept** the text of a term is read as its tree, with
chains grouped to the left; where one takes in more than its question, the tree
that is read has fewer negated questions, and is not the same expression however
it is grouped. -/
theorem Term.read?_keepsNegations (t : Term) :
    ∃ tree, Tree.read? t.sql.text.toList = some tree ∧
      (tree = t.tree.grouped ↔ t.KeepsNegations) ∧
      (tree.negations < t.tree.negations ↔ ¬t.KeepsNegations) ∧
      ((∀ u ∈ t.subterms, u.Unmixed) → (tree.Regroups t.tree ↔ t.KeepsNegations)) := by
  obtain ⟨tree, hread, htells⟩ := t.tells_read?
  have hcount := t.tree.negations_grouped
  have hlost : ¬t.KeepsNegations → tree.negations < t.tree.negations := fun hbad =>
    hcount ▸ (htells.lost hbad).1
  have hkeeps : tree.negations = t.tree.negations → t.KeepsNegations := fun heq =>
    Classical.byContradiction fun hbad => Nat.ne_of_lt (hlost hbad) heq
  refine ⟨tree, hread, ⟨fun heq => hkeeps (heq ▸ hcount), htells.kept⟩,
    ⟨fun hlt hgood => ?_, hlost⟩, fun hunmixed => ⟨fun h => hkeeps h.negations_eq, fun hgood => ?_⟩⟩
  · rw [htells.kept hgood, hcount] at hlt
    exact Nat.lt_irrefl _ hlt
  · rw [htells.kept hgood]
    exact t.regroups_tree hunmixed

/-- On the right of a comparison a negated question for rows is kept. -/
theorem Term.read?_keepsNegations_eq_not_exists :
    let q : SelectTerm := .mk false [(.column ⟨"t"⟩ ⟨"a"⟩, none)] (.named ⟨"t"⟩) none [] none []
      none none
    let t : Term := .binary .eq (.slot .bool) (.exists q true)
    t.KeepsNegations ∧ (∀ u ∈ t.subterms, u.Unmixed) ∧
      ∃ tree, Tree.read? t.sql.text.toList = some tree ∧ tree.Regroups t.tree := by
  intro q t
  have hkeeps : t.KeepsNegations := by
    simp [t, KeepsNegations, subterms, KeepsNegation, EndsOpen]
  have hunmixed : ∀ u ∈ t.subterms, u.Unmixed := by
    simp [t, subterms, Unmixed]
  obtain ⟨tree, hread, -, -, hregroups⟩ := Term.read?_keepsNegations t
  exact ⟨hkeeps, hunmixed, tree, hread, (hregroups hunmixed).mpr hkeeps⟩

/-- **On the left of a comparison** a negated question for rows takes the
comparison in. -/
theorem Term.read?_not_exists_eq :
    let q : SelectTerm := .mk false [(.column ⟨"t"⟩ ⟨"a"⟩, none)] (.named ⟨"t"⟩) none [] none []
      none none
    let t : Term := .binary .eq (.exists q true) (.slot .bool)
    t.sql.text = "NOT EXISTS (SELECT \"t\".\"a\" FROM \"t\") = ?" ∧
      t.tree = .binary .eq (.not (.exists q.tokens)) .slot ∧
      Tree.read? t.sql.text.toList = some (.not (.binary .eq (.exists q.tokens) .slot)) ∧
      ¬Tree.Regroups (.not (.binary .eq (.exists q.tokens) .slot)) t.tree := by
  intro q t
  refine ⟨by decide +kernel, rfl, ?_, fun h => absurd h.negations_eq (by decide)⟩
  rw [Tree.read?, t.phrase.lex_text, SelectTerm.tokens, q.phrase.lex_text]
  rfl

end TypedSql

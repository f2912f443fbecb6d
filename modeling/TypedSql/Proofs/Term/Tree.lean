import TypedSql.Proofs.Term.Regrouping
import TypedSql.Term.Printer

/-!
# The tree of a term

What the text of a term should say (`Term.tree`). Types are left out, for no
text shows them, and a query in a term is kept as the tokens of its text.

Reading the text back gives this tree with the chains in it grouped to the
left. `Term.regroups_tree` says when that is the same expression: no `+` and
no `*` may have on its right the same operator again with another one of the
level on its left edge. For the other operators nothing is asked – each of
them is alone on its level.
-/

namespace TypedSql

/-! ## Trees of terms

The condition on a term is about its right operands, and it is asked of every
term inside it. A query in a term is not looked into, for it is read as its
tokens. -/

/-- An argument, as a literal says it. -/
def Tree.ofArgument (c : StorageClass) : Argument → Tree
  | .null => .null
  | .text s => if c = .integer ∨ c = .real then .number s.toList else .text s.toList
  | .blob bytes => .blob (Text.hex bytes)

/-- The text of a query, as a reader takes it. -/
def SelectTerm.tokens (q : SelectTerm) : List Token := Token.lex q.sql.text.toList

mutual

/-- **The tree of a term.** -/
def Term.tree : Term → Tree
  | .literal c v => Tree.ofArgument c.storageClass (c.encode v)
  | .slot _ => .slot
  | .column source name => .column source name
  | .rowColumn row name => .rowColumn row name
  | .reference name => .name name
  | .not t => .not t.tree
  | .isNull t negated => .isNull t.tree negated
  | .binary op l r => .binary op l.tree r.tree
  | .between t low high => .between t.tree low.tree high.tree
  | .inList t items negated => .inList t.tree (Term.trees items) negated
  | .inQuery t query negated => .inQuery t.tree query.tokens negated
  | .exists query negated =>
    if negated then .not (.exists query.tokens) else .exists query.tokens
  | .call f arguments => .call f.sql.toList false (Term.trees arguments)
  | .aggregate f t => .call f.sql.toList false [t.tree]
  | .countStar => .star "COUNT".toList
  | .countDistinct t => .call "COUNT".toList true [t.tree]
  | .groupConcat t none => .call "GROUP_CONCAT".toList false [t.tree]
  | .groupConcat t (some s) => .call "GROUP_CONCAT".toList false [t.tree, .text s.toList]
  | .scalar query => .scalar query.tokens

/-- The trees of several terms. -/
def Term.trees : List Term → List Tree
  | [] => []
  | t :: ts => t.tree :: Term.trees ts

end

mutual

/-- **All terms inside a term**, itself among them, without those of the
queries in it. -/
def Term.subterms : Term → List Term
  | .literal c v => [.literal c v]
  | .slot c => [.slot c]
  | .column source name => [.column source name]
  | .rowColumn row name => [.rowColumn row name]
  | .reference name => [.reference name]
  | .not t => .not t :: t.subterms
  | .isNull t negated => .isNull t negated :: t.subterms
  | .binary op l r => .binary op l r :: (l.subterms ++ r.subterms)
  | .between t low high =>
    .between t low high :: (t.subterms ++ low.subterms ++ high.subterms)
  | .inList t items negated => .inList t items negated :: (t.subterms ++ Term.subtermsAll items)
  | .inQuery t query negated => .inQuery t query negated :: t.subterms
  | .exists query negated => [.exists query negated]
  | .call f arguments => .call f arguments :: Term.subtermsAll arguments
  | .aggregate f t => .aggregate f t :: t.subterms
  | .countStar => [.countStar]
  | .countDistinct t => .countDistinct t :: t.subterms
  | .groupConcat t separator => .groupConcat t separator :: t.subterms
  | .scalar query => [.scalar query]

/-- The terms inside several. -/
def Term.subtermsAll : List Term → List Term
  | [] => []
  | t :: ts => t.subterms ++ Term.subtermsAll ts

end

/-- **The operators of a level on the left edge**, from the root down. -/
def Term.leftSpine (level : Nat) : Term → List BinaryOp
  | .binary op l _ => if op.level = level then op :: l.leftSpine level else []
  | _ => []

/-- **A term whose right operand may be read without its parentheses**: a sum
or product on the right of its own operator has no other operator of the
level on its left edge. -/
def Term.Unmixed : Term → Prop
  | .binary op _ r =>
    op = .add ∨ op = .mul → r.op? = some op → ∀ p ∈ r.leftSpine op.level, p = op
  | _ => True

theorem Term.op?_tree (t : Term) : t.tree.op? = t.op? := by
  cases t
  case literal c v =>
    rw [Term.tree, Tree.ofArgument.eq_def]
    split
    · rfl
    · split <;> rfl
    · rfl
  case «exists» q negated => cases negated <;> rfl
  case groupConcat t separator => cases separator <;> rfl
  all_goals rfl

/-! ## Left edges

The left edge of a term is where its text may be read another way. What matters
of it are the operators of one level that stand there, and of those there can
be several only among sums and among products. -/

theorem Term.leftSpine_binary {op : BinaryOp} {level : Nat} (h : op.level = level) (l r : Term) :
    (Term.binary op l r).leftSpine level = op :: l.leftSpine level :=
  if_pos h

theorem Term.leftSpine_of_op?_eq_none {t : Term} (h : t.op? = none) (level : Nat) :
    t.leftSpine level = [] := by
  cases t
  case binary op l r => cases h
  all_goals rfl

/-- The left edge of a level has operators of that level. -/
theorem Term.level_of_mem_leftSpine {t : Term} {level : Nat} {p : BinaryOp}
    (h : p ∈ t.leftSpine level) : p.level = level := by
  cases hop : t.op? with
  | none =>
    rw [Term.leftSpine_of_op?_eq_none hop] at h
    exact absurd h List.not_mem_nil
  | some op =>
    cases t
    case binary op' l r =>
      rw [Term.leftSpine] at h
      split at h
      · rcases List.mem_cons.mp h with rfl | h
        · assumption
        · exact Term.level_of_mem_leftSpine h
      · exact absurd h List.not_mem_nil
    all_goals cases hop

/-- An operator alone on its level is the only one on a left edge. -/
theorem BinaryOp.eq_of_level_eq {op p : BinaryOp} (hop : op ∈ BinaryOp.chained)
    (hadd : op ≠ .add) (hmul : op ≠ .mul) (h : p.level = op.level) : p = op := by
  revert hop hadd hmul h
  cases op <;> cases p <;> decide

/-- **On the right of a chained operator** an unmixed term has only that
operator along the left edge, if it has it at its root. -/
theorem Term.Unmixed.eq_of_mem {op : BinaryOp} {l r : Term} (h : (Term.binary op l r).Unmixed)
    (hop : op ∈ BinaryOp.chained) (hr : r.op? = some op) : ∀ p ∈ r.leftSpine op.level, p = op := by
  by_cases hmixed : op = .add ∨ op = .mul
  · exact h hmixed hr
  · rw [not_or] at hmixed
    exact fun p hp =>
      BinaryOp.eq_of_level_eq hop hmixed.1 hmixed.2 (Term.level_of_mem_leftSpine hp)

/-! ## Regrouping

The only case with an argument is the binary one. The left edge of what was
read is compared to that of the term, and there the condition says that it has
one operator. -/

/-- Reading adds nothing to a left edge. -/
theorem Term.mem_leftSpine_grouped {t : Term} (h : ∀ u ∈ t.subterms, u.Unmixed) {level : Nat}
    {p : BinaryOp} (hp : p ∈ t.tree.grouped.leftSpine level) : p ∈ t.leftSpine level := by
  have hroot := t.tree.op?_grouped.trans t.op?_tree
  cases t
  case binary op l r =>
    by_cases hlevel : op.level = level
    · subst hlevel
      rw [Term.subterms, List.forall_mem_cons, List.forall_mem_append] at h
      obtain ⟨hunmixed, hl, hr⟩ := h
      rw [Term.leftSpine_binary rfl, List.mem_cons]
      rw [Term.tree, Tree.grouped, Tree.extend] at hp
      split at hp
      · next hchain =>
        rw [Tree.op?_grouped, Term.op?_tree] at hchain
        -- it stood on the right, it is the operator itself, or it stood on the left
        rcases Tree.mem_leftSpine_graft hp with hp | hp | hp
        · exact .inl (hunmixed.eq_of_mem hchain.1 hchain.2 p (Term.mem_leftSpine_grouped hr hp))
        · exact .inl hp
        · exact .inr (Term.mem_leftSpine_grouped hl hp)
      · rw [Tree.leftSpine_binary rfl, List.mem_cons] at hp
        exact hp.imp_right (Term.mem_leftSpine_grouped hl)
    · have hnil := Tree.leftSpine_eq_nil fun q hq =>
        Option.some.inj (hroot.symm.trans hq) ▸ hlevel
      rw [hnil] at hp
      exact absurd hp List.not_mem_nil
  all_goals
    rw [Tree.leftSpine_of_op?_eq_none hroot] at hp
    exact absurd hp List.not_mem_nil

mutual

/-- **Reading an unmixed term regroups it.** -/
theorem Term.regroups_tree : ∀ t : Term, (∀ u ∈ t.subterms, u.Unmixed) →
    Tree.Regroups t.tree.grouped t.tree
  | .literal c v, _ => by
    rw [Term.tree, Tree.ofArgument.eq_def]
    split
    · exact .refl _
    · split <;> exact .refl _
    · exact .refl _
  | .slot _, _ => .refl _
  | .column _ _, _ => .refl _
  | .rowColumn _ _, _ => .refl _
  | .reference _, _ => .refl _
  | .not t, h => .not (t.regroups_tree (List.forall_mem_cons.mp h).2)
  | .isNull t negated, h => .isNull negated (t.regroups_tree (List.forall_mem_cons.mp h).2)
  | .binary op l r, h => by
    rw [Term.subterms, List.forall_mem_cons, List.forall_mem_append] at h
    obtain ⟨hunmixed, hl, hr⟩ := h
    have hparts := Tree.Regroups.binary op (l.regroups_tree hl) (r.regroups_tree hr)
    rw [Term.tree, Tree.grouped, Tree.extend]
    split
    · -- a right operand that was taken apart along its edge has one operator there
      next hchain =>
      rw [Tree.op?_grouped, Term.op?_tree] at hchain
      refine (Tree.regroups_graft hchain.1 l.tree.grouped fun p hp => ?_).trans hparts
      exact hunmixed.eq_of_mem hchain.1 hchain.2 p (Term.mem_leftSpine_grouped hr hp)
    · exact hparts
  | .between t low high, h => by
    rw [Term.subterms, List.forall_mem_cons, List.forall_mem_append, List.forall_mem_append] at h
    exact .between (t.regroups_tree h.2.1.1) (low.regroups_tree h.2.1.2)
      (high.regroups_tree h.2.2)
  | .inList t items negated, h => by
    rw [Term.subterms, List.forall_mem_cons, List.forall_mem_append] at h
    exact .inList negated (t.regroups_tree h.2.1) (Term.regroupsAll_trees items h.2.2)
  | .inQuery t query negated, h =>
    .inQuery _ negated (t.regroups_tree (List.forall_mem_cons.mp h).2)
  | .exists query negated, _ => by
    cases negated
    · exact .refl _
    · exact .refl _
  | .call f arguments, h =>
    .call _ false (Term.regroupsAll_trees arguments (List.forall_mem_cons.mp h).2)
  | .aggregate f t, h =>
    .call _ false (.cons (t.regroups_tree (List.forall_mem_cons.mp h).2) .nil)
  | .countStar, _ => .refl _
  | .countDistinct t, h => .call _ true (.cons (t.regroups_tree (List.forall_mem_cons.mp h).2) .nil)
  | .groupConcat t none, h =>
    .call _ false (.cons (t.regroups_tree (List.forall_mem_cons.mp h).2) .nil)
  | .groupConcat t (some _), h =>
    .call _ false (.cons (t.regroups_tree (List.forall_mem_cons.mp h).2) (.cons (.refl _) .nil))
  | .scalar _, _ => .refl _

theorem Term.regroupsAll_trees : ∀ ts : List Term, (∀ u ∈ Term.subtermsAll ts, u.Unmixed) →
    Tree.RegroupsAll (Tree.groupedAll (Term.trees ts)) (Term.trees ts)
  | [], _ => .nil
  | t :: ts, h => by
    rw [Term.subtermsAll, List.forall_mem_append] at h
    exact .cons (t.regroups_tree h.1) (Term.regroupsAll_trees ts h.2)

end

end TypedSql

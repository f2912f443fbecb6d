import TypedSql.Proofs.Term.Grammar

/-!
# Regrouping

A chain of one operator may be printed without the parentheses that say how
it was grouped, and is then read as grouped to the left. `Tree.grouped` is
the tree that is read: the operand on the right of such an operator is taken
apart along its left edge, and what stood on the left goes in front
(`Tree.graft`).

For a chain of one operator that is the same expression, grouped another way
(`Tree.Regroups`). The left edge goes on through every operator of the same
level, though, and where it meets another one – a minus behind a plus, a
division behind a product – the two trees are different expressions.
-/

namespace TypedSql

namespace BinaryOp

/-- **The operators whose chains may be grouped either way.** -/
def chained : List BinaryOp := [.and, .or, .add, .mul, .concat]

end BinaryOp

namespace Tree

/-! ## Trees that differ in grouping

The relation is an equivalence that goes on into the parts of every tree, so
that chains may be regrouped anywhere. It has one rule of its own, in which a
chain of three operands is grouped the other way. -/

mutual

/-- **The same expression, grouped another way**, where chains of one operator
are concerned. -/
inductive Regroups : Tree → Tree → Prop where
  /-- Nothing is changed. -/
  | refl (t : Tree) : Regroups t t
  /-- It goes both ways. -/
  | symm {t u : Tree} : Regroups t u → Regroups u t
  /-- One change after the other. -/
  | trans {t u v : Tree} : Regroups t u → Regroups u v → Regroups t v
  /-- A chain of one operator. -/
  | chain {op : BinaryOp} (h : op ∈ BinaryOp.chained) (a b c : Tree) :
    Regroups (.binary op (.binary op a b) c) (.binary op a (.binary op b c))
  /-- Inside a negation. -/
  | not {t u : Tree} : Regroups t u → Regroups (.not t) (.not u)
  /-- Inside a test for the missing value. -/
  | isNull {t u : Tree} (negated : Bool) :
    Regroups t u → Regroups (.isNull t negated) (.isNull u negated)
  /-- Inside the operands of an operator. -/
  | binary {l l' r r' : Tree} (op : BinaryOp) :
    Regroups l l' → Regroups r r' → Regroups (.binary op l r) (.binary op l' r')
  /-- Inside a value and its bounds. -/
  | between {t t' l l' h h' : Tree} :
    Regroups t t' → Regroups l l' → Regroups h h' → Regroups (.between t l h) (.between t' l' h')
  /-- Inside a value and the list it may be in. -/
  | inList {t u : Tree} {ts us : List Tree} (negated : Bool) :
    Regroups t u → RegroupsAll ts us → Regroups (.inList t ts negated) (.inList u us negated)
  /-- Inside a value that may be a row of a query. -/
  | inQuery {t u : Tree} (query : List Token) (negated : Bool) :
    Regroups t u → Regroups (.inQuery t query negated) (.inQuery u query negated)
  /-- Inside the arguments of a function. -/
  | call {ts us : List Tree} (f : List Char) (distinct : Bool) :
    RegroupsAll ts us → Regroups (.call f distinct ts) (.call f distinct us)

/-- Several expressions, each grouped another way. -/
inductive RegroupsAll : List Tree → List Tree → Prop where
  /-- None. -/
  | nil : RegroupsAll [] []
  /-- One and others. -/
  | cons {t u : Tree} {ts us : List Tree} :
    Regroups t u → RegroupsAll ts us → RegroupsAll (t :: ts) (u :: us)

end

/-! ## What is read

The reader is described as a function on trees, in the order in which it goes:
the operands first, then the operator between them. An operator of the same
level stands on its right without parentheses only where it is the same
operator and its chains may be grouped either way, so only there is the right
operand taken apart. -/

/-- The operator at the root of a tree, if it is a binary one. -/
def op? : Tree → Option BinaryOp
  | .binary op _ _ => some op
  | _ => none

/-- **The operators of a level on the left edge**, from the root down. -/
def leftSpine (level : Nat) : Tree → List BinaryOp
  | .binary op l _ => if op.level = level then op :: l.leftSpine level else []
  | _ => []

/-- **Puts an operator and what is on its left in front of a tree**: at the
end of the left edge, as far as that goes through operators of the same
level. -/
def graft (op : BinaryOp) (left : Tree) : Tree → Tree
  | .binary p l r =>
    if p.level = op.level then .binary p (graft op left l) r else .binary op left (.binary p l r)
  | x => .binary op left x

/-- **Two operands without parentheses** around the second, if the operator
may be grouped either way. -/
def extend (op : BinaryOp) (left right : Tree) : Tree :=
  if op ∈ BinaryOp.chained ∧ right.op? = some op then graft op left right
  else .binary op left right

mutual

/-- **The tree that is read**, with chains grouped to the left. -/
def grouped : Tree → Tree
  | .null => .null
  | .number cs => .number cs
  | .text cs => .text cs
  | .blob digits => .blob digits
  | .slot => .slot
  | .name i => .name i
  | .column i j => .column i j
  | .rowColumn row i => .rowColumn row i
  | .not t => .not t.grouped
  | .isNull t negated => .isNull t.grouped negated
  | .binary op l r => extend op l.grouped r.grouped
  | .between t l h => .between t.grouped l.grouped h.grouped
  | .inList t items negated => .inList t.grouped (groupedAll items) negated
  | .inQuery t query negated => .inQuery t.grouped query negated
  | .exists query => .exists query
  | .call f distinct arguments => .call f distinct (groupedAll arguments)
  | .star f => .star f
  | .scalar query => .scalar query

/-- The trees that are read for several. -/
def groupedAll : List Tree → List Tree
  | [] => []
  | t :: ts => t.grouped :: groupedAll ts

end

/-! ## Grafts

A graft goes down the left edge as long as the operators have the same level,
and it stops at anything else. A graft into a graft of the same level goes into
what that one has put in front. -/

theorem graft_of_level_eq {op p : BinaryOp} (h : p.level = op.level) (left l r : Tree) :
    graft op left (.binary p l r) = .binary p (graft op left l) r :=
  if_pos h

/-- A tree with no operator of the level at its root is kept whole. -/
theorem graft_of_forall_ne {op : BinaryOp} {x : Tree}
    (h : ∀ p, x.op? = some p → p.level ≠ op.level) (left : Tree) :
    graft op left x = .binary op left x := by
  cases x
  case binary p l r => exact if_neg (h p rfl)
  all_goals rfl

/-- The left edge goes on through an operator of the level, or it ends. -/
theorem eq_binary_or_forall_ne (op : BinaryOp) (x : Tree) :
    (∃ p l r, x = .binary p l r ∧ p.level = op.level) ∨
      ∀ p, x.op? = some p → p.level ≠ op.level := by
  cases x
  case binary p l r =>
    by_cases h : p.level = op.level
    · exact .inl ⟨p, l, r, rfl, h⟩
    · exact .inr fun q hq => Option.some.inj hq ▸ h
  all_goals exact .inr nofun

/-- **Grafts one into the other.** -/
theorem graft_graft {o op : BinaryOp} (h : o.level = op.level) (left l x : Tree) :
    graft o left (graft op l x) = graft op (graft o left l) x := by
  rcases eq_binary_or_forall_ne op x with ⟨p, a, b, rfl, hp⟩ | hne
  · rw [graft_of_level_eq hp, graft_of_level_eq hp, graft_of_level_eq (hp.trans h.symm),
      graft_graft h left l a]
  · rw [graft_of_forall_ne hne, graft_of_forall_ne hne, graft_of_level_eq h.symm]
termination_by x

/-- **A graft into an operand on the left.** -/
theorem graft_extend {o op : BinaryOp} (h : o.level = op.level) (left l r : Tree) :
    graft o left (extend op l r) = extend op (graft o left l) r := by
  unfold extend
  split
  · exact graft_graft h left l r
  · exact graft_of_level_eq h.symm left l r

/-- The operator at the root of two operands. -/
theorem op?_extend (op : BinaryOp) (l r : Tree) : (extend op l r).op? = some op := by
  unfold extend
  split
  · next h =>
    cases r
    case binary p a b =>
      rw [show p = op from Option.some.inj h.2, graft_of_level_eq rfl]
      rfl
    all_goals cases h.2
  · rfl

/-- Reading does not change the operator at the root. -/
theorem op?_grouped (t : Tree) : t.grouped.op? = t.op? := by
  cases t
  case binary op l r =>
    rw [grouped, op?_extend]
    rfl
  all_goals simp only [grouped, op?]

/-! ## When a graft regroups

A graft is one regrouping after the other along the left edge, provided the
edge has a single operator. Where another operator of the level stands on it,
the trees are not related. -/

theorem leftSpine_binary {op : BinaryOp} {level : Nat} (h : op.level = level) (l r : Tree) :
    leftSpine level (.binary op l r) = op :: l.leftSpine level :=
  if_pos h

theorem leftSpine_eq_nil {level : Nat} {x : Tree}
    (h : ∀ p, x.op? = some p → p.level ≠ level) : x.leftSpine level = [] := by
  cases x
  case binary p l r => exact if_neg (h p rfl)
  all_goals rfl

theorem leftSpine_of_op?_eq_none {x : Tree} (h : x.op? = none) (level : Nat) :
    x.leftSpine level = [] :=
  leftSpine_eq_nil fun _ hp => nomatch h.symm.trans hp

/-- The left edge of a graft is that of its two parts. -/
theorem mem_leftSpine_graft {op p : BinaryOp} {left x : Tree}
    (h : p ∈ (graft op left x).leftSpine op.level) :
    p ∈ x.leftSpine op.level ∨ p = op ∨ p ∈ left.leftSpine op.level := by
  rcases eq_binary_or_forall_ne op x with ⟨q, a, b, rfl, hq⟩ | hne
  · rw [graft_of_level_eq hq, leftSpine_binary hq, List.mem_cons] at h
    rw [leftSpine_binary hq, List.mem_cons]
    rcases h with h | h
    · exact .inl (.inl h)
    · exact (mem_leftSpine_graft h).imp_left .inr
  · rw [graft_of_forall_ne hne, leftSpine_binary rfl, List.mem_cons] at h
    exact .inr h
termination_by x

/-- **A graft along a chain of one operator regroups it.** -/
theorem regroups_graft {op : BinaryOp} (hop : op ∈ BinaryOp.chained) (left : Tree) {x : Tree}
    (h : ∀ p ∈ x.leftSpine op.level, p = op) :
    Regroups (graft op left x) (.binary op left x) := by
  rcases eq_binary_or_forall_ne op x with ⟨q, a, b, rfl, hq⟩ | hne
  · rw [leftSpine_binary hq, List.forall_mem_cons] at h
    obtain ⟨rfl, ha⟩ := h
    rw [graft_of_level_eq rfl]
    exact (Regroups.binary q (regroups_graft hop left ha) (.refl b)).trans (.chain hop left a b)
  · rw [graft_of_forall_ne hne]
    exact .refl _
termination_by x

end Tree

end TypedSql

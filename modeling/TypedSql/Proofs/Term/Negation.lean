import TypedSql.Proofs.Term.Tree

/-!
# Negated questions for rows

A negated `EXISTS` is printed with its negation in front and without
parentheses, and a reader takes that negation for the loose one it is. What
comes behind the question belongs to it as well, if it binds tighter: the text
of such a term ends in an open negation (`Term.EndsOpen`), and so does every
term that has it at its right end. No harm is done where nothing tight comes
behind – at the right end of the whole, in a list, before an `AND` –
(`Term.KeepsNegation`).

What is lost otherwise can be counted. `Tree.negations` is how many questions
for rows are negated in a tree, each by itself. Grouping chains another way
does not change the number, so a tree with a smaller one is another expression.
-/

namespace TypedSql

/-! ## Counting negated questions

A negation counts when it stands on a question for rows and on nothing more. A
negation that takes in an operator as well has lost its question, and the
number goes down by one. -/

namespace Tree

/-- Whether a tree is the question for rows. -/
def isExists : Tree → Bool
  | .exists _ => true
  | _ => false

mutual

/-- **How many questions for rows are negated** in a tree, each by itself. -/
def negations : Tree → Nat
  | .not t => t.isExists.toNat + t.negations
  | .isNull t _ => t.negations
  | .binary _ l r => l.negations + r.negations
  | .between t l h => t.negations + l.negations + h.negations
  | .inList t items _ => t.negations + negationsAll items
  | .inQuery t _ _ => t.negations
  | .call _ _ arguments => negationsAll arguments
  | .null | .number _ | .text _ | .blob _ | .slot | .name _ | .column _ _ | .rowColumn _ _
  | .exists _ | .star _ | .scalar _ => 0

/-- Those in several trees. -/
def negationsAll : List Tree → Nat
  | [] => 0
  | t :: ts => t.negations + negationsAll ts

end

/-! ### Grouping

Grafting moves operands and takes no negation from its operand, so the number
stays what it is. That is what makes it a measure: trees that differ in
grouping cannot be told apart by it, and trees that differ in it are different
expressions. -/

theorem negations_graft (op : BinaryOp) (left x : Tree) :
    (graft op left x).negations = left.negations + x.negations := by
  rcases eq_binary_or_forall_ne op x with ⟨p, l, r, rfl, hp⟩ | hne
  · rw [graft_of_level_eq hp, negations, negations_graft op left l, negations, Nat.add_assoc]
  · rw [graft_of_forall_ne hne, negations]
termination_by x

theorem negations_extend (op : BinaryOp) (l r : Tree) :
    (extend op l r).negations = l.negations + r.negations := by
  rw [extend]
  split
  · exact negations_graft op l r
  · rw [negations]

/-- What has an operator at its root is no question for rows. -/
theorem isExists_of_op? {t : Tree} {op : BinaryOp} (h : t.op? = some op) : t.isExists = false := by
  cases t
  case binary => rfl
  all_goals cases h

theorem isExists_extend (op : BinaryOp) (l r : Tree) : (extend op l r).isExists = false :=
  isExists_of_op? (op?_extend op l r)

/-- Reading makes no question for rows and takes none away. -/
theorem isExists_grouped (t : Tree) : t.grouped.isExists = t.isExists := by
  cases t
  case binary op l r =>
    rw [grouped, isExists_extend]
    rfl
  all_goals simp only [grouped, isExists]

mutual

/-- **Grouping to the left** leaves negated questions alone. -/
theorem negations_grouped : ∀ t : Tree, t.grouped.negations = t.negations
  | .not t => by rw [grouped, negations, negations, isExists_grouped, negations_grouped t]
  | .isNull t _ => by rw [grouped, negations, negations, negations_grouped t]
  | .binary op l r => by
    rw [grouped, negations_extend, negations, negations_grouped l, negations_grouped r]
  | .between t l h => by
    rw [grouped, negations, negations, negations_grouped t, negations_grouped l,
      negations_grouped h]
  | .inList t items _ => by
    rw [grouped, negations, negations, negations_grouped t, negationsAll_groupedAll items]
  | .inQuery t _ _ => by rw [grouped, negations, negations, negations_grouped t]
  | .call _ _ arguments => by
    rw [grouped, negations, negations, negationsAll_groupedAll arguments]
  | .null | .number _ | .text _ | .blob _ | .slot | .name _ | .column _ _ | .rowColumn _ _
  | .exists _ | .star _ | .scalar _ => by rw [grouped]

theorem negationsAll_groupedAll : ∀ ts : List Tree,
    negationsAll (groupedAll ts) = negationsAll ts
  | [] => by rw [groupedAll]
  | t :: ts => by
    rw [groupedAll, negationsAll, negationsAll, negations_grouped t, negationsAll_groupedAll ts]

end

/-- Trees that differ in grouping are both questions for rows, or neither is. -/
theorem Regroups.isExists_eq : ∀ {t u : Tree}, Regroups t u → t.isExists = u.isExists
  | _, _, .refl _ => rfl
  | _, _, .symm h => h.isExists_eq.symm
  | _, _, .trans h h' => h.isExists_eq.trans h'.isExists_eq
  | _, _, .chain _ _ _ _ => rfl
  | _, _, .not _ => rfl
  | _, _, .isNull _ _ => rfl
  | _, _, .binary _ _ _ => rfl
  | _, _, .between _ _ _ => rfl
  | _, _, .inList _ _ _ => rfl
  | _, _, .inQuery _ _ _ => rfl
  | _, _, .call _ _ _ => rfl

mutual

/-- **Trees that differ in grouping** have as many negated questions. -/
theorem Regroups.negations_eq : ∀ {t u : Tree}, Regroups t u → t.negations = u.negations
  | _, _, .refl _ => rfl
  | _, _, .symm h => h.negations_eq.symm
  | _, _, .trans h h' => h.negations_eq.trans h'.negations_eq
  | _, _, .chain _ _ _ _ => by simp only [negations, Nat.add_assoc]
  | _, _, .not h => by rw [negations, negations, h.isExists_eq, h.negations_eq]
  | _, _, .isNull _ h => by rw [negations, negations, h.negations_eq]
  | _, _, .binary _ hl hr => by rw [negations, negations, hl.negations_eq, hr.negations_eq]
  | _, _, .between ht hl hh => by
    rw [negations, negations, ht.negations_eq, hl.negations_eq, hh.negations_eq]
  | _, _, .inList _ ht hts => by rw [negations, negations, ht.negations_eq, hts.negationsAll_eq]
  | _, _, .inQuery _ _ h => by rw [negations, negations, h.negations_eq]
  | _, _, .call _ _ h => by rw [negations, negations, h.negationsAll_eq]

theorem RegroupsAll.negationsAll_eq : ∀ {ts us : List Tree}, RegroupsAll ts us →
    negationsAll ts = negationsAll us
  | _, _, .nil => rfl
  | _, _, .cons h hs => by rw [negationsAll, negationsAll, h.negations_eq, hs.negationsAll_eq]

end

end Tree

/-! ## Open negations

The condition is read off the term. Whether a term ends in an open negation is
a matter of its right end, and of how tightly the operators above that end
bind. -/

namespace Term

/-- **A term whose text ends in an open negation**: it has a negated `EXISTS` at
its right end, behind operators that bind tighter than a negation. -/
def EndsOpen : Term → Prop
  | .exists _ negated => negated = true
  | .binary op _ r => negation < op.level ∧ needsParentheses op r true = false ∧ r.EndsOpen
  | .between _ _ high => bindsLooser high (equality + 1) = false ∧ high.EndsOpen
  | _ => False

/-- **A term that takes no negation in**: on the left of what binds tighter than
a negation nothing ends in an open one, if it is not set off. -/
def KeepsNegation : Term → Prop
  | .binary op l _ => ¬(negation < op.level ∧ needsParentheses op l false = false ∧ l.EndsOpen)
  | .isNull t _ | .between t _ _ | .inList t _ _ | .inQuery t _ _ =>
    ¬(bindsLooser t (equality + 1) = false ∧ t.EndsOpen)
  | _ => True

/-- **A term in which every negated `EXISTS` keeps its negation to itself.** -/
def KeepsNegations (t : Term) : Prop := ∀ u ∈ t.subterms, u.KeepsNegation

/-! ### Kinds of terms

The condition of a term is its own and that of its parts. -/

theorem keepsNegations_not {t : Term} : (Term.not t).KeepsNegations ↔ t.KeepsNegations :=
  List.forall_mem_cons.trans (and_iff_right trivial)

theorem keepsNegations_isNull {t : Term} {negated : Bool} :
    (Term.isNull t negated).KeepsNegations ↔
      ¬(bindsLooser t (equality + 1) = false ∧ t.EndsOpen) ∧ t.KeepsNegations :=
  List.forall_mem_cons

theorem keepsNegations_between {t low high : Term} :
    (Term.between t low high).KeepsNegations ↔
      ¬(bindsLooser t (equality + 1) = false ∧ t.EndsOpen) ∧
        t.KeepsNegations ∧ low.KeepsNegations ∧ high.KeepsNegations := by
  rw [KeepsNegations, subterms, List.forall_mem_cons, List.forall_mem_append,
    List.forall_mem_append, and_assoc]
  exact .rfl

theorem keepsNegations_inList {t : Term} {items : List Term} {negated : Bool} :
    (Term.inList t items negated).KeepsNegations ↔
      ¬(bindsLooser t (equality + 1) = false ∧ t.EndsOpen) ∧
        t.KeepsNegations ∧ ∀ u ∈ subtermsAll items, u.KeepsNegation := by
  rw [KeepsNegations, subterms, List.forall_mem_cons, List.forall_mem_append]
  exact .rfl

theorem keepsNegations_inQuery {t : Term} {q : SelectTerm} {negated : Bool} :
    (Term.inQuery t q negated).KeepsNegations ↔
      ¬(bindsLooser t (equality + 1) = false ∧ t.EndsOpen) ∧ t.KeepsNegations :=
  List.forall_mem_cons

theorem keepsNegations_exists {q : SelectTerm} {negated : Bool} :
    (Term.exists q negated).KeepsNegations :=
  List.forall_mem_singleton.mpr trivial

theorem keepsNegations_binary {op : BinaryOp} {l r : Term} :
    (Term.binary op l r).KeepsNegations ↔
      ¬(negation < op.level ∧ needsParentheses op l false = false ∧ l.EndsOpen) ∧
        l.KeepsNegations ∧ r.KeepsNegations := by
  rw [KeepsNegations, subterms, List.forall_mem_cons, List.forall_mem_append]
  exact .rfl

/-- Where there is a negation at the end, there is a negated `EXISTS`. -/
theorem EndsOpen.exists_mem {t : Term} (h : t.EndsOpen) : ∃ q, .exists q true ∈ t.subterms := by
  cases t
  case binary op l r =>
    obtain ⟨q, hq⟩ := exists_mem h.2.2
    exact ⟨q, List.mem_cons_of_mem _ (List.mem_append_right _ hq)⟩
  case between t low high =>
    obtain ⟨q, hq⟩ := exists_mem h.2
    exact ⟨q, List.mem_cons_of_mem _ (List.mem_append_right _ hq)⟩
  case «exists» q negated =>
    obtain rfl : negated = true := h
    exact ⟨q, List.mem_singleton_self _⟩
  all_goals cases h

/-- A term that takes a negation in has a negated `EXISTS`. -/
theorem exists_mem_of_not_keepsNegation {t : Term} (h : ¬t.KeepsNegation) :
    ∃ q, .exists q true ∈ t.subterms := by
  have hleft : ∀ {u : Term} {us : List Term}, u.EndsOpen →
      ∃ q, .exists q true ∈ u.subterms ++ us := fun hu =>
    hu.exists_mem.imp fun _ hq => List.mem_append_left _ hq
  cases t
  case binary op l r =>
    obtain ⟨q, hq⟩ := hleft (Classical.not_not.mp h).2.2
    exact ⟨q, List.mem_cons_of_mem _ hq⟩
  case isNull t negated =>
    obtain ⟨q, hq⟩ := (Classical.not_not.mp h).2.exists_mem
    exact ⟨q, List.mem_cons_of_mem _ hq⟩
  case between t low high =>
    obtain ⟨q, hq⟩ := hleft (Classical.not_not.mp h).2
    exact ⟨q, List.mem_cons_of_mem _ (List.mem_append_left _ hq)⟩
  case inList t items negated =>
    obtain ⟨q, hq⟩ := hleft (Classical.not_not.mp h).2
    exact ⟨q, List.mem_cons_of_mem _ hq⟩
  case inQuery t query negated =>
    obtain ⟨q, hq⟩ := (Classical.not_not.mp h).2.exists_mem
    exact ⟨q, List.mem_cons_of_mem _ hq⟩
  -- every other kind of term keeps its negation whatever is in it
  all_goals exact absurd trivial h

theorem mem_subterms_of_cons {t u v : Term} {us : List Term} (hv : v ∈ u.subterms)
    (heq : t.subterms = t :: us) (hu : u ∈ t.subterms) (hus : u ∈ us → v ∈ us) :
    v ∈ t.subterms := by
  rw [heq] at hu
  rcases List.mem_cons.mp hu with rfl | hu
  · exact hv
  · rw [heq]
    exact List.mem_cons_of_mem _ (hus hu)

mutual

/-- **The terms inside a term inside another one** are inside that. -/
theorem mem_subterms_trans {u v : Term} (hv : v ∈ u.subterms) : ∀ {t : Term},
    u ∈ t.subterms → v ∈ t.subterms
  | .literal _ _, h | .slot _, h | .column _ _, h | .rowColumn _ _, h | .reference _, h
  | .exists _ _, h | .countStar, h | .scalar _, h => mem_subterms_of_cons hv rfl h nofun
  | .not _, h | .isNull _ _, h | .inQuery _ _ _, h | .aggregate _ _, h | .countDistinct _, h
  | .groupConcat _ _, h => mem_subterms_of_cons hv rfl h (mem_subterms_trans hv)
  | .binary _ _ _, h => mem_subterms_of_cons hv rfl h fun h => List.mem_append.mpr
    ((List.mem_append.mp h).imp (mem_subterms_trans hv) (mem_subterms_trans hv))
  | .between _ _ _, h => mem_subterms_of_cons hv rfl h fun h => List.mem_append.mpr
    ((List.mem_append.mp h).imp
      (fun h => List.mem_append.mpr
        ((List.mem_append.mp h).imp (mem_subterms_trans hv) (mem_subterms_trans hv)))
      (mem_subterms_trans hv))
  | .inList _ _ _, h => mem_subterms_of_cons hv rfl h fun h => List.mem_append.mpr
    ((List.mem_append.mp h).imp (mem_subterms_trans hv) (mem_subtermsAll_trans hv))
  | .call _ _, h => mem_subterms_of_cons hv rfl h (mem_subtermsAll_trans hv)

theorem mem_subtermsAll_trans {u v : Term} (hv : v ∈ u.subterms) : ∀ {ts : List Term},
    u ∈ subtermsAll ts → v ∈ subtermsAll ts
  | [], h => absurd h List.not_mem_nil
  | _ :: _, h => List.mem_append.mpr
    ((List.mem_append.mp h).imp (mem_subterms_trans hv) (mem_subtermsAll_trans hv))

end

/-- **Without a negated `EXISTS`** nothing can be lost. -/
theorem keepsNegations_of_forall {t : Term} (h : ∀ q, .exists q true ∉ t.subterms) :
    t.KeepsNegations := by
  refine fun u hu => Classical.byContradiction fun hbad => ?_
  obtain ⟨q, hq⟩ := exists_mem_of_not_keepsNegation hbad
  exact h q (mem_subterms_trans hq hu)

end Term

end TypedSql

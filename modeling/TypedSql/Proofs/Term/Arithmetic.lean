import TypedSql.Proofs.Number.Numeral
import TypedSql.Proofs.Term.Reading

/-!
# The value of arithmetic and of its text

Formulas of sums, differences, products, quotients and remainders
(`Formula`), what they are worth (`Formula.value`) and what their text is
worth to a reader (`textValue`). The operators are those of the engine:
integers have no bounds, quotients are cut off toward zero, dividing by zero
gives the missing value, and the missing value goes through everything.

The text of a formula leaves parentheses out on the right of `+` and `*`, so
that the reader may group the operands of a product another way than the
formula does. `Formula.behind` says what is computed instead: a value that
stands in front of a product goes to the far end of its left edge.
`Formula.textValue_text` is the statement that this is so; sums need no such
care, because `-` comes to the same behind a sum as in it.
-/

namespace TypedSql

/-! ## Operators

The laws of this section are those by which a reader may group differently and
come to the same value. They hold with the missing value among the operands,
and there is none for a quotient. -/

/-- **The operators of arithmetic.** -/
inductive ArithmeticOp where
  /-- Sum. -/
  | add
  /-- Difference. -/
  | sub
  /-- Product. -/
  | mul
  /-- Quotient. -/
  | div
  /-- Remainder. -/
  | rem
deriving DecidableEq

namespace ArithmeticOp

/-- The operator as one of all binary operators. -/
def toBinary : ArithmeticOp → BinaryOp
  | .add => .add
  | .sub => .sub
  | .mul => .mul
  | .div => .div
  | .rem => .rem

/-- The value for two integers, which is missing where zero divides. -/
def apply : ArithmeticOp → Int → Int → Option Int
  | .add, x, y => some (x + y)
  | .sub, x, y => some (x - y)
  | .mul, x, y => some (x * y)
  | .div, x, y => if y = 0 then none else some (x.tdiv y)
  | .rem, x, y => if y = 0 then none else some (x.tmod y)

/-- **The value for two operands**, either of which may be missing. -/
def compute (op : ArithmeticOp) : Option Int → Option Int → Option Int
  | some x, some y => op.apply x y
  | _, _ => none

/-- Whether the operator has the level of products. -/
def isMultiplicative : ArithmeticOp → Bool
  | .mul | .div | .rem => true
  | .add | .sub => false

theorem compute_none_right (op : ArithmeticOp) (x : Option Int) :
    op.compute x none = none := by
  cases x <;> rfl

theorem one_mul (x : Option Int) : mul.compute (some 1) x = x := by
  cases x with
  | none => rfl
  | some x => exact congrArg some (Int.one_mul x)

/-- Products may be grouped either way. -/
theorem mul_assoc (x y z : Option Int) :
    mul.compute (mul.compute x y) z = mul.compute x (mul.compute y z) := by
  cases x with
  | none => rfl
  | some x =>
    cases y with
    | none => rfl
    | some y =>
      cases z with
      | none => rfl
      | some z => exact congrArg some (Int.mul_assoc x y z)

/-- **A sum and what comes behind it** may be grouped either way, a difference
as well. -/
theorem compute_add {op : ArithmeticOp} (h : op.isMultiplicative = false) (x y z : Option Int) :
    op.compute (add.compute x y) z = add.compute x (op.compute y z) := by
  cases x with
  | none => rfl
  | some x =>
    cases y with
    | none => rfl
    | some y =>
      cases z with
      | none => rw [compute_none_right, compute_none_right, compute_none_right]
      | some z =>
        cases op
        case add => exact congrArg some (Int.add_assoc x y z)
        case sub => exact congrArg some (Int.add_sub_assoc x y z)
        all_goals cases h

end ArithmeticOp

/-- The operator of arithmetic that a binary operator is, if it is one. -/
def BinaryOp.arithmetic? : BinaryOp → Option ArithmeticOp
  | .add => some .add
  | .sub => some .sub
  | .mul => some .mul
  | .div => some .div
  | .rem => some .rem
  | _ => none

namespace ArithmeticOp

theorem arithmetic?_toBinary (op : ArithmeticOp) : op.toBinary.arithmetic? = some op := by
  cases op <;> rfl

theorem toBinary_of_arithmetic? {op : ArithmeticOp} {p : BinaryOp}
    (h : p.arithmetic? = some op) : op.toBinary = p := by
  cases p <;> cases h <;> rfl

theorem level_eq_mul {op : ArithmeticOp} (h : op.isMultiplicative = true) :
    BinaryOp.mul.level = op.toBinary.level := by
  cases op <;> cases h <;> rfl

theorem level_eq_add {op : ArithmeticOp} (h : op.isMultiplicative = false) :
    op.toBinary.level = BinaryOp.add.level := by
  cases op <;> cases h <;> rfl

theorem isMultiplicative_of_level {op : ArithmeticOp}
    (h : op.toBinary.level = BinaryOp.add.level) : op.isMultiplicative = false := by
  revert h
  cases op <;> decide

end ArithmeticOp

/-! ## Formulas

A formula keeps its operands abstract, since its shape decides whether
parentheses are lost. `Formula.behind` follows the reader down the left edge
with the factor in hand, and `Formula.value` follows the tree. -/

/-- **A formula** with operands of some kind. -/
inductive Formula (α : Type) where
  /-- An operand. -/
  | leaf (a : α)
  /-- An operator between two formulas. -/
  | node (op : ArithmeticOp) (left right : Formula α)

namespace Formula

variable {α β : Type}

/-- The same formula with other operands. -/
def map (f : α → β) : Formula α → Formula β
  | .leaf a => .leaf (f a)
  | .node op l r => .node op (l.map f) (r.map f)

/-- **The shape of a formula**: its operators without the operands. -/
def shape (e : Formula α) : Formula Unit := e.map fun _ => ()

/-- **The value of a formula** whose operands have the values `v`. -/
def value (v : α → Option Int) : Formula α → Option Int
  | .leaf a => v a
  | .node op l r => op.compute (l.value v) (r.value v)

/-- Whether the last thing that a formula does is to multiply. -/
def isProduct : Formula α → Bool
  | .node .mul _ _ => true
  | _ => false

/-- An operator between a value and an operand on its right. A product on the
right of `*` is read without its parentheses. -/
def joined (op : ArithmeticOp) (x : Option Int) (isProduct : Bool)
    (right : Option Int → Option Int) : Option Int :=
  if op = .mul ∧ isProduct = true then right x else op.compute x (right (some 1))

theorem joined_of_ne_mul {op : ArithmeticOp} (h : op ≠ .mul) (x : Option Int) (isProduct : Bool)
    (right : Option Int → Option Int) :
    joined op x isProduct right = op.compute x (right (some 1)) :=
  if_neg fun hmul => h hmul.1

/-- **What the text of a formula is worth behind a factor.** The factor goes
to the far end of the left edge, as far as that goes through operators of the
level of products; it is one if there is none. -/
def behind (v : α → Option Int) : Formula α → Option Int → Option Int
  | .leaf a, x => ArithmeticOp.mul.compute x (v a)
  | .node op l r, x =>
    if op.isMultiplicative then joined op (l.behind v x) r.isProduct (r.behind v)
    else ArithmeticOp.mul.compute x (joined op (l.behind v (some 1)) r.isProduct (r.behind v))

theorem behind_multiplicative (v : α → Option Int) {op : ArithmeticOp}
    (h : op.isMultiplicative = true) (l r : Formula α) (x : Option Int) :
    (node op l r).behind v x = joined op (l.behind v x) r.isProduct (r.behind v) :=
  if_pos h

/-- A sum is set off behind a factor. -/
theorem behind_additive (v : α → Option Int) {op : ArithmeticOp}
    (h : op.isMultiplicative = false) (l r : Formula α) (x : Option Int) :
    (node op l r).behind v x
      = ArithmeticOp.mul.compute x (op.compute (l.behind v (some 1)) (r.behind v (some 1))) := by
  have hne : op ≠ .mul := by
    rintro rfl
    cases h
  rw [behind, h, if_neg Bool.false_ne_true, joined_of_ne_mul hne]

/-- Without a factor in front an operator joins its operands, whichever it
is. -/
theorem behind_one (v : α → Option Int) (op : ArithmeticOp) (l r : Formula α) :
    (node op l r).behind v (some 1)
      = joined op (l.behind v (some 1)) r.isProduct (r.behind v) := by
  rw [behind, ArithmeticOp.one_mul, ite_self]

end Formula

/-! ## Operands

What may stand at the end of a formula: columns and literals of integers.
Nothing else of the language is needed, and nothing that a reader would have to
look into. -/

/-- The integer that a value of an integer codec stands for. -/
def Codec.integer? : (c : Codec) → c.Value → Option Int
  | .scalar .long, n => some n.toInt
  | .scalar .int, n => some n.toInt
  | .scalar .bool, b => some (if b then 1 else 0)
  | .scalar _, _ => none
  | .nullable _, none => none
  | .nullable c, some v => c.integer? v
  | .shared c, v => c.integer? v

/-- **What stands in integer arithmetic**: a column or a literal. -/
inductive IntegerOperand where
  /-- A column of a source. -/
  | column (source name : Identifier)
  /-- A value of a codec that is stored as an integer. -/
  | literal (c : Codec) (h : c.storageClass = .integer) (v : c.Value)

namespace IntegerOperand

/-- The term of an operand. -/
def term : IntegerOperand → Term
  | .column source name => .column source name
  | .literal c _ v => .literal c v

/-- **The value of an operand** where the columns hold the integers `env`. -/
def value (env : Identifier → Identifier → Int) : IntegerOperand → Option Int
  | .column source name => some (env source name)
  | .literal c _ v => c.integer? v

end IntegerOperand

namespace Formula

/-- **The term of a formula.** -/
def term : Formula IntegerOperand → Term
  | .leaf a => a.term
  | .node op l r => .binary op.toBinary l.term r.term

end Formula

/-! ## Reading a value off a text

The value of a text is defined without the term it was printed from, by the
tree that a reader comes to. So the comparison with the value of the formula is
between two sides that know nothing of each other. -/

/-- **The value of what was read**, if it is integer arithmetic. -/
def Tree.value? (env : Identifier → Identifier → Int) : Tree → Option (Option Int)
  | .null => some none
  | .number cs => (readInteger? cs).map some
  | .column i j => some (some (env i j))
  | .binary op l r =>
    match op.arithmetic?, l.value? env, r.value? env with
    | some op, some x, some y => some (op.compute x y)
    | _, _, _ => none
  | _ => none

/-- **The value of a text**, read by the order of the operators. -/
def textValue (env : Identifier → Identifier → Int) (cs : List Char) : Option (Option Int) :=
  (Tree.read? cs).bind (Tree.value? env)

namespace Tree

variable {env : Identifier → Identifier → Int}

theorem value?_binary {op : ArithmeticOp} {l r : Tree} {x y : Option Int}
    (hl : l.value? env = some x) (hr : r.value? env = some y) :
    (Tree.binary op.toBinary l r).value? env = some (op.compute x y) := by
  rw [value?, hl, hr, ArithmeticOp.arithmetic?_toBinary]

theorem exists_of_value?_binary {p : BinaryOp} {l r : Tree} {z : Option Int}
    (h : (Tree.binary p l r).value? env = some z) :
    ∃ (op : ArithmeticOp) (x y : Option Int), op.toBinary = p ∧ l.value? env = some x ∧
      r.value? env = some y ∧ op.compute x y = z := by
  rw [value?] at h
  split at h
  · next op x y hop hl hr =>
    exact ⟨op, x, y, ArithmeticOp.toBinary_of_arithmetic? hop, hl, hr, Option.some.inj h⟩
  · cases h

/-- **A value put in front of a sum** is added, wherever it goes. -/
theorem value?_graft_add {t left : Tree} {x y : Option Int} (hleft : left.value? env = some x)
    (ht : t.value? env = some y) :
    (graft .add left t).value? env = some (ArithmeticOp.add.compute x y) := by
  rcases eq_binary_or_forall_ne .add t with ⟨p, l, r, rfl, hp⟩ | hne
  · obtain ⟨op, a, b, rfl, hl, hr, rfl⟩ := exists_of_value?_binary ht
    have hop := ArithmeticOp.isMultiplicative_of_level hp
    rw [graft_of_level_eq hp, value?_binary (value?_graft_add hleft hl) hr,
      ArithmeticOp.compute_add hop]
  · rw [graft_of_forall_ne hne]
    exact @value?_binary env .add left t x y hleft ht
termination_by t

end Tree

/-! ## Numbers

A literal of an integer is its digits with a minus in front or none, and both
are read back. An operand is a leaf of the tree, so that no grouping reaches
into it. -/

/-- **The literal of an integer** is read as that integer. -/
theorem Codec.value?_ofArgument_encode (env : Identifier → Identifier → Int) :
    ∀ (c : Codec) (v : c.Value), c.storageClass = .integer →
      (Tree.ofArgument .integer (c.encode v)).value? env = some (c.integer? v)
  | .scalar s, v, h => by
    have hnumber : ∀ n : Int,
        (Tree.ofArgument .integer (.text (integerText n))).value? env = some (some n) := fun n =>
      congrArg (Option.map some) (readInteger?_integerText n)
    cases s
    case long => exact hnumber v.toInt
    case int => exact hnumber v.toInt
    case bool =>
      cases v
      · exact hnumber 0
      · exact hnumber 1
    all_goals cases h
  | .nullable _, none, _ => rfl
  | .nullable c, some v, h => c.value?_ofArgument_encode env v h
  | .shared c, v, h => c.value?_ofArgument_encode env v h

theorem IntegerOperand.value?_tree (env : Identifier → Identifier → Int) (a : IntegerOperand) :
    a.term.tree.value? env = some (a.value env) := by
  cases a with
  | column source name => rfl
  | literal c h v =>
    show (Tree.ofArgument c.storageClass (c.encode v)).value? env = some (c.integer? v)
    rw [h]
    exact c.value?_ofArgument_encode env v h

/-- There is nothing to regroup in an operand. -/
theorem IntegerOperand.grouped_tree (a : IntegerOperand) : a.term.tree.grouped = a.term.tree := by
  cases a with
  | column source name => rfl
  | literal c h v =>
    show (Tree.ofArgument c.storageClass (c.encode v)).grouped = Tree.ofArgument _ _
    rw [Tree.ofArgument.eq_def]
    split
    · rfl
    · split <;> rfl
    · rfl

theorem IntegerOperand.op?_tree (a : IntegerOperand) : a.term.tree.op? = none := by
  rw [Term.op?_tree]
  cases a <;> rfl

/-! ## What the text of a formula is worth

Two statements are carried through the induction together: the value of what is
read from a formula by itself, and the value of what is read when a factor has
come before it. The first needs the second for the operand on the right of a
product, and the second needs both for its parts. -/

namespace Formula

/-- Products are what has the operator of products at the root. -/
theorem op?_term_eq_mul (e : Formula IntegerOperand) :
    e.term.op? = some .mul ↔ e.isProduct = true := by
  cases e with
  | leaf a =>
    rw [show (leaf a).term.op? = none from (Term.op?_tree _).symm.trans a.op?_tree]
    exact ⟨nofun, nofun⟩
  | node op l r =>
    show some op.toBinary = some .mul ↔ _
    cases op
    case mul => exact ⟨fun _ => rfl, fun _ => rfl⟩
    all_goals exact ⟨nofun, nofun⟩

/-- **The tree that is read from the text of a formula has the value that is
computed behind a factor**, the factor one or any other. -/
structure ReadsValue (env : Identifier → Identifier → Int) (e : Formula IntegerOperand) :
    Prop where
  /-- By itself. -/
  alone : e.term.tree.grouped.value? env = some (e.behind (IntegerOperand.value env) (some 1))
  /-- On the right of a product that has taken its parentheses away. -/
  behind : ∀ {left : Tree} {x : Option Int}, left.value? env = some x →
    (Tree.graft .mul left e.term.tree.grouped).value? env
      = some (e.behind (IntegerOperand.value env) x)

namespace ReadsValue

variable {env : Identifier → Identifier → Int}

/-- **Two operands without parentheses** where they are not needed. -/
theorem extend {left : Tree} {x : Option Int} (hleft : left.value? env = some x)
    {r : Formula IntegerOperand} (hr : ReadsValue env r) (op : ArithmeticOp) :
    (Tree.extend op.toBinary left r.term.tree.grouped).value? env
      = some (joined op x r.isProduct (r.behind (IntegerOperand.value env))) := by
  have hroot : r.term.tree.grouped.op? = r.term.op? :=
    r.term.tree.op?_grouped.trans r.term.op?_tree
  have hbinary : (Tree.binary op.toBinary left r.term.tree.grouped).value? env = _ :=
    Tree.value?_binary hleft hr.alone
  unfold Tree.extend
  rw [hroot]
  -- only a product on the right of a product is worth something else without its parentheses
  by_cases hmul : op = .mul
  · subst hmul
    split
    · next h =>
      rw [joined, if_pos ⟨rfl, r.op?_term_eq_mul.mp h.2⟩]
      exact hr.behind hleft
    · next h =>
      rw [joined, if_neg fun hmul => h ⟨by decide, r.op?_term_eq_mul.mpr hmul.2⟩]
      exact hbinary
  · rw [joined_of_ne_mul hmul]
    split
    · next h =>
      have hadd : op = .add := by
        revert h hmul
        cases op <;> simp [ArithmeticOp.toBinary, BinaryOp.chained]
      subst hadd
      exact Tree.value?_graft_add hleft hr.alone
    · exact hbinary

/-- **Every formula is read like that.** -/
theorem of_formula : ∀ e : Formula IntegerOperand, ReadsValue env e
  | .leaf a => by
    have hvalue : a.term.tree.grouped.value? env = some (a.value env) :=
      a.grouped_tree.symm ▸ a.value?_tree env
    refine ⟨hvalue.trans ?_, fun {left} {x} hleft => ?_⟩
    · exact congrArg some (ArithmeticOp.one_mul _).symm
    · have hop : ∀ p, a.term.tree.grouped.op? = some p → p.level ≠ BinaryOp.mul.level := fun p hp =>
        nomatch (a.term.tree.op?_grouped.trans a.op?_tree).symm.trans hp
      show (Tree.graft .mul left a.term.tree.grouped).value? env = _
      rw [Tree.graft_of_forall_ne hop]
      exact @Tree.value?_binary env .mul _ _ _ _ hleft hvalue
  | .node op l r => by
    have hl := of_formula l
    have hr := of_formula r
    have halone := hr.extend hl.alone op
    rw [← behind_one] at halone
    refine ⟨halone, fun {left} {x} hleft => ?_⟩
    show (Tree.graft .mul left (Tree.extend op.toBinary l.term.tree.grouped
      r.term.tree.grouped)).value? env = _
    -- a factor goes on into a product and stays outside of a sum
    cases hop : op.isMultiplicative with
    | true =>
      rw [Tree.graft_extend (ArithmeticOp.level_eq_mul hop), behind_multiplicative _ hop]
      exact hr.extend (hl.behind hleft) op
    | false =>
      have hlevel : ∀ p, (Tree.extend op.toBinary l.term.tree.grouped r.term.tree.grouped).op? =
          some p → p.level ≠ BinaryOp.mul.level := by
        intro p hp
        rw [Tree.op?_extend] at hp
        rw [← Option.some.inj hp, ArithmeticOp.level_eq_add hop]
        decide
      rw [Tree.graft_of_forall_ne hlevel]
      refine (@Tree.value?_binary env .mul _ _ _ _ hleft halone).trans ?_
      rw [behind_one, Formula.behind, hop, if_neg Bool.false_ne_true]

end ReadsValue

/-- There is no query in a formula. -/
theorem exists_notMem_subterms (q : SelectTerm) :
    ∀ e : Formula IntegerOperand, Term.exists q true ∉ e.term.subterms
  | .leaf (.column _ _) => by simp [term, IntegerOperand.term, Term.subterms]
  | .leaf (.literal _ _ _) => by simp [term, IntegerOperand.term, Term.subterms]
  | .node op l r => by
    have hl := exists_notMem_subterms q l
    have hr := exists_notMem_subterms q r
    simp [term, Term.subterms, hl, hr]

/-- **The value of the text of a formula.** -/
theorem textValue_text (e : Formula IntegerOperand) (env : Identifier → Identifier → Int) :
    textValue env e.term.sql.text.toList
      = some (e.behind (IntegerOperand.value env) (some 1)) := by
  have hread : Tree.read? e.term.sql.text.toList = some e.term.tree.grouped :=
    Term.read?_text fun q => exists_notMem_subterms q e
  rw [textValue, hread]
  exact (ReadsValue.of_formula e).alone

end Formula

end TypedSql

import TypedSql.Proofs.Term.Arithmetic

/-!
# When the text of arithmetic keeps the value

A product on the right of a product is written without parentheses, and a
reader starts with its left edge. That does no harm as long as there are
products only. With a quotient or a remainder at the end of the edge
(`Formula.divided`) the factor in front is divided first: `2 * (1 / 2 * 3)`
is written as `2 * 1 / 2 * 3`, which is three instead of zero.

`Formula.textValue_eq_iff` says that this is all that can go wrong, and that
it does go wrong. A formula without such a product (`Formula.Undivided`) is
worth what its text is worth, whatever stands in it. For every other formula
there are operands with which the two differ, however deep in the formula the
product is: operands can be chosen so that all other parts hand on what they
get (`StandsFor`), and the difference reaches the root as one between a value
that is missing or zero and one that is far from zero (`Apart`).
-/

namespace TypedSql

namespace Formula

variable {α β : Type}

/-- **Whether a quotient or a remainder is at the end of the left edge** that a
factor in front would be multiplied into. -/
def divided : Formula α → Bool
  | .node .mul l _ => l.divided
  | .node .div _ _ | .node .rem _ _ => true
  | _ => false

/-- **A formula that the reader does not divide** at another place: no product
on the right of a product has a quotient or remainder at its left end. -/
def Undivided : Formula α → Prop
  | .leaf _ => True
  | .node op l r =>
    l.Undivided ∧ r.Undivided ∧ (op = .mul → r.isProduct = true → r.divided = false)

/-! ## The text of an undivided formula

A factor in front goes to the far end of the left edge. Where it meets products
only, this is to multiply by it, and it can meet a division only if one stands
at the end of that edge.
-/

/-- **Behind a factor an undivided formula is multiplied by it**, unless
there is a division for the factor to get into. -/
theorem behind_eq (v : α → Option Int) (e : Formula α) (h : e.Undivided) (x : Option Int)
    (hx : x = some 1 ∨ e.divided = false) :
    e.behind v x = ArithmeticOp.mul.compute x (e.value v) := by
  induction e generalizing x with
  | leaf a => rfl
  | node op l r ihl ihr =>
    obtain ⟨hl, hr, hmul⟩ := h
    have hleft := ihl hl (some 1) (.inl rfl)
    have hright := ihr hr (some 1) (.inl rfl)
    rw [ArithmeticOp.one_mul] at hleft hright
    rw [value]
    cases hop : op.isMultiplicative with
    | false => rw [behind_additive v hop, hleft, hright]
    | true =>
      rw [behind_multiplicative v hop]
      by_cases hne : op = .mul
      · subst hne
        rw [ihl hl x hx, ← ArithmeticOp.mul_assoc]
        unfold joined
        split
        · next hproduct => exact ihr hr _ (.inr (hmul rfl hproduct.2))
        · rw [hright]
      · -- behind a quotient or a remainder there is no factor in front
        have hdivided : (node op l r).divided = true := by
          revert hop hne
          cases op <;> simp [divided, ArithmeticOp.isMultiplicative]
        obtain rfl : x = some 1 := hx.resolve_right fun hfalse => nomatch hdivided.symm.trans hfalse
        rw [joined_of_ne_mul hne, hleft, hright, ArithmeticOp.one_mul]

/-! ## Parts that hand on what they get

To show that the value really differs, operands have to be chosen for a shape
that is given. Every part beside the way to the division gets operands with
which it changes nothing. -/

/-- The missing value in front stays missing. -/
theorem behind_none (v : α → Option Int) (e : Formula α) : e.behind v none = none := by
  induction e with
  | leaf a => rfl
  | node op l r ihl ihr =>
    rw [behind, ihl]
    split
    · unfold joined
      split
      · exact ihr
      · rfl
    · rfl

/-- **A formula that stands for an integer**, by itself and behind the factors
up to a bound. -/
structure StandsFor (e : Formula Int) (n : Int) (bound : Nat) : Prop where
  /-- By itself. -/
  value_eq : e.value some = some n
  /-- Behind a factor. -/
  behind_eq : ∀ x : Int, x.natAbs ≤ bound → e.behind some (some x) = some (x * n)

/-- **On the right of an operator** such a formula is the integer, although a
product may have lost its parentheses. -/
theorem StandsFor.joined_eq {e : Formula Int} {n : Int} {bound : Nat} (h : StandsFor e n bound)
    (hbound : 1 ≤ bound) (op : ArithmeticOp) {x : Option Int}
    (hx : ∀ y, x = some y → y.natAbs ≤ bound) :
    joined op x e.isProduct (e.behind some) = op.compute x (some n) := by
  unfold joined
  split
  · next hmul =>
    rw [hmul.1]
    cases x with
    | none => exact behind_none some e
    | some y => exact h.behind_eq y (hx y rfl)
  · rw [h.behind_eq 1 hbound, Int.one_mul]

end Formula

namespace ArithmeticOp

/-- A remainder by something greater is what was there before. -/
theorem tmod_of_natAbs_lt {x y : Int} (h : x.natAbs < y.natAbs) : x.tmod y = x := by
  have hnonneg : ∀ {x : Int}, 0 ≤ x → x.natAbs < y.natAbs → x.tmod y = x := by
    intro x hx h
    by_cases hy : 0 ≤ y
    · exact Int.tmod_eq_of_lt hx (by omega)
    · rw [← Int.tmod_neg]
      exact Int.tmod_eq_of_lt hx (by omega)
  by_cases hx : 0 ≤ x
  · exact hnonneg hx h
  · have hneg : (-x).tmod y = -x := hnonneg (by omega) (by omega)
    rw [Int.neg_tmod] at hneg
    exact Int.neg_inj.mp hneg

/-- **Every operator has operands on the right** that change nothing. -/
theorem exists_neutral (op : ArithmeticOp) (bound : Nat) :
    ∃ m : Int, ∀ x : Int, x.natAbs ≤ bound → op.compute (some x) (some m) = some x := by
  cases op
  case add => exact ⟨0, fun x _ => congrArg some (Int.add_zero x)⟩
  case sub => exact ⟨0, fun x _ => congrArg some (Int.sub_zero x)⟩
  case mul => exact ⟨1, fun x _ => congrArg some (Int.mul_one x)⟩
  case div => exact ⟨1, fun x _ => congrArg some (Int.tdiv_one x)⟩
  case rem =>
    have hne : (bound : Int) + 1 ≠ 0 := by omega
    refine ⟨bound + 1, fun x hx => (if_neg hne).trans (congrArg some (tmod_of_natAbs_lt ?_))⟩
    omega

end ArithmeticOp

namespace Formula

/-- **Every shape can stand for every integer.** -/
theorem exists_standsFor (s : Formula Unit) (n : Int) (bound : Nat) :
    ∃ e : Formula Int, e.shape = s ∧ StandsFor e n bound := by
  induction s generalizing n bound with
  | leaf a => exact ⟨.leaf n, rfl, rfl, fun x _ => rfl⟩
  | node op l r ihl ihr =>
    -- the left operand does all the work, the right one changes nothing
    obtain ⟨m, hm⟩ := op.exists_neutral ((bound + 1) * n.natAbs)
    obtain ⟨a, rfl, ha⟩ := ihl n (bound + 1)
    obtain ⟨b, rfl, hb⟩ := ihr m ((bound + 1) * n.natAbs + 1)
    have hjoined : ∀ x : Int, x.natAbs ≤ bound + 1 →
        joined op (a.behind some (some x)) b.isProduct (b.behind some) = some (x * n) := by
      intro x hx
      have hxn : (x * n).natAbs ≤ (bound + 1) * n.natAbs := by
        rw [Int.natAbs_mul]
        exact Nat.mul_le_mul_right _ hx
      have hright := hb.joined_eq (Nat.le_add_left 1 _) op (x := some (x * n)) fun y hy =>
        Option.some.inj hy ▸ hxn.trans (Nat.le_succ _)
      rw [ha.behind_eq x hx, hright, hm _ hxn]
    refine ⟨.node op a b, rfl, ?_, fun x hx => ?_⟩
    · rw [value, ha.value_eq, hb.value_eq]
      exact hm n (Nat.le_mul_of_pos_left _ (Nat.succ_pos _))
    · cases hop : op.isMultiplicative with
      | true =>
        rw [behind_multiplicative some hop]
        exact hjoined x (hx.trans (Nat.le_succ _))
      | false =>
        have hone := hjoined 1 (Nat.succ_le_succ (Nat.zero_le _))
        rw [behind, hop, if_neg Bool.false_ne_true, hone, Int.one_mul]
        rfl

end Formula

/-! ## How far two values may be apart

A single difference at the division would do if every operator above kept it,
but a quotient may bring two values together again. So the difference is kept
large from the beginning: one of the values is missing or zero, and the other
is beyond a bound that is asked for. -/

/-- A value that is missing or zero. -/
def IsVoid (p : Option Int) : Prop := p = none ∨ p = some 0

/-- **Two values of which one is void** and the other one is `z`. -/
def Apart (z : Int) (p q : Option Int) : Prop :=
  (IsVoid p ∧ q = some z) ∨ (p = some z ∧ IsVoid q)

namespace Apart

variable {z : Int} {p q : Option Int} (h : Apart z p q)

include h

theorem ne (hz : z ≠ 0) : p ≠ q := by
  rintro rfl
  have hvoid : ¬IsVoid (some z) := fun hvoid =>
    hvoid.elim nofun fun hzero => hz (Option.some.inj hzero)
  rcases h with ⟨hp, rfl⟩ | ⟨rfl, hp⟩
  · exact hvoid hp
  · exact hvoid hp

theorem natAbs_le : ∀ y, q = some y → y.natAbs ≤ z.natAbs := by
  intro y hy
  rcases h with ⟨-, hq⟩ | ⟨-, hq | hq⟩
  · rw [Option.some.inj (hy.symm.trans hq)]
  · cases hy.symm.trans hq
  · rw [Option.some.inj (hy.symm.trans hq)]
    exact Nat.zero_le _

/-- **What is computed from values apart** is apart again, if it is void for
those that are. -/
theorem map {f : Option Int → Option Int} {z' : Int} (hnone : f none = none)
    (hzero : IsVoid (f (some 0))) (hz : f (some z) = some z') : Apart z' (f p) (f q) := by
  have hvoid : ∀ {w : Option Int}, IsVoid w → IsVoid (f w) := by
    rintro w (rfl | rfl)
    · exact .inl hnone
    · exact hzero
  rcases h with ⟨hp, rfl⟩ | ⟨rfl, hq⟩
  · exact .inl ⟨hvoid hp, hz⟩
  · exact .inr ⟨hz, hvoid hq⟩

end Apart

namespace ArithmeticOp

/-- **Every operator has operands on the left** behind which a value far from
zero makes a difference. For products one will do. -/
theorem exists_left (op : ArithmeticOp) (bound : Nat) {z : Int} (hz : bound < z.natAbs) :
    ∃ n z' : Int, (op = .mul → n = 1) ∧ bound ≤ z'.natAbs ∧
      op.compute (some n) (some z) = some z' ∧ IsVoid (op.compute (some n) (some 0)) := by
  have hne : z ≠ 0 := by
    rintro rfl
    exact absurd hz (Nat.not_lt_zero _)
  cases op
  case add => exact ⟨0, z, nofun, hz.le, congrArg some (Int.zero_add z), .inr rfl⟩
  case sub =>
    exact ⟨0, -z, nofun, Int.natAbs_neg z ▸ hz.le, congrArg some (Int.zero_sub z), .inr rfl⟩
  case mul => exact ⟨1, z, fun _ => rfl, hz.le, congrArg some (Int.one_mul z), .inr rfl⟩
  case div =>
    refine ⟨bound * z, bound, nofun, Nat.le_refl _, ?_, .inl rfl⟩
    exact (if_neg hne).trans (congrArg some (Int.mul_tdiv_cancel _ hne))
  case rem =>
    refine ⟨bound, bound, nofun, Nat.le_refl _, ?_, .inl rfl⟩
    exact (if_neg hne).trans (congrArg some (tmod_of_natAbs_lt hz))

end ArithmeticOp

namespace Formula

/-! ## Where the text is worth something else

First the division itself behind a factor, then the operators above it, one by
one, up to the root. -/

theorem isProduct_shape {α : Type} (e : Formula α) : e.shape.isProduct = e.isProduct := by
  cases e with
  | leaf a => rfl
  | node op l r => cases op <;> rfl

/-- **A division at the left end** can make a difference behind a factor. -/
theorem exists_apart_of_divided (s : Formula Unit) (h : s.divided = true) (bound : Nat) :
    ∃ (e : Formula Int) (y z : Int), e.shape = s ∧ bound ≤ z.natAbs ∧
      Apart z (ArithmeticOp.mul.compute (some y) (e.value some)) (e.behind some (some y)) := by
  induction s with
  | leaf a => cases h
  | node op l r ihl =>
    -- where the division is, one is divided by two behind the factor `2 * bound`
    have hdivision : ∀ op : ArithmeticOp, op.isMultiplicative = true → op ≠ .mul →
        ∃ e : Formula Int, e.shape = .node op l r ∧ e.value some = op.compute (some 1) (some 2) ∧
          e.behind some (some (2 * bound)) = op.compute (some (2 * bound)) (some 2) := by
      intro op hop hne
      obtain ⟨a, rfl, ha⟩ := exists_standsFor l 1 (2 * bound)
      obtain ⟨b, rfl, hb⟩ := exists_standsFor r 2 1
      refine ⟨.node op a b, rfl, ?_, ?_⟩
      · rw [value, ha.value_eq, hb.value_eq]
      · rw [behind_multiplicative some hop, joined_of_ne_mul hne, hb.behind_eq 1 (Nat.le_refl 1),
          ha.behind_eq _ (by omega), Int.mul_one, Int.one_mul]
    cases op with
    | add => cases h
    | sub => cases h
    | mul =>
      obtain ⟨a, y, z, rfl, hz, hapart⟩ := ihl h
      obtain ⟨b, rfl, hb⟩ := exists_standsFor r 1 (z.natAbs + 1)
      refine ⟨.node .mul a b, y, z, rfl, hz, ?_⟩
      have hright := hb.joined_eq (Nat.le_add_left 1 _) .mul fun w hw =>
        (hapart.natAbs_le w hw).trans (Nat.le_succ _)
      rw [value, hb.value_eq, ← ArithmeticOp.mul_assoc, behind_multiplicative some rfl, hright]
      exact hapart.map (f := fun w => ArithmeticOp.mul.compute w (some 1)) rfl (.inr rfl)
        (congrArg some (Int.mul_one z))
    | div =>
      obtain ⟨e, he, hvalue, hbehind⟩ := hdivision .div rfl nofun
      refine ⟨e, 2 * bound, bound, he, Nat.le_refl _, .inl ⟨.inr ?_, ?_⟩⟩
      · rw [hvalue]
        exact congrArg some (Int.mul_zero _)
      · rw [hbehind]
        exact congrArg some (Int.mul_tdiv_cancel_left _ (by decide))
    | rem =>
      obtain ⟨e, he, hvalue, hbehind⟩ := hdivision .rem rfl nofun
      refine ⟨e, 2 * bound, 2 * bound, he, by omega, .inr ⟨?_, .inr ?_⟩⟩
      · rw [hvalue]
        exact congrArg some (Int.mul_one _)
      · rw [hbehind]
        exact congrArg some (Int.mul_tmod_right _ _)

/-- **A formula whose text is not worth what it is**, for every shape with a
product that the reader divides. -/
theorem exists_apart (s : Formula Unit) (h : ¬s.Undivided) (bound : Nat) :
    ∃ (e : Formula Int) (z : Int), e.shape = s ∧ bound ≤ z.natAbs ∧
      Apart z (e.value some) (e.behind some (some 1)) := by
  induction s generalizing bound with
  | leaf a => exact absurd trivial h
  | node op l r ihl ihr =>
    by_cases hl : l.Undivided
    · by_cases hr : r.Undivided
      · -- the root is the product
        have hroot : op = .mul ∧ r.isProduct = true ∧ r.divided = true := by
          refine Decidable.byContradiction fun hno => h ⟨hl, hr, fun hmul hproduct => ?_⟩
          exact Bool.eq_false_iff.mpr fun hdivided => hno ⟨hmul, hproduct, hdivided⟩
        obtain ⟨rfl, hproduct, hdivided⟩ := hroot
        obtain ⟨b, y, z, rfl, hz, hapart⟩ := exists_apart_of_divided r hdivided bound
        obtain ⟨a, rfl, ha⟩ := exists_standsFor l y 1
        refine ⟨.node .mul a b, z, rfl, hz, ?_⟩
        rw [isProduct_shape] at hproduct
        rw [value, ha.value_eq, behind_one, ha.behind_eq 1 (Nat.le_refl 1), Int.one_mul, joined,
          if_pos ⟨rfl, hproduct⟩]
        exact hapart
      · -- the right operand makes a difference behind a left one made for it
        obtain ⟨b, z, rfl, hz, hapart⟩ := ihr hr (bound + 1)
        obtain ⟨n, z', hmul, hz', hcompute, hvoid⟩ := op.exists_left bound hz
        obtain ⟨a, rfl, ha⟩ := exists_standsFor l n 1
        refine ⟨.node op a b, z', rfl, hz', ?_⟩
        have hjoined : joined op (some n) b.isProduct (b.behind some)
            = op.compute (some n) (b.behind some (some 1)) := by
          unfold joined
          split
          · next hproduct =>
            obtain ⟨rfl, -⟩ := hproduct
            rw [hmul rfl, ArithmeticOp.one_mul]
          · rfl
        rw [value, ha.value_eq, behind_one, ha.behind_eq 1 (Nat.le_refl 1), Int.one_mul, hjoined]
        exact hapart.map (op.compute_none_right _) hvoid hcompute
    · -- the left operand makes a difference that the right one lets through
      obtain ⟨a, z, rfl, hz, hapart⟩ := ihl hl bound
      obtain ⟨m, hm⟩ := op.exists_neutral z.natAbs
      obtain ⟨b, rfl, hb⟩ := exists_standsFor r m (z.natAbs + 1)
      refine ⟨.node op a b, z, rfl, hz, ?_⟩
      have hright := hb.joined_eq (Nat.le_add_left 1 _) op fun w hw =>
        (hapart.natAbs_le w hw).trans (Nat.le_succ _)
      rw [value, hb.value_eq, behind_one, hright]
      exact hapart.map (f := fun w => op.compute w (some m)) rfl (.inr (hm 0 (Nat.zero_le _)))
        (hm z (Nat.le_refl _))

/-! ## All texts

The operands that were chosen are integers, and integers are columns whose
names say what they hold. With this the result about shapes becomes one about
formulas and their texts. -/

theorem shape_map {α β : Type} (f : α → β) (e : Formula α) : (e.map f).shape = e.shape := by
  induction e with
  | leaf a => rfl
  | node op l r ihl ihr => exact congrArg₂ (node op) ihl ihr

theorem value_map {α β : Type} (f : α → β) (v : β → Option Int) (e : Formula α) :
    (e.map f).value v = e.value (v ∘ f) := by
  induction e with
  | leaf a => rfl
  | node op l r ihl ihr => exact congrArg₂ op.compute ihl ihr

theorem isProduct_map {α β : Type} (f : α → β) (e : Formula α) :
    (e.map f).isProduct = e.isProduct := by
  rw [← isProduct_shape, shape_map, isProduct_shape]

theorem behind_map {α β : Type} (f : α → β) (v : β → Option Int) (e : Formula α)
    (x : Option Int) : (e.map f).behind v x = e.behind (v ∘ f) x := by
  induction e generalizing x with
  | leaf a => rfl
  | node op l r ihl ihr =>
    have hr : (r.map f).behind v = r.behind (v ∘ f) := funext ihr
    rw [map, behind, behind, ihl, ihl, isProduct_map, hr]

theorem divided_shape {α : Type} (e : Formula α) : e.shape.divided = e.divided := by
  induction e with
  | leaf a => rfl
  | node op l r ihl ihr =>
    cases op
    case mul => exact ihl
    all_goals rfl

/-- Whether a formula is undivided depends on its shape only. -/
theorem undivided_shape {α : Type} (e : Formula α) : e.shape.Undivided ↔ e.Undivided := by
  induction e with
  | leaf a => exact Iff.rfl
  | node op l r ihl ihr =>
    show l.shape.Undivided ∧ r.shape.Undivided ∧
        (op = .mul → r.shape.isProduct = true → r.shape.divided = false) ↔ _
    rw [ihl, ihr, isProduct_shape, divided_shape]
    exact Iff.rfl

end Formula

/-- A column that is named by its value. -/
def IntegerOperand.ofInt (n : Int) : IntegerOperand := .column ⟨"t"⟩ ⟨integerText n⟩

/-- Columns that hold what their names say. -/
def namedValues (_ name : Identifier) : Int := (readInteger? name.name.toList).getD 0

theorem IntegerOperand.value_ofInt (n : Int) :
    (IntegerOperand.ofInt n).value namedValues = some n := by
  show some ((readInteger? (integerText n).toList).getD 0) = some n
  rw [readInteger?_integerText]
  rfl

namespace Formula

/-- **When the text of arithmetic is worth what was written**: exactly when no
product on the right of a product has a quotient or remainder at its left
end. -/
theorem textValue_eq_iff (e : Formula IntegerOperand) :
    (∀ e' : Formula IntegerOperand, e'.shape = e.shape → ∀ env,
      textValue env e'.term.sql.text.toList = some (e'.value (IntegerOperand.value env))) ↔
      e.Undivided := by
  constructor
  · intro h
    refine Classical.byContradiction fun hdivided => ?_
    rw [← undivided_shape] at hdivided
    obtain ⟨d, z, hd, hz, hapart⟩ := exists_apart e.shape hdivided 1
    have hvalues : IntegerOperand.value namedValues ∘ IntegerOperand.ofInt = some :=
      funext IntegerOperand.value_ofInt
    have htext := h (d.map IntegerOperand.ofInt) ((shape_map _ d).trans hd) namedValues
    rw [textValue_text, behind_map, value_map, hvalues] at htext
    exact hapart.ne (by omega) (Option.some.inj htext).symm
  · intro h e' he' env
    have hundivided : e'.Undivided := by
      rw [← undivided_shape, he', undivided_shape]
      exact h
    rw [textValue_text, behind_eq _ e' hundivided _ (.inl rfl), ArithmeticOp.one_mul]

/-- Two times the half of one, taken three times, is nothing, and its text is
worth three. -/
theorem textValue_two_mul_half :
    ∃ e : Formula IntegerOperand, e.term.sql.text = "2 * 1 / 2 * 3" ∧ ∀ env,
      e.value (IntegerOperand.value env) = some 0 ∧
      textValue env e.term.sql.text.toList = some (some 3) := by
  refine ⟨.node .mul (.leaf (.literal .long rfl 2)) (.node .mul (.node .div
    (.leaf (.literal .long rfl 1)) (.leaf (.literal .long rfl 2)))
    (.leaf (.literal .long rfl 3))), by decide, fun env => ⟨rfl, ?_⟩⟩
  rw [textValue_text]
  rfl

end Formula

end TypedSql

import TypedSql.Proofs.Term.Tree

/-!
# Where the printer sets operands off

The rule of the printer for parentheses (`needsParentheses`), told by how tightly
operators bind. An operand that is not set off binds at least as tightly as its
operator, and on the right it binds tighter or repeats the operator in a chain
that may be grouped either way.
-/

namespace TypedSql

namespace BinaryOp

/-- The printer and the reader have the same order of the operators. -/
theorem precedence_eq_level (op : BinaryOp) : op.precedence = op.level := by
  cases op <;> rfl

theorem level_pos (op : BinaryOp) : 0 < op.level := by
  cases op <;> decide

theorem level_ne_negation (op : BinaryOp) : op.level ≠ Term.negation := by
  cases op <;> decide

theorem level_lt_primary (op : BinaryOp) : op.level < Term.primary := by
  cases op <;> decide

/-- The two connectives bind differently. -/
theorem precedence_ne_of_isConnective {op p : BinaryOp} (hop : op.isConnective = true)
    (hp : p.isConnective = true) (h : p ≠ op) : p.precedence ≠ op.precedence := by
  revert hop hp h
  cases op <;> cases p <;> decide

/-- The operators that the printer sets off least are those whose chains may
be grouped either way. -/
theorem isAssociative_iff (op : BinaryOp) : op.isAssociative = true ↔ op ∈ chained := by
  cases op <;> decide

end BinaryOp

namespace Term

theorem precedence_pos (t : Term) : 0 < t.precedence := by
  cases t
  case binary op l r => exact Nat.lt_of_lt_of_eq op.level_pos op.precedence_eq_level.symm
  all_goals exact Nat.succ_pos _

/-- An operand that is set off, or binds more loosely than an operator may
have on its left, is not one of the level. -/
theorem precedence_ne_of_needsParentheses {op : BinaryOp} {t : Term}
    (h : needsParentheses op t false = true) : t.precedence ≠ op.precedence := by
  intro heq
  simp only [needsParentheses, heq, Bool.false_and, if_true, Bool.or_false,
    Bool.and_eq_true, Option.any_eq_true, bne_iff_ne] at h
  obtain ⟨hop, p, hp, hconnective, hne⟩ := h
  have hprecedence := BinaryOp.precedence_ne_of_isConnective hop hconnective hne
  cases t
  case binary q l r =>
    rw [← Option.some.inj hp] at hprecedence
    exact hprecedence heq
  all_goals cases hp

theorem precedence_le_of_not_needsParentheses {op : BinaryOp} {t : Term} {onRight : Bool}
    (h : needsParentheses op t onRight = false) : op.precedence ≤ t.precedence := by
  refine Nat.le_of_not_lt fun hlt => ?_
  rw [needsParentheses, if_neg (Nat.ne_of_lt hlt), decide_eq_true hlt, Bool.or_true] at h
  cases h

/-- **An operand on the right that is not set off** binds tighter, or repeats
an operator whose chains may be grouped either way. -/
theorem right_of_not_needsParentheses {op : BinaryOp} {t : Term}
    (h : needsParentheses op t true = false) :
    op.precedence < t.precedence ∨ op ∈ BinaryOp.chained ∧ t.op? = some op := by
  rcases Nat.eq_or_lt_of_le (precedence_le_of_not_needsParentheses h) with heq | hlt
  · rw [needsParentheses, if_pos heq.symm, Bool.true_and, Bool.or_eq_false_iff,
      Bool.not_eq_false', Bool.and_eq_true, beq_iff_eq, BinaryOp.isAssociative_iff] at h
    exact .inr h.2
  · exact .inl hlt

/-- **An operand on the right that is set off** does not repeat an operator
whose chains may be grouped either way. -/
theorem not_chained_of_needsParentheses {op : BinaryOp} {t : Term}
    (h : needsParentheses op t true = true) : ¬(op ∈ BinaryOp.chained ∧ t.op? = some op) := by
  rintro ⟨hop, ht⟩
  cases t
  case binary q l r =>
    obtain rfl := Option.some.inj ht
    rw [← BinaryOp.isAssociative_iff] at hop
    simp [needsParentheses, Term.op?, Term.precedence, hop] at h
  all_goals cases ht

/-- A term binds as tightly as the operator at its root. -/
theorem precedence_of_op? {t : Term} {op : BinaryOp} (h : t.op? = some op) :
    t.precedence = op.level := by
  cases t
  case binary q l r =>
    rw [← Option.some.inj h]
    exact q.precedence_eq_level
  all_goals cases h

/-- **In a conjunction an OR is set off, and nothing else.** -/
theorem needsParentheses_and (t : Term) (onRight : Bool) :
    needsParentheses .and t onRight = (t.op? == some .or) := by
  cases t with
  | binary op l r => cases op <;> cases onRight <;> rfl
  | _ => rfl

end Term

end TypedSql

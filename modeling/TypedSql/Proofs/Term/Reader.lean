import TypedSql.Proofs.Term.Grammar

/-!
# The steps of the reader

What the reader does with the frames that have been begun, told by how
tightly the innermost of them binds (`Reader.floor`). Frames that bind looser
than what comes stay as they are (`Reader.reduce_of_floor_lt`); a frame that
needs one more operand takes it as soon as nothing comes that binds tighter
(`Reader.operator_fill`). A query is read up to its parenthesis, whatever is
in it (`Reader.query_append`).
-/

namespace TypedSql

namespace Reader

/-! ## The stack

Most lemmas do not look at the stack itself. What they need of it is how
tightly its innermost frame binds, and a frame that binds looser than what is
read next is not touched. -/

/-- How tightly what has been begun binds what comes next. -/
def floor : List Frame → Nat
  | [] => 0
  | frame :: _ => frame.level

/-- Frames that bind looser are not ended. -/
theorem reduce_of_floor_lt {level : Nat} {stack : List Frame} (h : floor stack < level)
    (x : Tree) : reduce level stack x = (stack, x) := by
  cases stack with
  | nil => rfl
  | cons frame stack =>
    rw [reduce]
    split
    · exact if_neg (Nat.not_le.mpr h)
    · rfl

theorem reduce_of_fill?_eq_none {frame : Frame} {x : Tree} (h : frame.fill? x = none)
    (level : Nat) (stack : List Frame) :
    reduce level (frame :: stack) x = (frame :: stack, x) := by
  rw [reduce, h]

/-- A frame that binds as tightly is ended. -/
theorem reduce_of_fill? {frame : Frame} {x y : Tree} (h : frame.fill? x = some y) {level : Nat}
    (hlevel : level ≤ frame.level) (stack : List Frame) :
    reduce level (frame :: stack) x = reduce level stack y := by
  rw [reduce, h]
  exact if_pos hlevel

/-- Behind an operator that binds tighter than all that has been begun there
is one frame more. -/
theorem shift_of_floor_lt {op : BinaryOp} {stack : List Frame} (h : floor stack < op.level)
    (x : Tree) : shift op (stack, x) = .left op x :: stack := by
  cases stack with
  | nil => rfl
  | cons frame stack =>
    cases frame
    case low t =>
      have hop : op ≠ .and := by
        rintro rfl
        exact absurd h (show ¬ test < 2 by decide)
      exact if_neg hop
    all_goals rfl

/-- An operator that binds tighter than all that has been begun waits for its
right operand. -/
theorem operator_op_of_floor_lt {op : BinaryOp} {stack : List Frame}
    (h : floor stack < op.level) (x : Tree) (ts : List Token) :
    operator stack x (.op op :: ts) = operand (.left op x :: stack) ts := by
  rw [operator_op, reduce_of_floor_lt h, shift_of_floor_lt h]

/-! ## What follows

An operand ends where something comes that binds no tighter than its level
allows. `Reader.Follows` says so of the tokens that are left, and it is the
only thing that has to be known about them. -/

/-- How tightly a token binds that may come behind an operand. -/
def grip? : Token → Option Nat
  | .op op => some op.level
  | .is | .between | .member | .not => some test
  | .comma | .closing => some 0
  | _ => none

/-- **Tokens that leave an operand alone** which binds as tightly as
`level`. -/
def Follows (level : Nat) (ts : List Token) : Prop :=
  ∀ t, ts.head? = some t → ∃ g, grip? t = some g ∧ g ≤ level

theorem follows_nil (level : Nat) : Follows level [] := nofun

theorem follows_cons {level g : Nat} {t : Token} (h : grip? t = some g) (hg : g ≤ level)
    (ts : List Token) : Follows level (t :: ts) := by
  intro u hu
  rw [← Option.some.inj hu]
  exact ⟨g, h, hg⟩

theorem Follows.mono {level level' : Nat} {ts : List Token} (h : Follows level ts)
    (hlevel : level ≤ level') : Follows level' ts := fun t ht =>
  let ⟨g, hg, hle⟩ := h t ht
  ⟨g, hg, Nat.le_trans hle hlevel⟩

/-- **A frame takes the operand** when nothing that binds tighter follows. -/
theorem operator_fill {frame : Frame} {x y : Tree} (h : frame.fill? x = some y)
    {ts : List Token} (hts : Follows frame.level ts) (stack : List Frame) :
    operator (frame :: stack) x ts = operator stack y ts := by
  cases ts with
  | nil => rw [operator, operator, reduce_of_fill? h (Nat.zero_le _)]
  | cons t ts =>
    obtain ⟨g, hg, hle⟩ := hts t rfl
    have hreduce := reduce_of_fill? h hle stack
    cases t <;> cases hg
    all_goals
      unfold operator
      simp only [hreduce]

theorem query_cons_of_isFlat {t : Token} (h : t.IsFlat) (head : QueryHead)
    (stack : List Frame) (done : List Token) (depth : Nat) (ts : List Token) :
    query head stack done depth (t :: ts) = query head stack (done ++ [t]) depth ts := by
  obtain ⟨hopening, hclosing⟩ := h
  cases t
  case opening => exact absurd rfl hopening
  case closing => exact absurd rfl hclosing
  all_goals cases depth <;> rfl

/-- **A query is read up to the parenthesis that closes it.** -/
theorem query_append {depth depth' : Nat} {ts : List Token}
    (h : Token.nest depth ts = some depth') (head : QueryHead) (stack : List Frame)
    (done rest : List Token) :
    query head stack done depth (ts ++ rest) = query head stack (done ++ ts) depth' rest := by
  induction ts generalizing depth done with
  | nil =>
    rw [show depth = depth' from Option.some.inj h, List.nil_append, List.append_nil]
  | cons t ts ih =>
    rw [List.cons_append, List.append_cons]
    rcases t.isFlat_or with hflat | rfl | rfl
    · rw [Token.nest_cons_of_isFlat hflat] at h
      rw [query_cons_of_isFlat hflat, ih h]
    · rw [query_opening, ih h]
    · cases depth with
      | zero => cases h
      | succ depth => rw [query, ih h]

/-! ## Behind an operand

One step for each word or sign that may come behind an operand and is no binary
operator. -/

section Test

variable {stack : List Frame} (h : floor stack < test) (x : Tree) (ts : List Token)

include h

theorem operator_is_null :
    operator stack x (.is :: .null :: ts) = operator stack (.isNull x false) ts := by
  simp only [operator, reduce_of_floor_lt h]

theorem operator_is_not_null :
    operator stack x (.is :: .not :: .null :: ts) = operator stack (.isNull x true) ts := by
  simp only [operator, reduce_of_floor_lt h]

theorem operator_between :
    operator stack x (.between :: ts) = operand (.low x :: stack) ts := by
  simp only [operator, reduce_of_floor_lt h]

theorem operator_member :
    operator stack x (.member :: .opening :: ts)
      = operand (.list (.inList x false) [] :: stack) ts := by
  simp only [operator, reduce_of_floor_lt h]

theorem operator_not_member :
    operator stack x (.not :: .member :: .opening :: ts)
      = operand (.list (.inList x true) [] :: stack) ts := by
  simp only [operator, reduce_of_floor_lt h]

end Test

/-- The `AND` of a `BETWEEN`. -/
theorem operator_low_and (t x : Tree) (stack : List Frame) (ts : List Token) :
    operator (.low t :: stack) x (.op .and :: ts) = operand (.high t x :: stack) ts := by
  rw [operator_op, reduce_of_fill?_eq_none rfl]
  rfl

theorem operator_group_closing (x : Tree) (stack : List Frame) (ts : List Token) :
    operator (.group :: stack) x (.closing :: ts) = operator stack x ts := by
  rw [operator, reduce_of_fill?_eq_none rfl]

theorem operator_list_closing (head : ListHead) (done : List Tree) (x : Tree)
    (stack : List Frame) (ts : List Token) :
    operator (.list head done :: stack) x (.closing :: ts)
      = operator stack (head.tree (done ++ [x])) ts := by
  rw [operator, reduce_of_fill?_eq_none rfl]

theorem operator_list_comma (head : ListHead) (done : List Tree) (x : Tree)
    (stack : List Frame) (ts : List Token) :
    operator (.list head done :: stack) x (.comma :: ts)
      = operand (.list head (done ++ [x]) :: stack) ts := by
  rw [operator, reduce_of_fill?_eq_none rfl]

end Reader

end TypedSql

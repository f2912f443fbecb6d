import TypedSql.Proofs.Sql.Token

/-!
# Reading an expression

What the text of an expression says to a reader who knows the order of the
operators and nothing else. The reader goes over the tokens once, from the
left. Everything that has been begun and not ended – an operator that waits
for its right operand, an open parenthesis, a list – is a `Frame`, and the
frames form a stack with the innermost on top.

An operator takes what is on its left as soon as it comes, and so ends all
frames on top of the stack that bind as tightly as it does, or tighter
(`Reader.reduce`): that is what the order of the operators means, and that
they group to the left. Only the `AND` of a `BETWEEN` is found by its frame.
A query in parentheses is one operand, and its tokens are taken as they
are.
-/

namespace TypedSql

/-- **What a text says**: the tree of an expression without the types of its
values. A query is kept as its tokens. -/
inductive Tree where
  /-- The missing value. -/
  | null
  /-- A number with its sign. -/
  | number (cs : List Char)
  /-- A text. -/
  | text (cs : List Char)
  /-- Bytes, by their digits. -/
  | blob (digits : List Char)
  /-- A placeholder. -/
  | slot
  /-- A name by itself. -/
  | name (i : Identifier)
  /-- A column of a source. -/
  | column (source column : Identifier)
  /-- A column of the row that a trigger is about. -/
  | rowColumn (row : RowScope) (column : Identifier)
  /-- Negation. -/
  | not (operand : Tree)
  /-- Whether a value is missing, or whether it is there. -/
  | isNull (operand : Tree) (negated : Bool)
  /-- A binary operator. -/
  | binary (op : BinaryOp) (left right : Tree)
  /-- Whether a value lies between two others. -/
  | between (operand low high : Tree)
  /-- Whether a value is one of a list. -/
  | inList (operand : Tree) (items : List Tree) (negated : Bool)
  /-- Whether a value is one of the rows of a query. -/
  | inQuery (operand : Tree) (query : List Token) (negated : Bool)
  /-- Whether a query has rows. -/
  | exists (query : List Token)
  /-- A function, perhaps of different values only. -/
  | call (f : List Char) (distinct : Bool) (arguments : List Tree)
  /-- A function of rows. -/
  | star (f : List Char)
  /-- The value of a query. -/
  | scalar (query : List Token)

/-- **The order of the operators**, from the loosest on; negation stands
between `AND` and the comparisons. -/
def BinaryOp.level : BinaryOp → Nat
  | .or => 1
  | .and => 2
  | .eq | .ne | .like | .glob => 4
  | .lt | .le | .gt | .ge => 5
  | .add | .sub => 6
  | .mul | .div | .rem => 7
  | .concat => 8

namespace Reader

/-- The level of a negation. -/
def negation : Nat := 3

/-- The level of `IS NULL`, `BETWEEN` and `IN`. -/
def test : Nat := 4

/-! ## Frames

A frame is what has been begun, with all that it has got so far. Its level is
how tightly it holds on to the operand that is read next: a parenthesis holds
nothing, and a negation less than a comparison. -/

/-- **What stands in front of a list.** -/
inductive ListHead where
  /-- A value that may be one of the list. -/
  | inList (t : Tree) (negated : Bool)
  /-- A function. -/
  | call (f : List Char) (distinct : Bool)

/-- The tree of a list that has ended. -/
def ListHead.tree : ListHead → List Tree → Tree
  | .inList t negated, items => .inList t items negated
  | .call f distinct, arguments => .call f distinct arguments

/-- **What stands in front of a query.** -/
inductive QueryHead where
  /-- A value that may be one of the rows. -/
  | inQuery (t : Tree) (negated : Bool)
  /-- The question whether there are rows. -/
  | exists
  /-- Nothing. -/
  | scalar

/-- The tree of a query that has ended. -/
def QueryHead.tree : QueryHead → List Token → Tree
  | .inQuery t negated, query => .inQuery t query negated
  | .exists, query => .exists query
  | .scalar, query => .scalar query

/-- **What has been begun.** -/
inductive Frame where
  /-- A negation without its operand. -/
  | not
  /-- A binary operator without its right operand. -/
  | left (op : BinaryOp) (l : Tree)
  /-- `BETWEEN` without its bounds. -/
  | low (t : Tree)
  /-- `BETWEEN` without its upper bound. -/
  | high (t lower : Tree)
  /-- An open parenthesis. -/
  | group
  /-- A list and what is in it already. -/
  | list (head : ListHead) (done : List Tree)

namespace Frame

/-- How tightly a frame binds what comes next. -/
def level : Frame → Nat
  | .not => negation
  | .left op _ => op.level
  | .low _ | .high _ _ => test
  | .group | .list _ _ => 0

/-- The tree of a frame that needs nothing but one more operand. -/
def fill? : Frame → Tree → Option Tree
  | .not, x => some (.not x)
  | .left op l, x => some (.binary op l x)
  | .high t lower, x => some (.between t lower x)
  | .low _, _ | .group, _ | .list _ _, _ => none

end Frame

/-- **Ends the frames on top** that bind at least as tightly as `level`. -/
def reduce (level : Nat) : List Frame → Tree → List Frame × Tree
  | [], x => ([], x)
  | frame :: stack, x =>
    match frame.fill? x with
    | some y => if level ≤ frame.level then reduce level stack y else (frame :: stack, x)
    | none => (frame :: stack, x)

/-- The stack behind a binary operator: a new frame, or that of the `BETWEEN`
to which an `AND` belongs. -/
def shift (op : BinaryOp) : List Frame × Tree → List Frame
  | (.low t :: stack, x) => if op = .and then .high t x :: stack else .left op x :: .low t :: stack
  | (stack, x) => .left op x :: stack

/-! ## Reading

The reader is in one of three places. Where an operand is due it looks for what
may begin one; behind an operand, for an operator or the end of what has been
begun; and inside a query, for the parenthesis that ends it. -/

mutual

/-- **Reads where an operand is due.** -/
def operand : List Frame → List Token → Option Tree
  | stack, .null :: ts => operator stack .null ts
  | stack, .number cs :: ts => operator stack (.number cs) ts
  | stack, .op .sub :: .number cs :: ts => operator stack (.number ('-' :: cs)) ts
  | stack, .text cs :: ts => operator stack (.text cs) ts
  | stack, .blob digits :: ts => operator stack (.blob digits) ts
  | stack, .slot :: ts => operator stack .slot ts
  | stack, .name i :: .dot :: .name j :: ts => operator stack (.column i j) ts
  | stack, .name i :: ts => operator stack (.name i) ts
  | stack, .scope row :: .dot :: .name i :: ts => operator stack (.rowColumn row i) ts
  | stack, .not :: ts => operand (.not :: stack) ts
  | stack, .exists :: .opening :: .select :: ts => query .exists stack [.select] 0 ts
  | stack, .word f :: .opening :: ts => operand (.list (.call f false) [] :: stack) ts
  | stack, .opening :: ts => operand (.group :: stack) ts
  | .group :: stack, .select :: ts => query .scalar stack [.select] 0 ts
  | .list (.inList t negated) [] :: stack, .select :: ts =>
    query (.inQuery t negated) stack [.select] 0 ts
  | .list (.call f false) [] :: stack, .distinct :: ts =>
    operand (.list (.call f true) [] :: stack) ts
  | .list (.call f false) [] :: stack, .op .mul :: .closing :: ts => operator stack (.star f) ts
  | .list head [] :: stack, .closing :: ts => operator stack (head.tree []) ts
  | _, _ => none

/-- **Reads behind an operand.** -/
def operator : List Frame → Tree → List Token → Option Tree
  | stack, x, [] =>
    match reduce 0 stack x with
    | ([], y) => some y
    | _ => none
  | stack, x, .op op :: ts => operand (shift op (reduce op.level stack x)) ts
  | stack, x, .is :: ts =>
    match reduce test stack x, ts with
    | (outer, y), .null :: ts => operator outer (.isNull y false) ts
    | (outer, y), .not :: .null :: ts => operator outer (.isNull y true) ts
    | _, _ => none
  | stack, x, .between :: ts =>
    match reduce test stack x with
    | (outer, y) => operand (.low y :: outer) ts
  | stack, x, .member :: ts =>
    match reduce test stack x, ts with
    | (outer, y), .opening :: ts => operand (.list (.inList y false) [] :: outer) ts
    | _, _ => none
  | stack, x, .not :: ts =>
    match reduce test stack x, ts with
    | (outer, y), .member :: .opening :: ts => operand (.list (.inList y true) [] :: outer) ts
    | _, _ => none
  | stack, x, .comma :: ts =>
    match reduce 0 stack x with
    | (.list head done :: outer, y) => operand (.list head (done ++ [y]) :: outer) ts
    | _ => none
  | stack, x, .closing :: ts =>
    match reduce 0 stack x with
    | (.group :: outer, y) => operator outer y ts
    | (.list head done :: outer, y) => operator outer (head.tree (done ++ [y])) ts
    | _ => none
  | _, _, _ => none

/-- **Reads inside a query** up to the parenthesis that ends it. -/
def query : QueryHead → List Frame → List Token → Nat → List Token → Option Tree
  | _, _, _, _, [] => none
  | head, stack, done, depth, .opening :: ts =>
    query head stack (done ++ [.opening]) (depth + 1) ts
  | head, stack, done, 0, .closing :: ts => operator stack (head.tree done) ts
  | head, stack, done, depth + 1, .closing :: ts =>
    query head stack (done ++ [.closing]) depth ts
  | head, stack, done, depth, t :: ts => query head stack (done ++ [t]) depth ts

end

/-! ## Steps

Three of the rules, one for each of the places where the reader can be. -/

theorem operand_opening (stack : List Frame) (ts : List Token) :
    operand stack (.opening :: ts) = operand (.group :: stack) ts := by
  rw [operand]

theorem operator_op (op : BinaryOp) (stack : List Frame) (x : Tree) (ts : List Token) :
    operator stack x (.op op :: ts) = operand (shift op (reduce op.level stack x)) ts := by
  rw [operator]

theorem query_opening (head : QueryHead) (stack : List Frame) (done : List Token) (depth : Nat)
    (ts : List Token) :
    query head stack done depth (.opening :: ts)
      = query head stack (done ++ [.opening]) (depth + 1) ts := by
  rw [query]

end Reader

/-- **Reads an expression.** -/
def Tree.read? (cs : List Char) : Option Tree := Reader.operand [] (Token.lex cs)

end TypedSql

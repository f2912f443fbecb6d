import TypedSql.Term.Printer

/-!
# Expressions

An expression is a term with an identity and a codec. The identity is what
a result column is found by: an expression that was selected is asked for
later, and two expressions with the same text are still two. The codec is
the one its value is read with.

Identities come from a supply. Every operation that makes a new expression
takes the next number from it; reading an expression as nullable, or
reaching a column again, keeps the identity it has.

Operations that combine an expression with another operand take an
`Operand`: another expression, a value or a placeholder, the last two of
the codec of the expression on the left.
-/

namespace TypedSql

/-! ## Identities -/

/-- **The identity of an expression.** -/
abbrev ExprId := Nat

/-- A computation that may take new identities. -/
abbrev Fresh := StateM ExprId

/-- Takes a new identity. -/
def fresh : Fresh ExprId := modifyGet fun n => (n, n + 1)

/-! ## Expressions -/

/-- **An expression.** -/
structure Expr where
  /-- What its result column is found by. -/
  id : ExprId
  /-- What is computed. -/
  term : Term
  /-- The codec under which a named query that selects the expression offers
  it again. -/
  offered : Codec
  /-- The codec its value is read with. -/
  codec : Codec

/-- **What stands on the right** of an operator whose left operand has the
codec `c`. -/
inductive Operand (c : Codec) where
  /-- Another expression. -/
  | expr (e : Expr)
  /-- A value, written into the statement. -/
  | value (v : c.Value)
  /-- A placeholder. -/
  | slot

/-- The term of an operand. -/
def Operand.term {c : Codec} : Operand c → Term
  | .expr e => e.term
  | .value v => .literal c v
  | .slot => .slot c

namespace Expr

/-- A new expression of a codec. -/
def ofTerm (term : Term) (c : Codec) : Fresh Expr := do
  return { id := ← fresh, term, offered := c, codec := c }

/-- A value as an expression. -/
def value (c : Codec) (v : c.Value) : Fresh Expr := ofTerm (.literal c v) c

/-- A placeholder. -/
def placeholder (c : Codec) : Fresh Expr := ofTerm (.slot c) c

/-- The text of the expression. -/
def sql (e : Expr) : Sql := e.term.sql

/-- The same expression, its value read as one that may be missing. -/
def asNullable (e : Expr) : Expr := { e with codec := e.codec.toNullable }

/-! ### Truth values -/

/-- A new expression that is true or false. -/
def predicate (t : Term) : Fresh Expr := ofTerm t .bool

/-- Both hold. -/
def and (e f : Expr) : Fresh Expr := predicate (.binary .and e.term f.term)

/-- At least one holds. -/
def or (e f : Expr) : Fresh Expr := predicate (.binary .or e.term f.term)

/-- The opposite holds. -/
def not (e : Expr) : Fresh Expr := predicate (.not e.term)

/-- A comparison. -/
def compare (op : BinaryOp) (e : Expr) (o : Operand e.codec) : Fresh Expr :=
  predicate (.binary op e.term o.term)

/-- Whether a value is missing, or whether it is there. -/
def isNull (e : Expr) (negated : Bool) : Fresh Expr := predicate (.isNull e.term negated)

/-- Whether a value lies between two others, both included. -/
def between (e : Expr) (low high : Operand e.codec) : Fresh Expr :=
  predicate (.between e.term low.term high.term)

/-- Whether a value is one of a list. -/
def inList (e : Expr) (items : List (Operand e.codec)) (negated : Bool) : Fresh Expr :=
  predicate (.inList e.term (items.map Operand.term) negated)

/-- Whether a value is one of the rows of a query. -/
def inQuery (e : Expr) (query : SelectTerm) (negated : Bool) : Fresh Expr :=
  predicate (.inQuery e.term query negated)

/-- Whether a query has rows. -/
def exists? (query : SelectTerm) (negated : Bool) : Fresh Expr :=
  predicate (.exists query negated)

/-! ### Values -/

/-- Arithmetic, and putting texts together. -/
def arithmetic (op : BinaryOp) (e : Expr) (o : Operand e.codec) : Fresh Expr :=
  ofTerm (.binary op e.term o.term) e.codec

/-- A function that keeps the type of its argument. -/
def call (f : ScalarFunction) (e : Expr) : Fresh Expr := ofTerm (.call f [e.term]) e.codec

/-- How long a text is. -/
def length (e : Expr) : Fresh Expr := ofTerm (.call .length [e.term]) .long

/-- The value, or another one where it is missing. -/
def coalesce (e : Expr) (o : Operand e.codec) : Fresh Expr :=
  ofTerm (.call .coalesce [e.term, o.term]) e.codec

/-- The greatest value, the least one or the sum of all. -/
def aggregate (f : AggregateFunction) (e : Expr) : Fresh Expr :=
  ofTerm (.aggregate f e.term) e.codec

/-- How many values there are. -/
def count (e : Expr) : Fresh Expr := ofTerm (.aggregate .count e.term) .long

/-- The mean of all values, missing when there are none. -/
def avg (e : Expr) : Fresh Expr := ofTerm (.aggregate .avg e.term) (.nullable .real)

/-- How many different values there are. -/
def countDistinct (e : Expr) : Fresh Expr := ofTerm (.countDistinct e.term) .long

/-- How many rows there are. -/
def countStar : Fresh Expr := ofTerm .countStar .long

/-- All values put together. -/
def groupConcat (e : Expr) (separator : Option String) : Fresh Expr :=
  ofTerm (.groupConcat e.term separator) (.nullable .text)

/-- The value of a query of one row, read with a given codec. -/
def scalar (query : SelectTerm) (c : Codec) : Fresh Expr := ofTerm (.scalar query) c

end Expr

/-! ## Items -/

/-- **An expression with a name** in a select list. Elsewhere in the same
query it is referred to by that name. -/
structure NamedExpr where
  /-- The name. -/
  name : Identifier
  /-- What is selected. -/
  aliased : Expr
  /-- What refers to it. -/
  reference : Expr

/-- Gives an expression a name. -/
def Expr.as (e : Expr) (name : Identifier) : Fresh NamedExpr := do
  return { name, aliased := e, reference := ← Expr.ofTerm (.reference name) e.codec }

/-- **An item of a select list.** -/
inductive Item where
  /-- An expression by itself. -/
  | plain (e : Expr)
  /-- An expression with a name. -/
  | named (a : NamedExpr)

namespace Item

/-- What is selected. -/
def expr : Item → Expr
  | .plain e => e
  | .named a => a.aliased

/-- What the item is found by, and what sorting and grouping refer to. -/
def key : Item → Expr
  | .plain e => e
  | .named a => a.reference

/-- The name the item was given. -/
def alias? : Item → Option Identifier
  | .plain _ => none
  | .named a => some a.name

/-- The name of the result column: the one it was given, or that of the
column it is. -/
def exposedName? (i : Item) : Option Identifier :=
  i.alias?.or i.expr.term.columnName?

/-- The item as a part of a query. -/
def entry (i : Item) : Term × Option Identifier := (i.expr.term, i.alias?)

end Item

end TypedSql

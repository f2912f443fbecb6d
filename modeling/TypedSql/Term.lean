import TypedSql.Sql

/-!
# Terms

The expressions of the language, with the queries that stand inside them,
as trees. A term says what is computed and nothing about how it is written:
there are no parentheses in it, and a name is a name with whatever
characters it has.

Four kinds of trees refer to each other. A `Term` may hold a query as an
operand, a `SelectTerm` reads from a `FromTerm`, and a `FromTerm` is a
table, a query with a name, or a chain of joins whose links are
`JoinTerm`s.
-/

namespace TypedSql

/-! ## Operators and functions -/

/-- **The binary operators.** -/
inductive BinaryOp where
  /-- At least one holds. -/
  | or
  /-- Both hold. -/
  | and
  /-- Equal. -/
  | eq
  /-- Not equal. -/
  | ne
  /-- Less. -/
  | lt
  /-- Less or equal. -/
  | le
  /-- Greater. -/
  | gt
  /-- Greater or equal. -/
  | ge
  /-- Matches a pattern with percent signs. -/
  | like
  /-- Matches a pattern with stars. -/
  | glob
  /-- Sum. -/
  | add
  /-- Difference. -/
  | sub
  /-- Product. -/
  | mul
  /-- Quotient. -/
  | div
  /-- Remainder. -/
  | rem
  /-- Texts put together. -/
  | concat
deriving DecidableEq, Repr

namespace BinaryOp

/-- The sign or word of the operator. -/
def sql : BinaryOp → String
  | .or => "OR"
  | .and => "AND"
  | .eq => "="
  | .ne => "!="
  | .lt => "<"
  | .le => "<="
  | .gt => ">"
  | .ge => ">="
  | .like => "LIKE"
  | .glob => "GLOB"
  | .add => "+"
  | .sub => "-"
  | .mul => "*"
  | .div => "/"
  | .rem => "%"
  | .concat => "||"

/-- How tightly the operator binds; a higher number binds tighter. -/
def precedence : BinaryOp → Nat
  | .or => 1
  | .and => 2
  | .eq | .ne | .like | .glob => 4
  | .lt | .le | .gt | .ge => 5
  | .add | .sub => 6
  | .mul | .div | .rem => 7
  | .concat => 8

/-- Whether the operator connects truth values. -/
def isConnective : BinaryOp → Bool
  | .and | .or => true
  | _ => false

/-- Whether a chain of the operator may be grouped either way. -/
def isAssociative : BinaryOp → Bool
  | .and | .or | .add | .mul | .concat => true
  | _ => false

end BinaryOp

/-- **The functions of one row.** -/
inductive ScalarFunction where
  /-- Small letters. -/
  | lower
  /-- Capital letters. -/
  | upper
  /-- How long a text is. -/
  | length
  /-- The absolute value. -/
  | abs
  /-- The first value that is there. -/
  | coalesce
deriving DecidableEq, Repr

/-- The name of the function. -/
def ScalarFunction.sql : ScalarFunction → String
  | .lower => "LOWER"
  | .upper => "UPPER"
  | .length => "LENGTH"
  | .abs => "ABS"
  | .coalesce => "COALESCE"

/-- **The functions of many rows.** -/
inductive AggregateFunction where
  /-- How many. -/
  | count
  /-- The greatest. -/
  | max
  /-- The least. -/
  | min
  /-- The sum. -/
  | sum
  /-- The mean. -/
  | avg
deriving DecidableEq, Repr

/-- The name of the function. -/
def AggregateFunction.sql : AggregateFunction → String
  | .count => "COUNT"
  | .max => "MAX"
  | .min => "MIN"
  | .sum => "SUM"
  | .avg => "AVG"

/-! ## Trees -/

mutual

/-- **An expression.** -/
inductive Term where
  /-- A value. -/
  | literal (c : Codec) (v : c.Value)
  /-- A placeholder. -/
  | slot (c : Codec)
  /-- A column of a source. -/
  | column (source column : Identifier)
  /-- A column of the row that a trigger is about. -/
  | rowColumn (scope : RowScope) (column : Identifier)
  /-- Another item of the same select list, by its alias. -/
  | reference (name : Identifier)
  /-- Negation. -/
  | not (operand : Term)
  /-- Whether a value is missing, or whether it is there. -/
  | isNull (operand : Term) (negated : Bool)
  /-- A binary operator. -/
  | binary (op : BinaryOp) (left right : Term)
  /-- Whether a value lies between two others. -/
  | between (operand low high : Term)
  /-- Whether a value is one of a list. -/
  | inList (operand : Term) (items : List Term) (negated : Bool)
  /-- Whether a value is one of the rows of a query. -/
  | inQuery (operand : Term) (query : SelectTerm) (negated : Bool)
  /-- Whether a query has rows. -/
  | exists (query : SelectTerm) (negated : Bool)
  /-- A function of one row. -/
  | call (f : ScalarFunction) (arguments : List Term)
  /-- A function of many rows. -/
  | aggregate (f : AggregateFunction) (argument : Term)
  /-- How many rows there are. -/
  | countStar
  /-- How many different values there are. -/
  | countDistinct (argument : Term)
  /-- All values put together, with a text between them. -/
  | groupConcat (argument : Term) (separator : Option String)
  /-- The value that a query has in its only row. -/
  | scalar (query : SelectTerm)

/-- **A query.** -/
inductive SelectTerm where
  /-- The parts of the query in the order in which they are written. An
  item is a term and perhaps an alias. -/
  | mk (distinct : Bool) (items : List (Term × Option Identifier)) (source : FromTerm)
      (filter : Option Term) (groupBy : List Term) (having : Option Term)
      (orderBy : List (Term × SortOrder)) (limit offset : Option UInt64)

/-- **What a query reads from.** -/
inductive FromTerm where
  /-- A table or a view. -/
  | named (name : Identifier)
  /-- A table under another name. -/
  | aliased (table name : Identifier)
  /-- A query with a name. -/
  | query (query : SelectTerm) (name : Identifier)
  /-- A source and what is joined to it, one after the other. -/
  | join (first : FromTerm) (parts : List JoinTerm)

/-- **A link in a chain of joins.** -/
inductive JoinTerm where
  /-- How a source is joined, and on which condition. -/
  | mk (type : JoinType) (source : FromTerm) (condition : Option Term)

end

namespace Term

/-- The name that a result column of the term has by itself. -/
def columnName? : Term → Option Identifier
  | .column _ name => some name
  | _ => none

/-- The operator at the root of a term, if it is a binary one. -/
def op? : Term → Option BinaryOp
  | .binary op _ _ => some op
  | _ => none

/-- The precedence of what binds tighter than every operator. -/
def primary : Nat := 10

/-- The precedence of equality, which patterns, `IS NULL`, `BETWEEN` and `IN`
share. -/
def equality : Nat := 4

/-- The precedence of a negation: below all comparisons, above `AND`. -/
def negation : Nat := 3

/-- How tightly the root of a term binds. -/
def precedence : Term → Nat
  | .binary op _ _ => op.precedence
  | .not _ => negation
  | .isNull _ _ | .between _ _ _ | .inList _ _ _ | .inQuery _ _ _ => equality
  | _ => primary

/-- A condition and one more that has to hold too. -/
def conjoin : Option Term → Term → Term
  | none, t => t
  | some s, t => .binary .and s t

end Term

end TypedSql

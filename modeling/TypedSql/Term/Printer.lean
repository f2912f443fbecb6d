import TypedSql.Term

/-!
# Writing terms

A term is written with as few parentheses as the precedence of the
operators allows, and a few more: a group of `AND` inside an `OR`, or the
other way round, is always set off. On the right of an operator a term of
the same precedence is set off unless it repeats one operator that may be
grouped either way.

`NOT EXISTS` is written as one word and counts as an operand, although to a
reader it begins with the loose `NOT`.
-/

namespace TypedSql

/-- **Whether an operand of a binary operator is set off.** -/
def needsParentheses (parent : BinaryOp) (child : Term) (onRight : Bool) : Bool :=
  let mixed := parent.isConnective &&
    child.op?.any fun op => op.isConnective && op != parent
  let looser :=
    if child.precedence = parent.precedence then
      onRight && !(parent.isAssociative && child.op? == some parent)
    else decide (child.precedence < parent.precedence)
  mixed || looser

/-- Whether an operand is set off that has to bind at least as tightly as
`least`. -/
def bindsLooser (child : Term) (least : Nat) : Bool := decide (child.precedence < least)

/-- The word between an operand and what is tested, negated or not. -/
def negatable (negated : Bool) (no yes : String) : Sql :=
  Sql.words (if negated then no else yes)

mutual

/-- **The text of a term.** -/
def Term.sql : Term → Sql
  | .literal c v => [.literal c v]
  | .slot c => [.slot c]
  | .column source name => Sql.name source ++ Sql.words "." ++ Sql.name name
  | .rowColumn scope name => [.rowColumn scope name]
  | .reference name => Sql.name name
  | .not t =>
    Sql.words "NOT " ++ Sql.parenthesizedIf (bindsLooser t Term.negation) t.sql
  | .isNull t negated =>
    Sql.parenthesizedIf (bindsLooser t (Term.equality + 1)) t.sql ++
      negatable negated " IS NOT NULL" " IS NULL"
  | .binary op l r =>
    Sql.parenthesizedIf (needsParentheses op l false) l.sql ++
      Sql.words (" " ++ op.sql ++ " ") ++
      Sql.parenthesizedIf (needsParentheses op r true) r.sql
  | .between t low high =>
    Sql.parenthesizedIf (bindsLooser t (Term.equality + 1)) t.sql ++
      Sql.words " BETWEEN " ++
      Sql.parenthesizedIf (bindsLooser low (Term.equality + 1)) low.sql ++
      Sql.words " AND " ++
      Sql.parenthesizedIf (bindsLooser high (Term.equality + 1)) high.sql
  | .inList t items negated =>
    Sql.parenthesizedIf (bindsLooser t (Term.equality + 1)) t.sql ++
      negatable negated " NOT IN " " IN " ++
      Sql.parenthesized (Sql.commaList (Term.sqlList items))
  | .inQuery t query negated =>
    Sql.parenthesizedIf (bindsLooser t (Term.equality + 1)) t.sql ++
      negatable negated " NOT IN " " IN " ++ Sql.parenthesized query.sql
  | .exists query negated =>
    negatable negated "NOT EXISTS " "EXISTS " ++ Sql.parenthesized query.sql
  | .call f arguments =>
    Sql.words f.sql ++ Sql.parenthesized (Sql.commaList (Term.sqlList arguments))
  | .aggregate f t => Sql.words f.sql ++ Sql.parenthesized t.sql
  | .countStar => Sql.words "COUNT(*)"
  | .countDistinct t => Sql.words "COUNT(DISTINCT " ++ t.sql ++ Sql.words ")"
  | .groupConcat t separator =>
    Sql.words "GROUP_CONCAT(" ++ t.sql ++
      (match separator with
        | some s => Sql.words ", " ++ [.quotedText s]
        | none => []) ++
      Sql.words ")"
  | .scalar query => Sql.parenthesized query.sql

/-- The texts of several terms. -/
def Term.sqlList : List Term → List Sql
  | [] => []
  | t :: ts => t.sql :: Term.sqlList ts

/-- A clause with its keyword, or nothing. -/
def Term.sqlClause (keyword : String) : Option Term → Sql
  | none => []
  | some t => Sql.words keyword ++ t.sql

/-- The texts of the items of a select list. -/
def Term.sqlItems : List (Term × Option Identifier) → List Sql
  | [] => []
  | (t, alias?) :: items =>
    (t.sql ++
      (match alias? with
        | some name => Sql.words " AS " ++ Sql.name name
        | none => [])) :: Term.sqlItems items

/-- The texts of the terms of a sort. -/
def Term.sqlOrder : List (Term × SortOrder) → List Sql
  | [] => []
  | (t, order) :: terms => (t.sql ++ Sql.words (" " ++ order.sql)) :: Term.sqlOrder terms

/-- **The text of a query.** -/
def SelectTerm.sql : SelectTerm → Sql
  | .mk distinct items source filter groupBy having orderBy limit offset =>
    Sql.words (if distinct then "SELECT DISTINCT " else "SELECT ") ++
      Sql.commaList (Term.sqlItems items) ++ Sql.words " FROM " ++ source.sql ++
      Term.sqlClause " WHERE " filter ++
      (if groupBy.isEmpty then []
        else Sql.words " GROUP BY " ++ Sql.commaList (Term.sqlList groupBy)) ++
      Term.sqlClause " HAVING " having ++
      (if orderBy.isEmpty then []
        else Sql.words " ORDER BY " ++ Sql.commaList (Term.sqlOrder orderBy)) ++
      (match limit, offset with
        | none, none => []
        | some l, none => Sql.words " LIMIT " ++ [.number l]
        | some l, some o =>
          Sql.words " LIMIT " ++ [.number l] ++ Sql.words " OFFSET " ++ [.number o]
        | none, some o => Sql.words " LIMIT -1 OFFSET " ++ [.number o])

/-- **The text of a source.** -/
def FromTerm.sql : FromTerm → Sql
  | .named name => Sql.name name
  | .aliased table name => Sql.name table ++ Sql.words " AS " ++ Sql.name name
  | .query query name => Sql.parenthesized query.sql ++ Sql.words " AS " ++ Sql.name name
  | .join first parts => first.sql ++ JoinTerm.sqlList parts

/-- The text of a link: the keyword, the source and the condition. A source
that is a chain itself is written like any other. -/
def JoinTerm.sql : JoinTerm → Sql
  | .mk type source condition =>
    Sql.words (" " ++ type.sql ++ " ") ++ source.sql ++ Term.sqlClause " ON " condition

/-- The text of the links one after the other. -/
def JoinTerm.sqlList : List JoinTerm → Sql
  | [] => []
  | p :: ps => p.sql ++ JoinTerm.sqlList ps

end

end TypedSql

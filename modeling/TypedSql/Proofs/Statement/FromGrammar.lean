import TypedSql.Proofs.Sql.Token

/-!
# Reading a FROM clause

What the text behind `FROM` says to a reader who knows how a clause is made:
a source, and then any number of links. A link is the word for its kind, a
source, and perhaps `ON` with a condition. A source is a name, a name with
an alias, a query in parentheses with an alias, or a clause in parentheses.
Links group to the left.

The reader goes over the tokens once. What it knows at a place is a
`FromReader.State`; a token belongs to what has been begun
(`FromReader.State.extend?`), or what has been begun ends there, and the token
is one that may stand behind a source (`FromReader.follow`). Parentheses around
a clause leave the source that was due before them on a stack.

Queries and conditions are kept as their tokens. A query ends with its
parenthesis. A condition ends where, outside of its own parentheses, a word of
the clause comes or the parenthesis around the clause.
-/

namespace TypedSql

/-! ## What a text says

The trees of this section are what a reader can find out from the text alone.
They have no names for the tables of a query and no types, and a source that is
a clause is a constructor of its own: it is what parentheses around a join
would be read as. -/

mutual

/-- **A source as it is read.** -/
inductive SourceTree where
  /-- A table or a view. -/
  | named (name : Identifier)
  /-- A table under another name. -/
  | aliased (table name : Identifier)
  /-- A query with a name. -/
  | query (query : List Token) (name : Identifier)
  /-- A clause in parentheses. -/
  | clause (first : SourceTree) (links : List LinkTree)

/-- **A link as it is read.** -/
inductive LinkTree where
  /-- How a source is joined, and on which condition. -/
  | mk (type : JoinType) (source : SourceTree) (condition? : Option (List Token))

end

/-- Whether a source is a clause. -/
def SourceTree.isClause : SourceTree → Bool
  | .clause _ _ => true
  | _ => false

/-- What is joined by a link. -/
def LinkTree.source : LinkTree → SourceTree
  | .mk _ source _ => source

/-- **A clause**: a source and what is joined to it, one after the other. -/
structure FromClause where
  /-- The source it begins with. -/
  first : SourceTree
  /-- What is joined to it. -/
  links : List LinkTree := []

namespace FromClause

/-- The clause as a source. A source alone is that source, also in
parentheses. -/
def source : FromClause → SourceTree
  | ⟨x, []⟩ => x
  | ⟨x, l :: ls⟩ => .clause x (l :: ls)

/-- The sources of the clause in order. -/
def sources (c : FromClause) : List SourceTree := c.first :: c.links.map LinkTree.source

/-- Gives a condition to the last link, if there is one that has none. -/
def on? (c : FromClause) (condition : List Token) : Option FromClause :=
  match c.links.getLast?, condition with
  | some (.mk type source none), _ :: _ =>
    some { c with links := c.links.dropLast ++ [.mk type source (some condition)] }
  | _, _ => none

end FromClause

/-! ## Words

The words that end a source or a condition. A word is one of the clause only
outside of parentheses, so the depth is part of the question (`Token.within?`).
-/

/-- **The words of a clause.** -/
inductive FromWord where
  /-- Before an alias. -/
  | as
  /-- Before a source that is joined. -/
  | join
  /-- Before a condition. -/
  | on
  /-- How a source is joined. -/
  | type (type : JoinType)
deriving DecidableEq

namespace FromWord

/-- The words as they are written. -/
def all : List (String × FromWord) :=
  [("AS", .as), ("JOIN", .join), ("ON", .on), ("INNER", .type .inner), ("LEFT", .type .left),
    ("CROSS", .type .cross)]

end FromWord

namespace Token

/-- The word of a clause that a token is, its letters counted as capitals. -/
def fromWord? : Token → Option FromWord
  | .word cs => (FromWord.all.find? fun k => k.1.toList == cs.map Char.toUpper).map Prod.snd
  | _ => none

/-- **The depth in parentheses behind a token of a condition**, or nothing if
the token ends the condition. -/
def within? : Nat → Token → Option Nat
  | depth, .opening => some (depth + 1)
  | depth + 1, .closing => some depth
  | 0, .closing => none
  | depth + 1, _ => some (depth + 1)
  | 0, t => if t.fromWord?.isSome then none else some 0

end Token

/-! ## Reading

The reader is a fold over the tokens, with a state for each kind of thing that
may have been begun. It answers with nothing where a token fits nowhere, and
with that the whole text cannot be read. -/

namespace FromReader

/-- **A place where a source is due.** -/
inductive Gap where
  /-- At the beginning of a clause. -/
  | first
  /-- In a link behind a clause. -/
  | link (clause : FromClause) (type : JoinType)

/-- The clause with its source. -/
def Gap.fill : Gap → SourceTree → FromClause
  | .first, x => { first := x }
  | .link c type, x => { c with links := c.links ++ [.mk type x none] }

/-- **What has been read.** The places in `outer` wait for a clause in
parentheses each, the innermost first. -/
inductive State where
  /-- A source is due. -/
  | due (outer : List Gap) (gap : Gap)
  /-- A parenthesis, where a source is due. -/
  | opened (outer : List Gap) (gap : Gap)
  /-- A name, which may have an alias. -/
  | named (outer : List Gap) (gap : Gap) (name : Identifier)
  /-- A part of a query. -/
  | query (outer : List Gap) (gap : Gap) (done : List Token) (depth : Nat)
  /-- A query without the name it needs. -/
  | closed (outer : List Gap) (gap : Gap) (query : List Token)
  /-- A source and `AS` behind it. -/
  | alias (outer : List Gap) (gap : Gap) (source : Identifier → SourceTree)
  /-- A clause, perhaps not the whole of it. -/
  | behind (outer : List Gap) (clause : FromClause)
  /-- How the next source is joined. -/
  | keyword (outer : List Gap) (clause : FromClause) (type : JoinType)
  /-- A part of a condition. -/
  | condition (outer : List Gap) (clause : FromClause) (done : List Token) (depth : Nat)

namespace State

/-- **A token that belongs to what has been begun**, or nothing if it does
not. -/
def extend? : State → Token → Option State
  | .due outer gap, .name i => some (.named outer gap i)
  | .due outer gap, .opening => some (.opened outer gap)
  | .opened outer gap, .select => some (.query outer gap [.select] 0)
  | .opened outer gap, .name i => some (.named (gap :: outer) .first i)
  | .opened outer gap, .opening => some (.opened (gap :: outer) .first)
  | .named outer gap i, t =>
    if t.fromWord? = some .as then some (.alias outer gap (.aliased i)) else none
  | .query outer gap done depth, .opening =>
    some (.query outer gap (done ++ [.opening]) (depth + 1))
  | .query outer gap done 0, .closing => some (.closed outer gap done)
  | .query outer gap done (depth + 1), .closing =>
    some (.query outer gap (done ++ [.closing]) depth)
  | .query outer gap done depth, t => some (.query outer gap (done ++ [t]) depth)
  | .closed outer gap q, t =>
    if t.fromWord? = some .as then some (.alias outer gap (.query q)) else none
  | .alias outer gap source, .name i => some (.behind outer (gap.fill (source i)))
  | .keyword outer c type, t =>
    if t.fromWord? = some .join then some (.due outer (.link c type)) else none
  | .condition outer c done depth, t =>
    (t.within? depth).map (.condition outer c (done ++ [t]))
  | _, _ => none

/-- **The clause that ends here**, if one may. -/
def ended? : State → Option (List Gap × FromClause)
  | .named outer gap i => some (outer, gap.fill (.named i))
  | .behind outer c => some (outer, c)
  | .condition outer c done 0 => (c.on? done).map (outer, ·)
  | _ => none

end State

/-- **A token behind a source**: what ends the parenthesis around the clause,
begins a link or begins the condition of the last one. -/
def follow (outer : List Gap) (c : FromClause) : Token → Option State
  | .closing =>
    match outer with
    | gap :: outer => some (.behind outer (gap.fill c.source))
    | [] => none
  | t =>
    match t.fromWord? with
    | some (.type type) => some (.keyword outer c type)
    | some .on => some (.condition outer c [] 0)
    | _ => none

/-- **One token.** -/
def step (s : State) (t : Token) : Option State :=
  match s.extend? t with
  | some s' => some s'
  | none => s.ended?.bind fun p => follow p.1 p.2 t

/-- The clause at the end of a text, when no parenthesis is open. -/
def finish? (s : State) : Option FromClause :=
  match s.ended? with
  | some ([], c) => some c
  | _ => none

/-- **Reads the tokens from a state on.** -/
def run (s : State) (ts : List Token) : Option FromClause := (ts.foldlM step s).bind finish?

end FromReader

/-- **Reads a FROM clause.** -/
def FromClause.read? (cs : List Char) : Option FromClause :=
  FromReader.run (.due [] .first) (Token.lex cs)

end TypedSql

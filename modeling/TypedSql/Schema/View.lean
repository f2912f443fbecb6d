import TypedSql.Statement.Select

/-!
# Views

A view is a query that is stored under a name. Its columns are declared one
by one, each with the expression of the query that it shows; or none is
declared, and then the items of the query that have names show themselves.

Declared columns are put into the order of the query's items. There have to
be as many as there are items, and every one needs an item for itself.
-/

namespace TypedSql

/-- **A declared column of a view.** -/
structure ViewColumn where
  /-- Its name. -/
  name : Identifier
  /-- The column as an expression on the view. -/
  expr : Expr
  /-- The expression of the query that it shows. -/
  shown : Expr

namespace ViewColumn

/-- Makes a column of a view for an expression of its query. -/
def of (view : Identifier) (name : String) (shown : Expr) : Fresh ViewColumn := do
  return { name := ⟨name⟩, expr := ← Expr.ofTerm (.column view ⟨name⟩) shown.codec, shown }

/-- The column as the view offers it. -/
def offered (c : ViewColumn) : OfferedColumn := { origin := c.shown.id, expr := c.expr }

end ViewColumn

/-- **A view.** -/
structure View where
  /-- Its name. -/
  name : Identifier
  /-- The names of its columns, if they were declared. -/
  declared? : Option (List Identifier)
  /-- Its columns, in the order of the query. -/
  columns : List OfferedColumn
  /-- The text of its query. -/
  query : Sql
  /-- There is nothing to bind in it. -/
  slots_nil : query.slots = []
  /-- Whether it goes with the connection. -/
  temporary : Bool

namespace View

/-- The first item that shows an expression and is still free. -/
def freeItem? (shown : ExprId) (places : List (Item × Option ViewColumn)) : Option Nat :=
  places.findIdx? fun p => p.1.key.id == shown && p.2.isNone

/-- **Gives a declared column an item for itself.** -/
def place (view : Identifier) (places : List (Item × Option ViewColumn)) (c : ViewColumn) :
    Except ConstructionError (List (Item × Option ViewColumn)) :=
  match freeItem? c.shown.id places with
  | some i => .ok (places.modify i fun p => (p.1, some c))
  | none =>
    let shown := c.shown.sql.text
    let fault : ViewColumnFault :=
      if places.any fun p => p.1.key.id == c.shown.id then .alreadyExposed shown
      else .notSelected shown
    .error (.invalidViewColumn view.name c.name.name fault)

/-- The declared columns in the order of the items they show. -/
def arrange (view : Identifier) (items : List Item) (columns : List ViewColumn) :
    Except ConstructionError (List ViewColumn) := do
  let places ← columns.foldlM (place view) (items.map fun i => (i, none))
  return places.filterMap Prod.snd

/-- **The view of a query**, given by its text and its items, under some
declared columns. -/
def of (name : Identifier) (query : Sql) (items : List Item) (columns : List ViewColumn)
    (temporary : Bool) : ExceptT ConstructionError Fresh View :=
  if h : query.slots = [] then
    if columns.isEmpty then do
      return {
        name, declared? := none, columns := ← OfferedColumn.ofItems name items,
        query, slots_nil := h, temporary }
    else if columns.length ≠ items.length then
      throw (.viewColumnCount name.name columns.length items.length)
    else do
      let arranged ← ExceptT.mk (pure (arrange name items columns))
      return {
        name, declared? := some (arranged.map ViewColumn.name),
        columns := arranged.map ViewColumn.offered, query, slots_nil := h, temporary }
  else throw (.unexpectedBindArgument .view name.name query.text)

/-- The column that an expression of the query has become. -/
def get (v : View) (e : Expr) : Except ConstructionError Expr :=
  match OfferedColumn.find? v.columns e with
  | some column => .ok column
  | none => .error (.foreignColumn v.name.name e.sql.text)

/-- The view as a source. -/
def source (v : View) : Source where
  tree := .named v.name
  items := OfferedColumn.items v.columns

/-- **The statement that makes the view.** -/
def sql (v : View) (temporary : Bool) : Sql :=
  Sql.words (if temporary || v.temporary then "CREATE TEMP VIEW IF NOT EXISTS "
    else "CREATE VIEW IF NOT EXISTS ") ++ Sql.name v.name ++
    (match v.declared? with
      | none => []
      | some names => Sql.words " " ++ Sql.parenthesized (Sql.names names)) ++
    Sql.words " AS " ++ v.query

end View

end TypedSql

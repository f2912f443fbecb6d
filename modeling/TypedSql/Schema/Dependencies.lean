import TypedSql.Order.DepthFirst
import TypedSql.Schema.Table

/-!
# Dependencies of tables

A table depends on every other table of a set that one of its foreign keys
refers to. It is made after them and dropped before them. If the foreign
keys form a cycle there is no such order, and the tables on the cycle are
named instead.
-/

namespace TypedSql

/-- **A set of tables** with the order in which they were given. A table that
is given twice counts once. -/
structure Dependencies where
  /-- The tables. -/
  tables : List Table

namespace Dependencies

/-- Tables without those that came before under the same name. -/
def distinctTables (seen : List Identifier) : List Table → List Table
  | [] => []
  | t :: ts =>
    if t.name ∈ seen then distinctTables seen ts
    else t :: distinctTables (t.name :: seen) ts

/-- The set of the given tables. -/
def of (tables : List Table) : Dependencies := ⟨distinctTables [] tables⟩

/-- The names of the tables. -/
def names (d : Dependencies) : List Identifier := d.tables.map Table.name

/-- The table of a name. -/
def table? (d : Dependencies) (name : Identifier) : Option Table :=
  d.tables.find? fun t => t.name == name

/-- The names of the tables of the set that a table depends on, in the order
of its foreign keys. -/
def targetsOf (d : Dependencies) (t : Table) : List Identifier :=
  ((t.foreignKeys.map fun k => k.target.table).filter fun name =>
    name != t.name && d.names.contains name).eraseDups

/-- The same for a name; a table that is not in the set depends on nothing. -/
def targets (d : Dependencies) (name : Identifier) : List Identifier :=
  (d.table? name).elim [] d.targetsOf

/-- **The order in which tables are made**, by name. -/
def nameOrder (d : Dependencies) : Except (List Identifier) (List Identifier) :=
  Order.depthFirst d.names d.targets

/-- **The order in which tables are made.** -/
def creationOrder (d : Dependencies) : Except Error (List Table) :=
  match d.nameOrder with
  | .ok names => .ok (names.filterMap d.table?)
  | .error cycle => .error (.cyclicDependency (cycle.map Identifier.name))

/-- **The order in which tables are dropped.** -/
def dropOrder (d : Dependencies) : Except Error (List Table) :=
  d.creationOrder.map List.reverse

/-- Whether the foreign keys form a cycle. -/
def hasCycle (d : Dependencies) : Bool :=
  match d.creationOrder with
  | .ok _ => false
  | .error _ => true

end Dependencies

end TypedSql

import TypedSql.Query
import TypedSql.Schema.Dependencies
import TypedSql.Schema.Trigger
import TypedSql.Schema.View

/-!
# Schema objects

Tables, indices, views and triggers are made and dropped by statements and
listed by the engine under their kind and name. A table is made together
with its indices. Several tables are made in the order of their
dependencies and dropped in the opposite order.
-/

namespace TypedSql

/-- **A schema object**: how it is listed, made and dropped. -/
structure SchemaObject where
  /-- Its kind. -/
  kind : SchemaKind
  /-- Its name. -/
  name : Identifier
  /-- The statements that make it, for good or for the connection. -/
  create : Bool → List Sql
  /-- The statements that drop it. -/
  drop : List Sql

/-- The statement that drops what is listed under a name. -/
def dropSql (words : String) (name : Identifier) : Sql :=
  Sql.words ("DROP " ++ words ++ " IF EXISTS ") ++ Sql.name name

/-- An index as a schema object. -/
def Index.object (i : Index) : SchemaObject where
  kind := .index
  name := i.name
  create _ := [i.sql]
  drop := [dropSql "INDEX" i.name]

/-- A table as a schema object, together with its indices. -/
def Table.object (t : Table) : SchemaObject where
  kind := .table
  name := t.name
  create temporary := t.sql temporary :: t.indices.map Index.sql
  drop := [dropSql "TABLE" t.name]

/-- A view as a schema object. -/
def View.object (v : View) : SchemaObject where
  kind := .view
  name := v.name
  create temporary := [v.sql temporary]
  drop := [dropSql "VIEW" v.name]

/-- A trigger as a schema object. -/
def Trigger.object (t : Trigger) : SchemaObject where
  kind := .trigger
  name := t.name
  create temporary := [t.sql temporary]
  drop := [dropSql "TRIGGER" t.name]

namespace SchemaObject

/-- **Makes the object.** -/
def createIn (o : SchemaObject) (e : Engine) (temporary : Bool) : Run Unit :=
  e.runAll (o.create temporary)

/-- **Drops the object.** -/
def dropIn (o : SchemaObject) (e : Engine) : Run Unit := e.runAll o.drop

/-- The query that looks an object up by kind and name. -/
def lookup : Query :=
  .raw (Sql.words "SELECT COUNT(*) FROM sqlite_master WHERE type = " ++ [.slot .text] ++
    Sql.words " AND name = " ++ [.slot .text])

/-- Binds the kind and the name of the object. -/
def bindLookup (o : SchemaObject) : Binder := fun b => do
  (← b.set 0 (.text o.kind.sql)).set 1 (.text o.name.name)

/-- **Whether the engine lists the object.** -/
def existsIn (o : SchemaObject) (e : Engine) : Run Bool :=
  return decide (0 < (← lookup.integer e o.bindLookup).toInt)

end SchemaObject

/-! ## Several tables -/

namespace Dependencies

/-- Tables in some order, or the error that there is none. -/
def ordered (order : Except Error (List Table)) : Run (List Table) := ExceptT.mk (pure order)

/-- **Makes all tables**, each after those it depends on. -/
def createAll (d : Dependencies) (e : Engine) : Run Unit := do
  (← ordered d.creationOrder).forM fun t => t.object.createIn e false

/-- **Drops all tables**, each before those it depends on. -/
def dropAll (d : Dependencies) (e : Engine) : Run Unit := do
  (← ordered d.dropOrder).forM fun t => t.object.dropIn e

end Dependencies

end TypedSql

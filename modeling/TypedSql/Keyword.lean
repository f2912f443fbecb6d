import TypedSql.Text.Quoted

/-!
# Keywords

The small choices that a statement or a definition offers, each with the
words it is written with: what to do on a conflict, what a foreign key does
when its target goes, how tables are joined, sorted and compared, and when
a trigger fires.
-/

namespace TypedSql

/-! ## Conflicts -/

/-- **What to do when a row violates a constraint.** -/
inductive OnConflict where
  /-- Nothing is said. -/
  | unspecified
  /-- The old row is deleted. -/
  | replace
  /-- The new row is skipped. -/
  | ignore
  /-- The statement is undone. -/
  | abort
  /-- The statement stops where it is. -/
  | fail
  /-- The transaction is undone. -/
  | rollback
deriving DecidableEq, Repr

namespace OnConflict

/-- The word for the choice, if one was made. -/
def sql? : OnConflict → Option String
  | .unspecified => none
  | .replace => some "REPLACE"
  | .ignore => some "IGNORE"
  | .abort => some "ABORT"
  | .fail => some "FAIL"
  | .rollback => some "ROLLBACK"

/-- A verb with the choice behind it. -/
def qualify (verb : String) (c : OnConflict) : String :=
  match c.sql? with
  | none => verb
  | some word => verb ++ " OR " ++ word

/-- The beginning of an INSERT. -/
def insertKeyword (c : OnConflict) : String := c.qualify "INSERT"

/-- The beginning of an UPDATE. -/
def updateKeyword (c : OnConflict) : String := c.qualify "UPDATE"

/-- The clause in a column definition. -/
def clause (c : OnConflict) : String :=
  match c.sql? with
  | none => ""
  | some word => " ON CONFLICT " ++ word

end OnConflict

/-! ## Foreign keys -/

/-- **What a foreign key does** when the row it refers to goes or changes. -/
inductive ForeignKeyAction where
  /-- Nothing. -/
  | noAction
  /-- The change is refused. -/
  | restrict
  /-- The referring rows follow. -/
  | cascade
  /-- The referring column loses its value. -/
  | setNull
  /-- The referring column takes its default. -/
  | setDefault
deriving DecidableEq, Repr

/-- The words for the action. -/
def ForeignKeyAction.sql : ForeignKeyAction → String
  | .noAction => "NO ACTION"
  | .restrict => "RESTRICT"
  | .cascade => "CASCADE"
  | .setNull => "SET NULL"
  | .setDefault => "SET DEFAULT"

/-! ## Collations -/

/-- **How texts are compared.** -/
inductive Collation where
  /-- Byte by byte. -/
  | binary
  /-- Without regard to case. -/
  | noCase
  /-- Without regard to blanks at the end. -/
  | rtrim
  /-- A collation of the application, written just as it was given. -/
  | custom (name : String)
deriving DecidableEq, Repr

namespace Collation

/-- The collation of a name. The built-in ones are known in any case of
their ASCII letters. -/
def ofName (name : String) : Collation :=
  let upper := name.toUpper
  if upper = "BINARY" then .binary
  else if upper = "NOCASE" then .noCase
  else if upper = "RTRIM" then .rtrim
  else .custom name

/-- The word after COLLATE. -/
def sql : Collation → String
  | .binary => "BINARY"
  | .noCase => "NOCASE"
  | .rtrim => "RTRIM"
  | .custom name => name

/-- Whether the engine knows the collation by itself. -/
def isBuiltin : Collation → Bool
  | .custom _ => false
  | _ => true

end Collation

/-! ## Joins and order -/

/-- **How two sources are joined.** -/
inductive JoinType where
  /-- Rows that match. -/
  | inner
  /-- Rows that match, and those on the left that do not. -/
  | left
  /-- All pairs of rows. -/
  | cross
deriving DecidableEq, Repr

/-- The words between the sources. -/
def JoinType.sql : JoinType → String
  | .inner => "INNER JOIN"
  | .left => "LEFT JOIN"
  | .cross => "CROSS JOIN"

/-- **The direction of a sort.** -/
inductive SortOrder where
  /-- Small ones first. -/
  | asc
  /-- Large ones first. -/
  | desc
deriving DecidableEq, Repr

/-- The word after the term. -/
def SortOrder.sql : SortOrder → String
  | .asc => "ASC"
  | .desc => "DESC"

/-! ## Triggers -/

/-- **Whether a trigger fires before or after** the change. -/
inductive TriggerTiming where
  /-- Before the change. -/
  | before
  /-- After the change. -/
  | after
deriving DecidableEq, Repr

/-- The word for the time. -/
def TriggerTiming.sql : TriggerTiming → String
  | .before => "BEFORE"
  | .after => "AFTER"

/-- **The change a trigger fires on.** -/
inductive TriggerEvent where
  /-- A new row. -/
  | insert
  /-- A changed row. -/
  | update
  /-- A deleted row. -/
  | delete
deriving DecidableEq, Repr

/-- The word for the change. -/
def TriggerEvent.sql : TriggerEvent → String
  | .insert => "INSERT"
  | .update => "UPDATE"
  | .delete => "DELETE"

/-- **The row a trigger refers to.** -/
inductive RowScope where
  /-- The row after the change. -/
  | new
  /-- The row before the change. -/
  | old
deriving DecidableEq, Repr

namespace RowScope

/-- The word for the row. -/
def sql : RowScope → String
  | .new => "NEW"
  | .old => "OLD"

/-- Whether the row exists: a deleted row has no new form, an inserted one no
old form. -/
def existsIn : RowScope → TriggerEvent → Bool
  | .new, .delete => false
  | .old, .insert => false
  | _, _ => true

end RowScope

/-! ## Schema objects -/

/-- **The kinds of schema objects.** -/
inductive SchemaKind where
  /-- A table. -/
  | table
  /-- An index. -/
  | index
  /-- A view. -/
  | view
  /-- A trigger. -/
  | trigger
deriving DecidableEq, Repr

/-- The word under which the engine lists the kind. -/
def SchemaKind.sql : SchemaKind → String
  | .table => "table"
  | .index => "index"
  | .view => "view"
  | .trigger => "trigger"

end TypedSql

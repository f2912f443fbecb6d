import TypedSql.Storage
import TypedSql.Calendar.Text

/-!
# What can go wrong

Every refusal is one of a few causes: a definition that contradicts itself
(`ConstructionError`), an argument that does not fit its placeholder
(`BindingError`), a cell that does not read as the value asked for
(`ValueError`), a cycle of foreign keys, a failure of the engine, or a query
without the row it was asked for. A cause carries the names it is about and
`message` puts it into words; nothing else in the library writes error
text.
-/

namespace TypedSql

/-! ## Values -/

/-- **Why a value of the right class is no value of the type.** -/
inductive InvalidValue where
  /-- An integer is out of the range of 32 bits. -/
  | tooWide (n : Int64)
  /-- An integer other than zero and one was supplied for a truth value. -/
  | notBoolean (n : Int64)
  /-- A text is no name of the enumeration. -/
  | notVariant (name typeName : String)
  /-- A text is no timestamp. -/
  | notTimestamp (text : String) (fault : Calendar.Fault)
  /-- A text is no date. -/
  | notDate (text : String) (fault : Calendar.Fault)
deriving DecidableEq, Repr

/-- The cause in words. -/
def InvalidValue.message : InvalidValue → String
  | .tooWide n => integerText n.toInt ++ " does not fit in i32"
  | .notBoolean n => integerText n.toInt ++ " is not a boolean"
  | .notVariant name typeName => "'" ++ name ++ "' is not a variant of " ++ typeName
  | .notTimestamp text fault =>
    "'" ++ text ++ "' is not an RFC 3339 timestamp: " ++ fault.message
  | .notDate text fault => "'" ++ text ++ "' is not a date: " ++ fault.message

/-- **Why a cell or a supplied value cannot be read.** -/
inductive ValueError where
  /-- The value is of another storage class. -/
  | typeMismatch (expected found : StorageClass)
  /-- There is no value where one is needed. -/
  | unexpectedNull
  /-- The expression was not selected. -/
  | columnNotMapped
  /-- The row is too short. -/
  | missingColumn (index : Nat)
  /-- The value is of the right class but not of the type. -/
  | invalidValue (cause : InvalidValue)
deriving DecidableEq, Repr

namespace ValueError

/-- The cause in words. -/
def message : ValueError → String
  | .typeMismatch expected found =>
    "Expected " ++ expected.sql ++ " value, found " ++ found.sql
  | .unexpectedNull => "Unexpected NULL for a non-nullable value"
  | .columnNotMapped => "Expression is not part of the result set"
  | .missingColumn index => "Row has no column at index " ++ integerText index
  | .invalidValue cause => "Invalid value: " ++ cause.message

/-- The refusal of a value of class `found` where `expected` is needed. That
there is no value at all is said as such. -/
def wrongClass (expected found : StorageClass) : ValueError :=
  if found = .null then .unexpectedNull else .typeMismatch expected found

end ValueError

/-! ## Arguments -/

/-- **Why an argument cannot be bound.** -/
inductive BindingError where
  /-- There is no such placeholder. -/
  | indexOutOfRange (index count : Nat)
  /-- A placeholder was left without a value. -/
  | unboundArgument (index : Nat)
  /-- The value does not fit the placeholder's type. -/
  | invalidValue (index : Nat) (source : ValueError)
deriving DecidableEq, Repr

/-- The cause in words. -/
def BindingError.message : BindingError → String
  | .indexOutOfRange index count =>
    "Argument index " ++ integerText index ++ " out of range, statement has " ++
      integerText count ++ " arguments"
  | .unboundArgument index => "Argument " ++ integerText index ++ " was never bound"
  | .invalidValue index source =>
    "Argument " ++ integerText index ++ " cannot be bound: " ++ source.message

/-! ## Definitions -/

/-- **Why a constraint of a column or a table is refused.** -/
inductive ConstraintFault where
  /-- AUTOINCREMENT on a column that does not hold integers. -/
  | autoIncrementClass
  /-- AUTOINCREMENT on a descending key. -/
  | autoIncrementDescending
  /-- A conflict clause without a key to belong to. -/
  | conflictWithoutKey
  /-- A delete action without a reference. -/
  | deleteWithoutReference
  /-- An update action without a reference. -/
  | updateWithoutReference
  /-- A name for a foreign key that is not there. -/
  | nameWithoutReference
  /-- A primary key over no columns. -/
  | emptyKey
  /-- A table without row numbers and without a primary key. -/
  | rowidWithoutKey
deriving DecidableEq, Repr

/-- The cause in words. -/
def ConstraintFault.message : ConstraintFault → String
  | .autoIncrementClass => "AUTOINCREMENT requires an INTEGER column"
  | .autoIncrementDescending => "AUTOINCREMENT cannot be combined with DESC"
  | .conflictWithoutKey => "ON CONFLICT requires PRIMARY KEY or UNIQUE"
  | .deleteWithoutReference => "ON DELETE requires REFERENCES"
  | .updateWithoutReference => "ON UPDATE requires REFERENCES"
  | .nameWithoutReference => "a foreign key name requires REFERENCES"
  | .emptyKey => "a primary key needs at least one column"
  | .rowidWithoutKey => "WITHOUT ROWID requires a PRIMARY KEY"

/-- **The objects whose text is stored**, and which therefore hold no
placeholders. -/
inductive StoredObject where
  /-- A check constraint. -/
  | check
  /-- A view. -/
  | view
  /-- A trigger. -/
  | trigger
deriving DecidableEq, Repr

/-- The word for the object. -/
def StoredObject.word : StoredObject → String
  | .check => "check"
  | .view => "view"
  | .trigger => "trigger"

/-- **Why a reference to the new or the old row is refused.** -/
inductive ReferenceFault where
  /-- The row does not exist in triggers of this event. -/
  | unavailable (scope event : String)
  /-- The column belongs to another table. -/
  | otherTable (table target : String)
deriving DecidableEq, Repr

/-- The cause in words. -/
def ReferenceFault.message : ReferenceFault → String
  | .unavailable scope event => scope ++ " is not available in " ++ event ++ " triggers"
  | .otherTable table target =>
    "column belongs to '" ++ table ++ "', not '" ++ target ++ "'"

/-- **Why a column of a view is refused.** -/
inductive ViewColumnFault where
  /-- The query does not select the source. -/
  | notSelected (source : String)
  /-- Another column names it already. -/
  | alreadyExposed (source : String)
deriving DecidableEq, Repr

/-- The cause in words. -/
def ViewColumnFault.message : ViewColumnFault → String
  | .notSelected source => source ++ " is not selected by the view's query"
  | .alreadyExposed source => source ++ " is already exposed by another column"

/-- **Why a definition or a statement is refused.** Names are given without
quotes. -/
inductive ConstructionError where
  /-- The table has a primary key already. -/
  | duplicatePrimaryKey (table : String)
  /-- The key names a column twice. -/
  | alreadyInPrimaryKey (table column : String)
  /-- The table has a column of that name already. -/
  | duplicateColumn (table column : String)
  /-- The table has no columns. -/
  | emptyTable (table : String)
  /-- The column is not one of the table's. -/
  | foreignColumn (table column : String)
  /-- The assigned column is not one of the target's. -/
  | foreignColumnAssignment (table column : String)
  /-- Nothing is assigned. -/
  | noAssignments (table : String)
  /-- A constraint contradicts its column. -/
  | invalidConstraint (column : String) (fault : ConstraintFault)
  /-- The index is over no columns. -/
  | emptyIndex (index : String)
  /-- The trigger refers to a row or a column that it cannot see. -/
  | invalidTriggerReference (trigger reference : String) (fault : ReferenceFault)
  /-- Columns are listed for an event other than UPDATE. -/
  | updateOfOtherEvent (trigger event : String)
  /-- The trigger does nothing. -/
  | emptyTriggerBody (trigger : String)
  /-- A stored text would hold placeholders. -/
  | unexpectedBindArgument (object : StoredObject) (name sql : String)
  /-- The view declares more or fewer columns than its query selects. -/
  | viewColumnCount (view : String) (declared selected : Nat)
  /-- A declared column has no item of the query to itself. -/
  | invalidViewColumn (view column : String) (fault : ViewColumnFault)
  /-- No foreign key joins the tables. -/
  | noJoinCondition (left right : String)
  /-- More than one foreign key joins the tables. -/
  | ambiguousJoinCondition (left right : String)
  /-- The expression has no name in the subquery. -/
  | notInQueryAlias (query expression : String)
deriving DecidableEq, Repr

/-- The cause in words. -/
def ConstructionError.message : ConstructionError → String
  | .duplicatePrimaryKey table => "Primary key already defined for table '" ++ table ++ "'"
  | .alreadyInPrimaryKey table column =>
    "Column '" ++ column ++ "' is already part of the primary key of '" ++ table ++ "'"
  | .duplicateColumn table column =>
    "Column '" ++ column ++ "' already exists in table '" ++ table ++ "'"
  | .emptyTable table => "Table '" ++ table ++ "' has no columns"
  | .foreignColumn table column =>
    "Column '" ++ column ++ "' does not belong to table '" ++ table ++ "'"
  | .foreignColumnAssignment table column =>
    "Cannot assign '" ++ column ++ "' in a statement targeting '" ++ table ++ "'"
  | .noAssignments table => "Statement on '" ++ table ++ "' assigns no columns"
  | .invalidConstraint column fault =>
    "Invalid constraint on column '" ++ column ++ "': " ++ fault.message
  | .emptyIndex index => "Index '" ++ index ++ "' has no columns"
  | .invalidTriggerReference trigger reference fault =>
    "Trigger '" ++ trigger ++ "' cannot reference " ++ reference ++ ": " ++ fault.message
  | .updateOfOtherEvent trigger event =>
    "Invalid trigger '" ++ trigger ++ "': UPDATE OF requires an UPDATE trigger, not " ++ event
  | .emptyTriggerBody trigger => "Trigger '" ++ trigger ++ "' has no body statements"
  | .unexpectedBindArgument object name sql =>
    object.word ++ " '" ++ name ++ "' cannot contain bind arguments: " ++ sql
  | .viewColumnCount view declared selected =>
    "View '" ++ view ++ "' declares " ++ integerText declared ++
      " columns but its query selects " ++ integerText selected
  | .invalidViewColumn view column fault =>
    "Invalid column '" ++ column ++ "' on view '" ++ view ++ "': " ++ fault.message
  | .noJoinCondition left right =>
    "No foreign key joins '" ++ left ++ "' and '" ++ right ++ "'"
  | .ambiguousJoinCondition left right =>
    "More than one foreign key joins '" ++ left ++ "' and '" ++ right ++ "'"
  | .notInQueryAlias query expression =>
    "Expression " ++ expression ++ " is not a named result of query alias '" ++ query ++ "'"

/-! ## All of them -/

/-- **Any refusal or failure.** -/
inductive Error where
  /-- A definition or a statement is refused. -/
  | construction (cause : ConstructionError)
  /-- An argument is refused. -/
  | binding (cause : BindingError)
  /-- A value cannot be read. -/
  | value (cause : ValueError)
  /-- The tables on a cycle of foreign keys, the first one again at the
  end. -/
  | cyclicDependency (tables : List String)
  /-- The engine failed. -/
  | executor (text : String)
  /-- A query that needs a row has none. -/
  | noRows (sql : String)
deriving DecidableEq, Repr

/-- The cause in words. -/
def Error.message : Error → String
  | .construction cause => cause.message
  | .binding cause => cause.message
  | .value cause => cause.message
  | .cyclicDependency tables =>
    "Cyclic foreign key dependency: " ++ " -> ".intercalate tables
  | .executor text => "Executor error: " ++ text
  | .noRows sql => "Query returned no rows: " ++ sql

end TypedSql

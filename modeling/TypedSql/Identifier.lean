import TypedSql.Text.Quoted

/-!
# Identifiers

The name of a table, a column, an index, a view, a trigger or an alias.
An identifier may hold any characters, and it is always written between
double quotes, so that no name can be taken for a keyword or end the
place it stands in. Two identifiers are the same exactly when their
characters are the same; they are ordered by code points.
-/

namespace TypedSql

/-- **A name in a statement**: any text, the empty one included. -/
structure Identifier where
  /-- The name as it was given. -/
  name : String
deriving DecidableEq, Hashable, Repr, Inhabited

namespace Identifier

/-- The written form: the name between double quotes. -/
def quoted (i : Identifier) : String := Text.quoted '"' i.name

/-- Code point order of the names. -/
instance : Ord Identifier where
  compare a b := compareOfLessAndEq a.name b.name

/-- The characters of the written form. -/
@[simp] theorem toList_quoted (i : Identifier) :
    i.quoted.toList = '"' :: Text.doubled '"' i.name.toList ++ ['"'] := by
  simp [quoted]

end Identifier

end TypedSql

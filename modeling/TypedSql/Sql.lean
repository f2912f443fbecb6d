import TypedSql.Codec
import TypedSql.Identifier
import TypedSql.Keyword

/-!
# Statement text

A statement is kept as a sequence of pieces. A piece knows what it stands
for – a word of the language, a name, a value, a placeholder – and has one
written form, so the text of a statement and the types of its placeholders
are two readings of one sequence: `Sql.text` joins the written forms,
`Sql.slots` lists the codecs of the placeholders in the order in which they
are written.
-/

namespace TypedSql

/-- **A piece of a statement.** -/
inductive Piece where
  /-- Words and punctuation of the language. -/
  | words (s : String)
  /-- Text that a caller gave, taken over as it is. -/
  | verbatim (s : String)
  /-- A name. -/
  | name (i : Identifier)
  /-- A column of the row that a trigger is about. -/
  | rowColumn (scope : RowScope) (column : Identifier)
  /-- A count. -/
  | number (n : UInt64)
  /-- A value. -/
  | literal (c : Codec) (v : c.Value)
  /-- Text as a value of its own, outside any column. -/
  | quotedText (s : String)
  /-- A placeholder. -/
  | slot (c : Codec)

namespace Piece

/-- The written form of a piece. -/
def text : Piece → String
  | .words s => s
  | .verbatim s => s
  | .name i => i.quoted
  | .rowColumn scope column => scope.sql ++ "." ++ column.quoted
  | .number n => integerText n.toNat
  | .literal c v => c.literal v
  | .quotedText s => textLiteral s
  | .slot _ => "?"

/-- The codec of a piece that is a placeholder. -/
def slot? : Piece → Option Codec
  | .slot c => some c
  | _ => none

end Piece

/-- **The text of a statement or of a part of one**, as pieces. -/
abbrev Sql := List Piece

namespace Sql

/-- The pieces joined. -/
def text (s : Sql) : String := String.join (s.map Piece.text)

/-- **The types of the placeholders**, in the order in which they are
written. -/
def slots (s : Sql) : List Codec := s.filterMap Piece.slot?

/-- Whether there are placeholders. -/
def hasSlots (s : Sql) : Bool := !s.slots.isEmpty

/-- Words. -/
def words (s : String) : Sql := [.words s]

/-- A name. -/
def name (i : Identifier) : Sql := [.name i]

/-- A piece of text that a caller gave. -/
def verbatim (s : String) : Sql := [.verbatim s]

/-- Parts with a comma between every two. -/
def commaList : List Sql → Sql
  | [] => []
  | [s] => s
  | s :: t :: rest => s ++ words ", " ++ commaList (t :: rest)

/-- Parentheses around a part. -/
def parenthesized (s : Sql) : Sql := words "(" ++ s ++ words ")"

/-- Parentheses where a condition asks for them. -/
def parenthesizedIf (condition : Bool) (s : Sql) : Sql :=
  if condition then parenthesized s else s

/-- Names with commas between them. -/
def names (is : List Identifier) : Sql := commaList (is.map name)

@[simp] theorem slots_nil : slots [] = [] := rfl

@[simp] theorem slots_append (s t : Sql) : slots (s ++ t) = slots s ++ slots t := by
  simp [slots]

@[simp] theorem slots_words (w : String) : slots (words w) = [] := rfl

@[simp] theorem slots_name (i : Identifier) : slots (name i) = [] := rfl

@[simp] theorem slots_parenthesizedIf (b : Bool) (s : Sql) :
    slots (parenthesizedIf b s) = slots s := by
  cases b <;> simp [parenthesizedIf, parenthesized]

/-- The placeholders of a list are those of its parts. -/
@[simp] theorem slots_commaList (ss : List Sql) : slots (commaList ss) = ss.flatMap slots := by
  induction ss using commaList.induct with
  | case1 => rfl
  | case2 s => simp [commaList]
  | case3 s t rest ih => simp [commaList, ih]

end Sql

end TypedSql

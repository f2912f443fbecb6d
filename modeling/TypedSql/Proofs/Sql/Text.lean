import TypedSql.Term.Printer

/-!
# The text of parts

A statement is put together from parts, and its text is the text of the parts
one after the other. So what is said of a statement as text follows from how
it was put together, with names in quotes and a comma between every two parts
of a list.

Everything here is an equation about `Sql.text`, from left to right in the
direction that takes a statement apart.
-/

namespace TypedSql.Sql

theorem text_append (s t : Sql) : text (s ++ t) = s.text ++ t.text := by
  rw [text, text, text, List.map_append, String.join_append]

@[simp] theorem text_nil : text [] = "" := rfl

@[simp] theorem text_words (w : String) : text (words w) = w := by
  rw [words, text, List.map_singleton, String.join_cons, String.join_nil, String.append_empty]
  rfl

@[simp] theorem text_name (i : Identifier) : text (name i) = i.quoted := by
  rw [name, text, List.map_singleton, String.join_cons, String.join_nil, String.append_empty]
  rfl

@[simp] theorem text_verbatim (s : String) : text (verbatim s) = s := by
  rw [verbatim, text, List.map_singleton, String.join_cons, String.join_nil, String.append_empty]
  rfl

theorem text_flatMap {α : Type} (f : α → Sql) (as : List α) :
    text (as.flatMap f) = String.join (as.map fun a => (f a).text) := by
  induction as with
  | nil => rfl
  | cons a as ih => rw [List.flatMap_cons, text_append, ih, List.map_cons, String.join_cons]

theorem text_parenthesized (s : Sql) : text (parenthesized s) = "(" ++ s.text ++ ")" := by
  rw [parenthesized, text_append, text_append, text_words, text_words]

/-- **The text of parts with commas between them.** -/
theorem text_commaList (ss : List Sql) : text (commaList ss) = ", ".intercalate (ss.map text) := by
  induction ss using commaList.induct with
  | case1 => rw [commaList, List.map_nil, String.intercalate_nil, text_nil]
  | case2 s => rw [commaList, List.map_singleton, String.intercalate_singleton]
  | case3 s t rest ih =>
    rw [commaList, text_append, text_append, text_words, ih]
    exact String.intercalate_cons_cons.symm

theorem text_names (is : List Identifier) :
    text (names is) = ", ".intercalate (is.map Identifier.quoted) := by
  rw [names, text_commaList, List.map_map]
  exact congrArg _ (List.map_congr_left fun i _ => text_name i)

/-- **A column of a source** as text. -/
def qualified (source column : Identifier) : String := source.quoted ++ "." ++ column.quoted

theorem text_column (source column : Identifier) :
    (Term.column source column).sql.text = qualified source column := by
  rw [Term.sql, text_append, text_append, text_name, text_name, text_words]
  rfl

end TypedSql.Sql

/-!
# Quoted text

SQL writes a name between double quotes and a text between single quotes,
and in both a quote that belongs to the content is written twice. The two
rules are one rule with the quote as a parameter: `doubled q` is the
content, `quoted q` the content between its delimiters.

`count_doubled` says what the rule does to a text – the quote appears
twice as often, every other character as often as before.
-/

namespace TypedSql.Text

/-- **The content of a quoted text**: every occurrence of the quote `q` is
written twice, every other character once. -/
def doubled (q : Char) : List Char → List Char
  | [] => []
  | c :: cs => if c = q then q :: q :: doubled q cs else c :: doubled q cs

/-- The text `s` between two quotes `q`, with the quotes inside doubled. -/
def quoted (q : Char) (s : String) : String :=
  String.ofList (q :: doubled q s.toList ++ [q])

@[simp] theorem doubled_nil (q : Char) : doubled q [] = [] := rfl

/-- A quote is written twice. -/
@[simp] theorem doubled_cons_self (q : Char) (cs : List Char) :
    doubled q (q :: cs) = q :: q :: doubled q cs := by
  simp [doubled]

/-- Any other character is written once. -/
theorem doubled_cons_of_ne {q c : Char} (h : c ≠ q) (cs : List Char) :
    doubled q (c :: cs) = c :: doubled q cs := by
  simp [doubled, h]

/-- Doubling works on the pieces of a text separately. -/
@[simp] theorem doubled_append (q : Char) (xs ys : List Char) :
    doubled q (xs ++ ys) = doubled q xs ++ doubled q ys := by
  induction xs with
  | nil => rfl
  | cons c cs ih => by_cases h : c = q <;> simp [doubled, h, ih]

/-- The quote appears twice as often as before, every other character as
often as before. -/
theorem count_doubled (q x : Char) (cs : List Char) :
    (doubled q cs).count x = (if x = q then 2 else 1) * cs.count x := by
  induction cs with
  | nil => rfl
  | cons c cs ih => by_cases h : c = q <;> by_cases hx : x = c <;> grind [doubled]

/-- The characters of a quoted text. -/
@[simp] theorem toList_quoted (q : Char) (s : String) :
    (quoted q s).toList = q :: doubled q s.toList ++ [q] := by
  simp [quoted]

end TypedSql.Text

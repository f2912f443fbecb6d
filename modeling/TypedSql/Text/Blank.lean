/-!
# Blank characters

The characters with the Unicode property `White_Space`, and trimming by
them. This is the blank space that a raw default value, a date field and a
query text may begin with; it is wider than the blanks of SQL itself.
-/

namespace TypedSql.Text

/-- The ranges of code points with the property `White_Space`, first and
last code point of each. -/
def blankRanges : List (Nat × Nat) :=
  [(0x09, 0x0D), (0x20, 0x20), (0x85, 0x85), (0xA0, 0xA0), (0x1680, 0x1680),
    (0x2000, 0x200A), (0x2028, 0x2029), (0x202F, 0x202F), (0x205F, 0x205F),
    (0x3000, 0x3000)]

/-- Whether a character is white space. -/
def isBlank (c : Char) : Bool :=
  blankRanges.any fun r => decide (r.1 ≤ c.toNat) && decide (c.toNat ≤ r.2)

/-- The characters without the blanks they begin with. -/
def dropBlanks (cs : List Char) : List Char := cs.dropWhile isBlank

/-- The text without the blanks it begins with. -/
def trimStart (s : String) : String := String.ofList (dropBlanks s.toList)

/-- The text without the blanks at either end. -/
def trim (s : String) : String :=
  String.ofList (dropBlanks (dropBlanks s.toList).reverse).reverse

/-- The blanks of ASCII are blanks. -/
theorem isBlank_of_isWhitespace {c : Char} (h : c.isWhitespace = true) :
    isBlank c = true := by
  simp only [Char.isWhitespace, Bool.or_eq_true, decide_eq_true_eq] at h
  rcases h with ((rfl | rfl) | rfl) | rfl <;> decide

end TypedSql.Text

import TypedSql.Proofs.Number.NumeralText
import TypedSql.Proofs.Sql.Phrase
import TypedSql.Proofs.Sql.Word

/-!
# One operand

What may stand behind a word such as `DEFAULT` without parentheses: a word or
a number, with one minus in front of it or none. `OperandText` is the grammar of
such texts, and `operand?` is the reader that takes one off the beginning of a
text, as much of it as belongs together. Where the text goes on at a boundary,
the reader stands behind the text exactly if that is an operand
(`operand?_eq_some_iff`).

`Token.lex` reads the numbers that are written here. A caller's own text may
have any number of the language: with a point at either end, with an exponent
and its sign, in hexadecimal, and with underscores between two digits. A number
that runs into a letter is none, and two hyphens are no sign but a comment.
-/

namespace TypedSql

open Phrase (AtBoundary)

namespace OperandText

/-! ## The reader

Each part of a number has a reader of its own, and the readers are of two
kinds. A part that may be missing is skipped (`skipPoint`, `skipExponent`): the
reader answers with what is left, which is the whole text where the part is not
there. A part that has to be there is read (`digits?`, `word?`), and its reader
answers with nothing where it is not. -/

/-- A hexadecimal digit. -/
def isHexDigit (c : Char) : Bool := c.isDigit || "abcdefABCDEF".toList.contains c

/-- What is left of a text when the digits at its beginning are read, the
first of them being behind already. An underscore stands between two of
them. -/
def skipDigits (p : Char → Bool) : List Char → List Char
  | '_' :: d :: cs => if p d then skipDigits p cs else '_' :: d :: cs
  | c :: cs => if p c then skipDigits p cs else c :: cs
  | [] => []

/-- Reads digits, at least one. -/
def digits? (p : Char → Bool) : List Char → Option (List Char)
  | c :: cs => if p c then some (skipDigits p cs) else none
  | [] => none

/-- Reads a point with the digits behind it, if it is there. -/
def skipPoint : List Char → List Char
  | '.' :: cs => (digits? Char.isDigit cs).getD cs
  | cs => cs

/-- Reads an exponent, if it is there. -/
def skipExponent : List Char → List Char
  | c :: cs =>
    if c = 'e' ∨ c = 'E' then (digits? Char.isDigit (splitSign cs).2).getD (c :: cs) else c :: cs
  | [] => []

/-- Reads a hexadecimal number. -/
def hexadecimal? : List Char → Option (List Char)
  | '0' :: x :: cs => if x = 'x' ∨ x = 'X' then digits? isHexDigit cs else none
  | _ => none

/-- Reads a number that begins with its point. -/
def fraction? : List Char → Option (List Char)
  | '.' :: cs => (digits? Char.isDigit cs).map skipExponent
  | _ => none

/-- Reads a decimal number. -/
def decimal? (cs : List Char) : Option (List Char) :=
  match digits? Char.isDigit cs with
  | some rest => some (skipExponent (skipPoint rest))
  | none => fraction? cs

/-- Whether a text does not begin with a letter or digit. -/
def endsWord (cs : List Char) : Bool := cs.head?.all fun c => !decide (IsWordCharacter c)

/-- **Reads a number**, which does not run into a word. -/
def number? (cs : List Char) : Option (List Char) :=
  ((hexadecimal? cs).or (decimal? cs)).filter endsWord

/-- **Reads a word.** -/
def word? : List Char → Option (List Char)
  | c :: cs =>
    if c.isAlpha = true ∨ c = '_' then some (cs.dropWhile fun d => decide (IsWordCharacter d))
    else none
  | [] => none

/-- Reads a word or a number. -/
def token? (cs : List Char) : Option (List Char) := (word? cs).or (number? cs)

/-! ## The grammar

The same parts once more, as what a text consists of and without a word about
reading it. The two descriptions are kept apart, since a result about the
reader alone would say only that it accepts what it accepts. -/

/-- What may follow a digit in a row of digits. -/
inductive DigitTail (p : Char → Bool) : List Char → Prop where
  /-- Nothing. -/
  | nil : DigitTail p []
  /-- A digit. -/
  | digit {d : Char} {ds : List Char} (hd : p d = true) :
    DigitTail p ds → DigitTail p (d :: ds)
  /-- An underscore and a digit. -/
  | apart {d : Char} {ds : List Char} (hd : p d = true) :
    DigitTail p ds → DigitTail p ('_' :: d :: ds)

/-- **A row of digits**, underscores between them. -/
inductive Digits (p : Char → Bool) : List Char → Prop where
  /-- The first of them is a digit. -/
  | intro {d : Char} {ds : List Char} (hd : p d = true) (hds : DigitTail p ds) : Digits p (d :: ds)

/-- **A point** and the digits behind it, or neither. -/
inductive PointPart : List Char → Prop where
  /-- No point. -/
  | none : PointPart []
  /-- A point without digits. -/
  | bare : PointPart ['.']
  /-- A point with digits. -/
  | digits {ds : List Char} (hds : Digits Char.isDigit ds) : PointPart ('.' :: ds)

/-- **An exponent**, or none. -/
inductive ExponentPart : List Char → Prop where
  /-- No exponent. -/
  | none : ExponentPart []
  /-- The letter, a sign and digits. -/
  | exponent {c : Char} {sign ds : List Char} {negative : Bool} (hc : c = 'e' ∨ c = 'E')
    (hsign : SignText sign negative) (hds : Digits Char.isDigit ds) :
    ExponentPart (c :: (sign ++ ds))

/-- **A number without its sign.** -/
inductive IsNumber : List Char → Prop where
  /-- In hexadecimal. -/
  | hexadecimal {x : Char} {ds : List Char} (hx : x = 'x' ∨ x = 'X')
    (hds : Digits isHexDigit ds) : IsNumber ('0' :: x :: ds)
  /-- Digits in front of the point, if there is one. -/
  | decimal {ds point exponent : List Char} (hds : Digits Char.isDigit ds)
    (hpoint : PointPart point) (hexponent : ExponentPart exponent) :
    IsNumber (ds ++ (point ++ exponent))
  /-- Digits behind the point only. -/
  | fraction {ds exponent : List Char} (hds : Digits Char.isDigit ds)
    (hexponent : ExponentPart exponent) : IsNumber ('.' :: (ds ++ exponent))

/-- **A word**: an identifier or a keyword. -/
inductive IsWord : List Char → Prop where
  /-- A letter, then letters and digits. -/
  | intro {c : Char} {cs : List Char} (hc : c.isAlpha = true ∨ c = '_')
    (hcs : ∀ d ∈ cs, IsWordCharacter d) : IsWord (c :: cs)

/-- **A single token that stands for a value.** -/
def IsToken (cs : List Char) : Prop := IsWord cs ∨ IsNumber cs

end OperandText

/-- **Reads an operand** off the beginning of a text. -/
def operand? : List Char → Option (List Char)
  | '-' :: '-' :: _ => none
  | '-' :: cs => OperandText.token? cs
  | cs => OperandText.token? cs

/-- **An operand**: a word or a number, with one minus in front of it or
none. -/
inductive OperandText : List Char → Prop where
  /-- No sign. -/
  | plain {cs : List Char} (h : OperandText.IsToken cs) : OperandText cs
  /-- A minus. -/
  | negative {cs : List Char} (h : OperandText.IsToken cs) : OperandText ('-' :: cs)

namespace OperandText

/-! ## What is read is an operand

For every reader there is a part of the grammar in front of what it leaves
over. No condition on the rest is needed here: whatever the reader stopped at,
what it has passed is a number or a word. -/

/-- The digits that are skipped. -/
theorem exists_digitTail (p : Char → Bool) (cs : List Char) :
    ∃ ds, DigitTail p ds ∧ cs = ds ++ skipDigits p cs := by
  fun_induction skipDigits p cs with
  | case1 d cs hd ih =>
    obtain ⟨ds, hds, hcs⟩ := ih
    exact ⟨'_' :: d :: ds, .apart hd hds, by rw [List.cons_append, List.cons_append, ← hcs]⟩
  | case2 d cs hd => exact ⟨[], .nil, rfl⟩
  | case3 d cs hne hd ih =>
    obtain ⟨ds, hds, hcs⟩ := ih
    exact ⟨d :: ds, .digit hd hds, by rw [List.cons_append, ← hcs]⟩
  | case4 d cs hne hd => exact ⟨[], .nil, rfl⟩
  | case5 => exact ⟨[], .nil, rfl⟩

theorem exists_digits {p : Char → Bool} {cs rest : List Char} (h : digits? p cs = some rest) :
    ∃ ds, Digits p ds ∧ cs = ds ++ rest := by
  cases cs with
  | nil => cases h
  | cons c cs =>
    rw [digits?, Option.ite_none_right_eq_some] at h
    obtain ⟨hc, h⟩ := h
    obtain ⟨ds, hds, hcs⟩ := exists_digitTail p cs
    exact ⟨c :: ds, .intro hc hds, by rw [List.cons_append, ← Option.some.inj h, ← hcs]⟩

/-- The point that is skipped. -/
theorem exists_pointPart (cs : List Char) : ∃ point, PointPart point ∧ cs = point ++ skipPoint cs := by
  unfold skipPoint
  split
  · next cs =>
    cases hdigits : digits? Char.isDigit cs with
    | none => exact ⟨['.'], .bare, rfl⟩
    | some rest =>
      obtain ⟨ds, hds, rfl⟩ := exists_digits hdigits
      exact ⟨'.' :: ds, .digits hds, rfl⟩
  · exact ⟨[], .none, rfl⟩

/-- The exponent that is skipped. -/
theorem exists_exponentPart (cs : List Char) :
    ∃ exponent, ExponentPart exponent ∧ cs = exponent ++ skipExponent cs := by
  unfold skipExponent
  split
  · next c cs =>
    split
    · next hc =>
      obtain ⟨sign, hsign, hcs⟩ := exists_signText cs
      cases hdigits : digits? Char.isDigit (splitSign cs).2 with
      | none => exact ⟨[], .none, rfl⟩
      | some rest =>
        obtain ⟨ds, hds, hrest⟩ := exists_digits hdigits
        refine ⟨c :: (sign ++ ds), .exponent hc hsign hds, ?_⟩
        rw [hrest] at hcs
        rw [hcs, Option.getD_some, List.cons_append, List.append_assoc]
    · exact ⟨[], .none, rfl⟩
  · exact ⟨[], .none, rfl⟩

/-- The number that is read. -/
theorem exists_number {cs rest : List Char} (h : number? cs = some rest) :
    ∃ token, IsNumber token ∧ cs = token ++ rest := by
  rw [number?, Option.filter_eq_some_iff, Option.or_eq_some_iff] at h
  obtain ⟨h | ⟨-, h⟩, -⟩ := h
  · unfold hexadecimal? at h
    split at h
    · next x cs =>
      rw [Option.ite_none_right_eq_some] at h
      obtain ⟨ds, hds, rfl⟩ := exists_digits h.2
      exact ⟨'0' :: x :: ds, .hexadecimal h.1 hds, rfl⟩
    · cases h
  · unfold decimal? at h
    split at h
    · next rest' hdigits =>
      obtain ⟨ds, hds, rfl⟩ := exists_digits hdigits
      obtain ⟨point, hpoint, hrest⟩ := exists_pointPart rest'
      obtain ⟨exponent, hexponent, hrest'⟩ := exists_exponentPart (skipPoint rest')
      rw [Option.some.inj h] at hrest'
      refine ⟨_, .decimal hds hpoint hexponent, ?_⟩
      rw [List.append_assoc, List.append_assoc, ← hrest', ← hrest]
    · unfold fraction? at h
      split at h
      · next cs =>
        obtain ⟨rest', hdigits, rfl⟩ := Option.map_eq_some_iff.mp h
        obtain ⟨ds, hds, rfl⟩ := exists_digits hdigits
        obtain ⟨exponent, hexponent, hrest'⟩ := exists_exponentPart rest'
        refine ⟨_, .fraction hds hexponent, ?_⟩
        rw [List.cons_append, List.append_assoc, ← hrest']
      · cases h

/-- The word that is read. -/
theorem exists_word {cs rest : List Char} (h : word? cs = some rest) :
    ∃ token, IsWord token ∧ cs = token ++ rest := by
  cases cs with
  | nil => cases h
  | cons c cs =>
    rw [word?, Option.ite_none_right_eq_some] at h
    obtain ⟨hc, h⟩ := h
    refine ⟨c :: cs.takeWhile fun d => decide (IsWordCharacter d),
      .intro hc fun d hd => by simpa using List.mem_takeWhile_imp hd, ?_⟩
    rw [← Option.some.inj h, List.cons_append, List.takeWhile_append_dropWhile]

theorem exists_token {cs rest : List Char} (h : token? cs = some rest) :
    ∃ token, IsToken token ∧ cs = token ++ rest := by
  rw [token?, Option.or_eq_some_iff] at h
  obtain h | ⟨-, h⟩ := h
  · obtain ⟨token, htoken, hcs⟩ := exists_word h
    exact ⟨token, .inl htoken, hcs⟩
  · obtain ⟨token, htoken, hcs⟩ := exists_number h
    exact ⟨token, .inr htoken, hcs⟩

end OperandText

/-- **What is read is an operand.** -/
theorem exists_operand {cs rest : List Char} (h : operand? cs = some rest) :
    ∃ operand, OperandText operand ∧ cs = operand ++ rest := by
  unfold operand? at h
  split at h
  · cases h
  · obtain ⟨token, htoken, rfl⟩ := OperandText.exists_token h
    exact ⟨'-' :: token, .negative htoken, rfl⟩
  · obtain ⟨token, htoken, rfl⟩ := OperandText.exists_token h
    exact ⟨token, .plain htoken, rfl⟩

/-! ## An operand is read as a whole

The other direction depends on what comes next, since a reader takes as much as
it can. `Stops` is what the rest of a text has to be for a row of digits to end
in front of it, and a boundary does that for every part at once (`Foreign`): it
is no digit, no point, no letter and no sign. The parts of a number are then
gone through from the last to the first, because what stands behind the digits
is the point or the exponent, and only behind them the boundary. -/

namespace OperandText

/-- A row of digits does not go on. -/
def Stops (p : Char → Bool) (rest : List Char) : Prop := ∀ c ∈ rest.head?, p c = false ∧ c ≠ '_'

/-- **A character of no operand**, in any of its places. -/
structure Foreign (c : Char) : Prop where
  /-- It is no digit. -/
  digit : c.isDigit = false ∧ c ≠ '_'
  /-- Nor a hexadecimal one. -/
  hexDigit : isHexDigit c = false ∧ c ≠ '_'
  /-- It does not go on a word. -/
  word : ¬ IsWordCharacter c
  /-- It is no point. -/
  point : c ≠ '.'
  /-- It begins no exponent. -/
  exponent : ¬ (c = 'e' ∨ c = 'E')
  /-- It does not announce hexadecimal digits. -/
  hexadecimal : c ≠ 'x' ∧ c ≠ 'X'

theorem foreign_of_mem_boundaries {c : Char} (h : c ∈ boundaries) : Foreign c := by
  have hall : ∀ c ∈ boundaries, (c.isDigit = false ∧ c ≠ '_') ∧ (isHexDigit c = false ∧ c ≠ '_') ∧
      ¬ IsWordCharacter c ∧ c ≠ '.' ∧ ¬ (c = 'e' ∨ c = 'E') ∧ c ≠ 'x' ∧ c ≠ 'X' := by decide
  obtain ⟨hdigit, hhexDigit, hword, hpoint, hexponent, hhexadecimal⟩ := hall c h
  exact ⟨hdigit, hhexDigit, hword, hpoint, hexponent, hhexadecimal⟩

theorem not_isDigit_of_letter {c : Char} (h : c.isAlpha = true ∨ c = '_') :
    c.isDigit = false := by
  by_contra hdigit
  have hstart := (Lexeme.start_of_letter h).symm.trans
    (Lexeme.start_of_isDigit (Bool.of_not_eq_false hdigit))
  cases hstart

section Digits

variable {p : Char → Bool} {ds rest : List Char}

/-- Digits are skipped up to where they stop. -/
theorem DigitTail.skipDigits (hp : p '_' = false) (h : DigitTail p ds) (hrest : Stops p rest) :
    OperandText.skipDigits p (ds ++ rest) = rest := by
  induction h with
  | nil =>
    rw [List.nil_append]
    unfold OperandText.skipDigits
    split
    · exact absurd rfl (hrest '_' rfl).2
    · next c cs _ => rw [if_neg (by simp [(hrest c rfl).1])]
    · rfl
  | @digit d ds hd _ ih =>
    have hne : d ≠ '_' := fun heq => by
      rw [heq, hp] at hd
      cases hd
    rw [List.cons_append, OperandText.skipDigits, if_pos hd, ih]
    exact fun _ _ heq _ => hne heq
  | apart hd _ ih => rw [List.cons_append, List.cons_append, OperandText.skipDigits, if_pos hd, ih]

theorem Digits.digits? (hp : p '_' = false) (h : Digits p ds) (hrest : Stops p rest) :
    OperandText.digits? p (ds ++ rest) = some rest := by
  obtain ⟨hd, hds⟩ := h
  rw [List.cons_append, OperandText.digits?, if_pos hd, hds.skipDigits hp hrest]

/-- Behind the first digit comes a digit, an underscore or what is behind all
of them. -/
theorem DigitTail.head (h : DigitTail p ds) :
    ∀ c ∈ (ds ++ rest).head?, p c = true ∨ c = '_' ∨ c ∈ rest.head? := by
  intro c hc
  cases h with
  | nil => exact .inr (.inr hc)
  | digit hd _ => exact .inl (Option.some.inj hc ▸ hd)
  | apart _ _ => exact .inr (.inl (Option.some.inj hc).symm)

end Digits

section Parts

variable {point exponent rest : List Char}

theorem ExponentPart.head (h : ExponentPart exponent) (hrest : AtBoundary rest) :
    ∀ c ∈ (exponent ++ rest).head?, c = 'e' ∨ c = 'E' ∨ c ∈ boundaries := by
  intro c hc
  cases h with
  | none => exact .inr (.inr (hrest c hc))
  | exponent he _ _ => exact (Option.some.inj hc ▸ he).imp_right .inl

/-- Digits stop at an exponent, and a point is none. -/
theorem ExponentPart.stops (h : ExponentPart exponent) (hrest : AtBoundary rest) :
    Stops Char.isDigit (exponent ++ rest) ∧ ∀ c ∈ (exponent ++ rest).head?, c ≠ '.' := by
  have hhead : ∀ c ∈ (exponent ++ rest).head?, (c.isDigit = false ∧ c ≠ '_') ∧ c ≠ '.' := by
    intro c hc
    rcases h.head hrest c hc with rfl | rfl | hc
    · decide
    · decide
    · exact ⟨(foreign_of_mem_boundaries hc).digit, (foreign_of_mem_boundaries hc).point⟩
  exact ⟨fun c hc => (hhead c hc).1, fun c hc => (hhead c hc).2⟩

/-- **An exponent is read** in front of a boundary. -/
theorem ExponentPart.skipExponent (h : ExponentPart exponent) (hrest : AtBoundary rest) :
    OperandText.skipExponent (exponent ++ rest) = rest := by
  cases h with
  | none =>
    rw [List.nil_append]
    unfold OperandText.skipExponent
    split
    · next c cs => rw [if_neg (foreign_of_mem_boundaries (hrest c rfl)).exponent]
    · rfl
  | @exponent c sign ds negative hc hsign hds =>
    have hstops : Stops Char.isDigit rest := fun d hd =>
      (foreign_of_mem_boundaries (hrest d hd)).digit
    have hread := hds.digits? rfl hstops
    have hsplit : splitSign (sign ++ (ds ++ rest)) = (negative, ds ++ rest) := by
      refine hsign.splitSign fun d hd => ?_
      obtain ⟨hdigit, _⟩ := hds
      exact not_sign_of_isDigit (Option.some.inj hd ▸ hdigit)
    rw [List.cons_append, List.append_assoc, OperandText.skipExponent, if_pos hc, hsplit, hread]
    rfl

/-- Behind the digits in front of a point stands the point, or else an
exponent. -/
theorem PointPart.head (h : PointPart point) (hexponent : ExponentPart exponent)
    (hrest : AtBoundary rest) :
    ∀ c ∈ (point ++ (exponent ++ rest)).head?, c = '.' ∨ c = 'e' ∨ c = 'E' ∨ c ∈ boundaries := by
  intro c hc
  cases h with
  | none => exact .inr (hexponent.head hrest c hc)
  | bare => exact .inl (Option.some.inj hc).symm
  | digits _ => exact .inl (Option.some.inj hc).symm

theorem PointPart.stops (h : PointPart point) (hexponent : ExponentPart exponent)
    (hrest : AtBoundary rest) : Stops Char.isDigit (point ++ (exponent ++ rest)) := by
  intro c hc
  rcases h.head hexponent hrest c hc with rfl | rfl | rfl | hc
  · decide
  · decide
  · decide
  · exact (foreign_of_mem_boundaries hc).digit

/-- **A point is read** with its digits. -/
theorem PointPart.skipPoint (h : PointPart point) (hstops : Stops Char.isDigit rest)
    (hpoint : ∀ c ∈ rest.head?, c ≠ '.') : OperandText.skipPoint (point ++ rest) = rest := by
  cases h with
  | none =>
    rw [List.nil_append]
    unfold OperandText.skipPoint
    split
    · exact absurd rfl (hpoint '.' rfl)
    · rfl
  -- the point alone: the digits that might follow it are looked for in vain
  | bare =>
    rw [List.singleton_append, OperandText.skipPoint]
    cases rest with
    | nil => rfl
    | cons c cs =>
      rw [OperandText.digits?, if_neg (by simp [(hstops c rfl).1])]
      rfl
  | digits hds =>
    rw [List.cons_append, OperandText.skipPoint, hds.digits? rfl hstops]
    rfl

end Parts

section Tokens

variable {token rest : List Char}

/-- A boundary ends a word. -/
theorem endsWord_of_atBoundary (h : AtBoundary rest) : endsWord rest = true := by
  cases rest with
  | nil => rfl
  | cons c cs => simp [endsWord, (foreign_of_mem_boundaries (h c rfl)).word]

/-- What is not in hexadecimal has no `x` in the second place. -/
theorem hexadecimal?_eq_none {c : Char} {cs : List Char}
    (h : ∀ x ∈ cs.head?, x ≠ 'x' ∧ x ≠ 'X') : hexadecimal? (c :: cs) = none := by
  unfold hexadecimal?
  split
  · next x cs heq =>
    obtain ⟨-, rfl⟩ := List.cons.inj heq
    exact if_neg (not_or.mpr (h x rfl))
  · rfl

/-- Decimal digits with their point and exponent are not in hexadecimal. -/
theorem Digits.hexadecimal?_eq_none {ds : List Char} (h : Digits Char.isDigit ds)
    (hrest : ∀ c ∈ rest.head?, c = '.' ∨ c = 'e' ∨ c = 'E' ∨ c ∈ boundaries) :
    hexadecimal? (ds ++ rest) = none := by
  obtain ⟨_, hds⟩ := h
  refine OperandText.hexadecimal?_eq_none fun x hx => ?_
  rcases hds.head x hx with hdigit | rfl | hx
  · constructor
    · rintro rfl
      cases hdigit
    · rintro rfl
      cases hdigit
  · decide
  · rcases hrest x hx with rfl | rfl | rfl | hx
    · decide
    · decide
    · decide
    · exact (foreign_of_mem_boundaries hx).hexadecimal

/-- **A number is read** in front of a boundary. -/
theorem IsNumber.number? (h : IsNumber token) (hrest : AtBoundary rest) :
    OperandText.number? (token ++ rest) = some rest := by
  have hread : (hexadecimal? (token ++ rest)).or (decimal? (token ++ rest)) = some rest := by
    cases h with
    | hexadecimal hx hds =>
      have hstops : Stops isHexDigit rest := fun d hd =>
        (foreign_of_mem_boundaries (hrest d hd)).hexDigit
      rw [List.cons_append, List.cons_append, hexadecimal?, if_pos hx, hds.digits? rfl hstops]
      rfl
    -- hexadecimal is tried first, and this is none
    | @decimal ds point exponent hds hpoint hexponent =>
      obtain ⟨hstops, hne⟩ := hexponent.stops hrest
      have hdigits := hds.digits? rfl (hpoint.stops hexponent hrest)
      rw [List.append_assoc, List.append_assoc,
        hds.hexadecimal?_eq_none (hpoint.head hexponent hrest), decimal?, hdigits]
      dsimp only
      rw [hpoint.skipPoint hstops hne, hexponent.skipExponent hrest]
      rfl
    | @fraction ds exponent hds hexponent =>
      have hdigits := hds.digits? rfl (hexponent.stops hrest).1
      rw [List.cons_append, List.append_assoc]
      show (digits? Char.isDigit (ds ++ (exponent ++ rest))).map OperandText.skipExponent = some rest
      rw [hdigits, Option.map_some, hexponent.skipExponent hrest]
  rw [OperandText.number?, hread, Option.filter_some, if_pos (endsWord_of_atBoundary hrest)]

/-- **A word is read** in front of a boundary. -/
theorem IsWord.word? (h : IsWord token) (hrest : AtBoundary rest) :
    OperandText.word? (token ++ rest) = some rest := by
  obtain ⟨hc, hcs⟩ := h
  have hdrop := (span_append (p := fun d => decide (IsWordCharacter d))
    (fun d hd => decide_eq_true (hcs d hd))
    fun d hd => decide_eq_false (foreign_of_mem_boundaries (hrest d hd)).word).2
  rw [List.cons_append, OperandText.word?, if_pos hc, hdrop]

/-- A number is no word. -/
theorem IsNumber.word?_eq_none (h : IsNumber token) : OperandText.word? (token ++ rest) = none := by
  have hfirst : ∃ c cs, token = c :: cs ∧ (c.isDigit = true ∨ c = '.') := by
    cases h with
    | hexadecimal _ _ => exact ⟨_, _, rfl, .inl rfl⟩
    | decimal hds _ _ =>
      obtain ⟨hd, _⟩ := hds
      exact ⟨_, _, rfl, .inl hd⟩
    | fraction _ _ => exact ⟨_, _, rfl, .inr rfl⟩
  obtain ⟨c, cs, rfl, hc⟩ := hfirst
  have hletter : ¬ (c.isAlpha = true ∨ c = '_') := by
    intro hletter
    rcases hc with hc | rfl
    · rw [not_isDigit_of_letter hletter] at hc
      cases hc
    · revert hletter
      decide
  rw [List.cons_append, OperandText.word?, if_neg hletter]

/-- **A token is read** in front of a boundary. -/
theorem IsToken.token? (h : IsToken token) (hrest : AtBoundary rest) :
    OperandText.token? (token ++ rest) = some rest := by
  rw [OperandText.token?]
  rcases h with h | h
  · rw [h.word? hrest, Option.some_or]
  · rw [h.word?_eq_none, h.number? hrest, Option.none_or]

/-- A token does not begin with a hyphen. -/
theorem IsToken.exists_cons (h : IsToken token) : ∃ c cs, token = c :: cs ∧ c ≠ '-' := by
  rcases h with ⟨hc, -⟩ | ⟨-, -⟩ | ⟨⟨hd, -⟩, -, -⟩ | ⟨-, -⟩
  · exact ⟨_, _, rfl, fun heq => by rw [heq] at hc; revert hc; decide⟩
  · exact ⟨_, _, rfl, by decide⟩
  · exact ⟨_, _, rfl, (not_sign_of_isDigit hd).1⟩
  · exact ⟨_, _, rfl, by decide⟩

end Tokens

end OperandText

/-- **An operand is read as a whole**: where a text goes on at a boundary, the
reader stands behind the text exactly if that is an operand. -/
theorem operand?_eq_some_iff {cs rest : List Char} (hrest : AtBoundary rest) :
    operand? (cs ++ rest) = some rest ↔ OperandText cs := by
  constructor
  · intro h
    obtain ⟨operand, hoperand, heq⟩ := exists_operand h
    exact List.append_cancel_right heq ▸ hoperand
  · intro h
    cases h with
    -- the reader tells a minus by the first character, and no token begins with one
    | plain h =>
      obtain ⟨c, ds, rfl, hc⟩ := h.exists_cons
      rw [← h.token? hrest, List.cons_append]
      unfold operand?
      split
      · next heq => exact absurd (List.cons.inj heq).1 hc
      · next heq => exact absurd (List.cons.inj heq).1 hc
      · rfl
    | @negative ds h =>
      have hread := h.token? hrest
      obtain ⟨c, cs, rfl, hc⟩ := h.exists_cons
      rw [← hread, List.cons_append, List.cons_append]
      unfold operand?
      split
      · next heq => exact absurd (List.cons.inj (List.cons.inj heq).2).1 hc
      · next heq => rw [(List.cons.inj heq).2]
      · next _ hne => exact absurd rfl (hne _)

/-- At the end of the text nothing is left. -/
theorem operand?_eq_some_nil_iff {cs : List Char} : operand? cs = some [] ↔ OperandText cs := by
  have hread : operand? (cs ++ []) = some [] ↔ OperandText cs := operand?_eq_some_iff nofun
  rwa [List.append_nil] at hread

instance (cs : List Char) : Decidable (OperandText cs) :=
  decidable_of_iff _ operand?_eq_some_nil_iff

/-! ## Hyphens

Two hyphens begin a comment, and a comment takes the rest of the statement with
it. Within an operand there is a hyphen at two places only, in front of the
number and in front of the exponent, with a digit or a letter behind each, so
that a text with two of them side by side is no operand. -/

/-- **No two hyphens side by side.** -/
def HyphensApart (cs : List Char) : Prop := cs.IsChain fun c d => ¬ (c = '-' ∧ d = '-')

instance (cs : List Char) : Decidable (HyphensApart cs) :=
  inferInstanceAs (Decidable (List.IsChain _ _))

theorem IsWordCharacter.ne_hyphen {c : Char} (h : IsWordCharacter c) : c ≠ '-' := by
  rintro rfl
  revert h
  decide

theorem hyphensApart_cons {c : Char} {cs : List Char} :
    HyphensApart (c :: cs) ↔ (c = '-' → cs.head? ≠ some '-') ∧ HyphensApart cs := by
  rw [HyphensApart, List.isChain_cons]
  refine and_congr_left fun _ => ⟨fun h hc hd => h '-' hd ⟨hc, rfl⟩, fun h d hd hcd => ?_⟩
  exact h hcd.1 (hcd.2 ▸ hd)

theorem hyphensApart_cons_of_ne {c : Char} (hc : c ≠ '-') {cs : List Char} :
    HyphensApart (c :: cs) ↔ HyphensApart cs := by
  rw [hyphensApart_cons]
  exact and_iff_right fun h => absurd h hc

theorem hyphensApart_append_of_ne {cs ds : List Char} (hcs : ∀ c ∈ cs, c ≠ '-') :
    HyphensApart (cs ++ ds) ↔ HyphensApart ds := by
  induction cs with
  | nil => rfl
  | cons c cs ih =>
    rw [List.forall_mem_cons] at hcs
    rw [List.cons_append, hyphensApart_cons_of_ne hcs.1, ih hcs.2]

namespace OperandText

/-- Digits are no hyphens. -/
theorem Digits.ne_hyphen {p : Char → Bool} (hp : p '-' = false) {ds : List Char}
    (h : Digits p ds) : ∀ c ∈ ds, c ≠ '-' := by
  have hne : ∀ {d : Char}, p d = true → d ≠ '-' := by
    rintro d hd rfl
    rw [hp] at hd
    cases hd
  have htail : ∀ {ds : List Char}, DigitTail p ds → ∀ c ∈ ds, c ≠ '-' := by
    intro ds h
    induction h with
    | nil => exact nofun
    | digit hd _ ih => exact List.forall_mem_cons.mpr ⟨hne hd, ih⟩
    | apart hd _ ih =>
      exact List.forall_mem_cons.mpr ⟨by decide, List.forall_mem_cons.mpr ⟨hne hd, ih⟩⟩
  obtain ⟨hd, hds⟩ := h
  exact List.forall_mem_cons.mpr ⟨hne hd, htail hds⟩

theorem PointPart.ne_hyphen {point : List Char} (h : PointPart point) : ∀ c ∈ point, c ≠ '-' := by
  cases h with
  | none => exact nofun
  | bare => exact List.forall_mem_singleton.mpr (by decide)
  | digits hds => exact List.forall_mem_cons.mpr ⟨by decide, hds.ne_hyphen rfl⟩

theorem hyphensApart_of_ne {cs : List Char} (h : ∀ c ∈ cs, c ≠ '-') : HyphensApart cs := by
  rw [← List.append_nil cs, hyphensApart_append_of_ne h]
  exact .nil

/-- An exponent has one hyphen at most. -/
theorem ExponentPart.hyphensApart {exponent : List Char} (h : ExponentPart exponent) :
    HyphensApart exponent := by
  cases h with
  | none => exact .nil
  | @exponent c sign ds negative hc hsign hds =>
    have hletter : c ≠ '-' := by
      rcases hc with rfl | rfl <;> decide
    have hne := hds.ne_hyphen rfl
    rw [hyphensApart_cons_of_ne hletter]
    cases hsign with
    | none => exact hyphensApart_of_ne hne
    | plus => exact (hyphensApart_cons_of_ne (by decide)).mpr (hyphensApart_of_ne hne)
    -- the one hyphen has a digit behind it
    | minus =>
      refine hyphensApart_cons.mpr ⟨fun _ hhead => ?_, hyphensApart_of_ne hne⟩
      exact hne '-' (List.mem_of_mem_head? hhead) rfl

/-- A token keeps its hyphens apart. -/
theorem IsToken.hyphensApart {token : List Char} (h : IsToken token) : HyphensApart token := by
  rcases h with ⟨hc, hcs⟩ | ⟨hx, hds⟩ | ⟨hds, hpoint, hexponent⟩ | ⟨hds, hexponent⟩
  · refine hyphensApart_of_ne (List.forall_mem_cons.mpr ⟨?_, fun d hd => (hcs d hd).ne_hyphen⟩)
    rintro rfl
    revert hc
    decide
  · refine hyphensApart_of_ne (List.forall_mem_cons.mpr ⟨by decide,
      List.forall_mem_cons.mpr ⟨?_, hds.ne_hyphen rfl⟩⟩)
    rcases hx with rfl | rfl <;> decide
  · rw [hyphensApart_append_of_ne (hds.ne_hyphen rfl),
      hyphensApart_append_of_ne hpoint.ne_hyphen]
    exact hexponent.hyphensApart
  · rw [hyphensApart_cons_of_ne (by decide), hyphensApart_append_of_ne (hds.ne_hyphen rfl)]
    exact hexponent.hyphensApart

end OperandText

/-- **An operand keeps its hyphens apart.** -/
theorem OperandText.hyphensApart {cs : List Char} (h : OperandText cs) : HyphensApart cs := by
  cases h with
  | plain h => exact h.hyphensApart
  | negative h =>
    obtain ⟨c, cs, rfl, hc⟩ := h.exists_cons
    exact hyphensApart_cons.mpr ⟨fun _ hhead => hc (Option.some.inj hhead), h.hyphensApart⟩

end TypedSql

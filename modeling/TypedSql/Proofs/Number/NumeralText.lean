import TypedSql.Proofs.Number.Nearest

/-!
# The texts of numbers

Which texts are numbers, and which number each of them denotes, as a grammar:
`IntegerText` for an optional sign and digits, of any length and with any
zeros in front, and `DecimalText` for a sign, digits around a point and an
exponent. The two readers accept exactly these texts and return what they
denote (`readInteger?_eq_some_iff`, `Numeral.read?_iff`).

A reader cuts a text where a run of digits ends. The grammar puts it together
again, so all that has to be seen is that no part of a numeral begins with a
character of the part before it.
-/

namespace TypedSql

/-- Characters of one kind end where the first other character stands. -/
theorem span_append {p : Char → Bool} {cs rest : List Char} (hcs : ∀ c ∈ cs, p c = true)
    (hrest : ∀ c ∈ rest.head?, p c = false) :
    (cs ++ rest).takeWhile p = cs ∧ (cs ++ rest).dropWhile p = rest := by
  rw [List.takeWhile_append_of_pos hcs, List.dropWhile_append_of_pos hcs]
  cases rest with
  | nil => exact ⟨List.append_nil cs, rfl⟩
  | cons c rest =>
    have hc : ¬ p c = true := by simp [hrest c rfl]
    rw [List.takeWhile_cons_of_neg hc, List.dropWhile_cons_of_neg hc, List.append_nil]
    exact ⟨rfl, rfl⟩

/-! ## Signs and digits -/

/-- **The sign in front of a number**, and whether it is a minus. -/
inductive SignText : List Char → Bool → Prop where
  /-- No sign. -/
  | none : SignText [] false
  /-- A plus. -/
  | plus : SignText ['+'] false
  /-- A minus. -/
  | minus : SignText ['-'] true

/-- **Digits and nothing else.** -/
def DigitText (cs : List Char) : Prop := ∀ c ∈ cs, c.isDigit = true

/-- What is behind a sign begins with none itself. -/
theorem splitSign_of_head {cs : List Char} (h : ∀ c ∈ cs.head?, c ≠ '-' ∧ c ≠ '+') :
    splitSign cs = (false, cs) := by
  unfold splitSign
  split
  · exact absurd rfl (h '-' rfl).1
  · exact absurd rfl (h '+' rfl).2
  · rfl

/-- **A sign is split off** a text that does not begin with another. -/
theorem SignText.splitSign {sign cs : List Char} {negative : Bool} (h : SignText sign negative)
    (hcs : ∀ c ∈ cs.head?, c ≠ '-' ∧ c ≠ '+') :
    TypedSql.splitSign (sign ++ cs) = (negative, cs) := by
  cases h with
  | none => exact splitSign_of_head hcs
  | plus => rfl
  | minus => rfl

theorem exists_signText (cs : List Char) :
    ∃ sign, SignText sign (splitSign cs).1 ∧ cs = sign ++ (splitSign cs).2 := by
  unfold splitSign
  split
  · exact ⟨['-'], .minus, rfl⟩
  · exact ⟨['+'], .plus, rfl⟩
  · exact ⟨[], .none, rfl⟩

theorem not_sign_of_isDigit {c : Char} (h : c.isDigit = true) : c ≠ '-' ∧ c ≠ '+' := by
  constructor
  · rintro rfl
    cases h
  · rintro rfl
    cases h

namespace DigitText

theorem takeWhile (cs : List Char) : DigitText (cs.takeWhile Char.isDigit) :=
  fun _ hc => List.mem_takeWhile_imp hc

end DigitText

/-! ## Integers -/

/-- **The text of an integer**: an optional sign and one or more digits. -/
inductive IntegerText : List Char → Int → Prop where
  /-- The number that the digits denote, with the sign. -/
  | intro {sign digits : List Char} {negative : Bool} (hsign : SignText sign negative)
      (hne : digits ≠ []) (hdigits : DigitText digits) :
      IntegerText (sign ++ digits) (signed negative (Nat.ofDigitChars 10 digits 0))

/-- **The texts of integers are what is read as an integer.** -/
theorem readInteger?_eq_some_iff {cs : List Char} {n : Int} :
    readInteger? cs = some n ↔ IntegerText cs n := by
  constructor
  · intro h
    obtain ⟨sign, hsign, hcs⟩ := exists_signText cs
    simp only [readInteger?] at h
    generalize splitSign cs = parts at h hsign hcs
    obtain ⟨m, hm, rfl⟩ := Option.map_eq_some_iff.mp h
    rw [readDigits?, Option.ite_none_right_eq_some] at hm
    obtain ⟨⟨hne, hdigits⟩, hm⟩ := hm
    rw [hcs, ← Option.some.inj hm]
    exact .intro hsign hne (List.all_eq_true.mp hdigits)
  · rintro ⟨hsign, hne, hdigits⟩
    have hsplit := hsign.splitSign fun c hc =>
      not_sign_of_isDigit (hdigits c (List.mem_of_mem_head? hc))
    simp only [readInteger?, hsplit]
    rw [readDigits?, if_pos ⟨hne, List.all_eq_true.mpr hdigits⟩, Option.map_some]

/-! ## Decimals

A numeral has four parts one behind the other, any of which may be missing.
What is left for a later part begins with a character that ends the earlier
one: a point or the letter of an exponent ends digits, and neither is a sign
(`PointText.head`). With this each reader finds its own part, and the other
direction only puts together what the readers have cut. -/

/-- **A point and the digits behind it**, or neither. -/
inductive PointText : List Char → List Char → Prop where
  /-- No point. -/
  | none : PointText [] []
  /-- A point. -/
  | point {fraction : List Char} (hfraction : DigitText fraction) :
      PointText ('.' :: fraction) fraction

/-- **An exponent**, or none. -/
inductive ExponentText : List Char → Int → Prop where
  /-- No exponent. -/
  | none : ExponentText [] 0
  /-- The letter and an integer. -/
  | exponent {c : Char} {cs : List Char} {e : Int} (hc : c = 'e' ∨ c = 'E')
      (he : IntegerText cs e) : ExponentText (c :: cs) e

/-- The exponents are what is read as one. -/
theorem Numeral.readExponent?_eq_some_iff {cs : List Char} {e : Int} :
    readExponent? cs = some e ↔ ExponentText cs e := by
  constructor
  · intro h
    cases cs with
    | nil => exact Option.some.inj h ▸ .none
    | cons c cs =>
      rw [readExponent?, Option.ite_none_right_eq_some] at h
      exact .exponent h.1 (readInteger?_eq_some_iff.mp h.2)
  · rintro (_ | ⟨hc, he⟩)
    · rfl
    · rw [readExponent?, if_pos hc]
      exact readInteger?_eq_some_iff.mpr he

/-- **The text of a decimal number**: an optional sign, digits with a point
before, among or behind them or with none, and an optional exponent. -/
inductive DecimalText : List Char → ℚ → Prop where
  /-- The number that the digits denote, moved by the exponent, with the
  sign. -/
  | intro {sign whole point fraction exponent : List Char} {negative : Bool} {e : Int}
      (hsign : SignText sign negative) (hwhole : DigitText whole)
      (hpoint : PointText point fraction) (hne : ¬ (whole = [] ∧ fraction = []))
      (hexponent : ExponentText exponent e) :
      DecimalText (sign ++ (whole ++ (point ++ exponent)))
        (withSign negative
          (Nat.ofDigitChars 10 (whole ++ fraction) 0 * 10 ^ (e - fraction.length)))

theorem ExponentText.head {cs : List Char} {e : Int} (h : ExponentText cs e) :
    ∀ c ∈ cs.head?, c = 'e' ∨ c = 'E' := by
  cases h with
  | none => exact fun c hc => by cases hc
  | exponent hc _ => exact fun c hc' => Option.some.inj hc' ▸ hc

/-- What is behind the digits before a point begins with no digit and no
sign. -/
theorem PointText.head {point fraction exponent : List Char} {e : Int}
    (hpoint : PointText point fraction) (hexponent : ExponentText exponent e) :
    ∀ c ∈ (point ++ exponent).head?, c.isDigit = false ∧ c ≠ '-' ∧ c ≠ '+' := by
  intro c hc
  have hc' : c = '.' ∨ c = 'e' ∨ c = 'E' := by
    cases hpoint with
    | none => exact .inr (hexponent.head c hc)
    | point _ => exact .inl (Option.some.inj hc).symm
  rcases hc' with rfl | rfl | rfl <;> decide

/-- Splits a point and the digits behind it off a text. -/
def splitPoint : List Char → List Char × List Char
  | '.' :: cs => (cs.takeWhile Char.isDigit, cs.dropWhile Char.isDigit)
  | cs => ([], cs)

/-- A point is split off with its digits. -/
theorem PointText.splitPoint {point fraction exponent : List Char} {e : Int}
    (hpoint : PointText point fraction) (hexponent : ExponentText exponent e) :
    TypedSql.splitPoint (point ++ exponent) = (fraction, exponent) := by
  cases hpoint with
  | none =>
    rw [List.nil_append]
    unfold TypedSql.splitPoint
    split
    · exact absurd (hexponent.head '.' rfl) (by decide)
    · rfl
  | point hfraction =>
    obtain ⟨htake, hdrop⟩ := span_append hfraction fun c hc => by
      rcases hexponent.head c hc with rfl | rfl <;> rfl
    rw [List.cons_append, TypedSql.splitPoint, htake, hdrop]

theorem exists_pointText (cs : List Char) :
    ∃ point, PointText point (splitPoint cs).1 ∧ cs = point ++ (splitPoint cs).2 := by
  unfold splitPoint
  split
  · next rest =>
    exact ⟨_, .point (DigitText.takeWhile rest),
      congrArg _ List.takeWhile_append_dropWhile.symm⟩
  · exact ⟨[], .none, rfl⟩

namespace Numeral

/-- The reader, with the split at the point as a function of its own. -/
theorem read?_eq (text : List Char) :
    read? text =
      let cs := (splitSign text).2
      let whole := cs.takeWhile Char.isDigit
      let parts := splitPoint (cs.dropWhile Char.isDigit)
      if whole = [] ∧ parts.1 = [] then none
      else (readExponent? parts.2).map fun e =>
        ⟨(splitSign text).1, Nat.ofDigitChars 10 (whole ++ parts.1) 0, e - parts.1.length⟩ := rfl

/-- **What is read as a decimal** is the text of one, and denotes its value. -/
theorem decimalText_of_read? {cs : List Char} {n : Numeral} (h : read? cs = some n) :
    DecimalText cs (withSign n.negative n.value) := by
  simp only [read?_eq, Option.ite_none_left_eq_some] at h
  obtain ⟨hne, h⟩ := h
  obtain ⟨e, he, rfl⟩ := Option.map_eq_some_iff.mp h
  obtain ⟨sign, hsign, hcs⟩ := exists_signText cs
  obtain ⟨point, hpoint, hrest⟩ := exists_pointText ((splitSign cs).2.dropWhile Char.isDigit)
  have htext : cs = sign ++ ((splitSign cs).2.takeWhile Char.isDigit ++
      (point ++ (splitPoint ((splitSign cs).2.dropWhile Char.isDigit)).2)) := by
    rw [← hrest, List.takeWhile_append_dropWhile]
    exact hcs
  have hdecimal := DecimalText.intro hsign (DigitText.takeWhile _) hpoint hne
    (readExponent?_eq_some_iff.mp he)
  rwa [← htext] at hdecimal

/-- **The text of a decimal is read as its value.** -/
theorem read?_of_decimalText {cs : List Char} {v : ℚ} (h : DecimalText cs v) :
    ∃ n, read? cs = some n ∧ withSign n.negative n.value = v := by
  obtain ⟨hsign, hwhole, hpoint, hne, hexponent⟩ := h
  rename_i sign whole point fraction exponent negative e
  have hhead := hpoint.head hexponent
  have hsplit : splitSign (sign ++ (whole ++ (point ++ exponent)))
      = (negative, whole ++ (point ++ exponent)) := by
    refine hsign.splitSign fun c hc => ?_
    cases whole with
    | nil => exact (hhead c hc).2
    | cons d ds => exact not_sign_of_isDigit (hwhole c (Option.some.inj hc ▸ List.mem_cons_self))
  obtain ⟨htake, hdrop⟩ := span_append hwhole fun c hc => (hhead c hc).1
  refine ⟨⟨negative, Nat.ofDigitChars 10 (whole ++ fraction) 0, e - fraction.length⟩, ?_, rfl⟩
  simp only [read?_eq, hsplit, htake, hdrop, hpoint.splitPoint hexponent]
  rw [if_neg hne, readExponent?_eq_some_iff.mpr hexponent, Option.map_some]

/-- **The texts of decimals are what is read as one.** -/
theorem read?_iff {cs : List Char} {v : ℚ} :
    (∃ n, read? cs = some n ∧ withSign n.negative n.value = v) ↔ DecimalText cs v := by
  constructor
  · rintro ⟨n, hn, rfl⟩
    exact decimalText_of_read? hn
  · exact read?_of_decimalText

end Numeral

/-- The text of an integer is one of a decimal. -/
theorem IntegerText.decimalText {cs : List Char} {n : Int} (h : IntegerText cs n) :
    DecimalText cs n := by
  obtain ⟨hsign, hne, hdigits⟩ := h
  rename_i sign digits negative
  have hdecimal := DecimalText.intro hsign hdigits .none (fun h => hne h.1) .none
  have hvalue : withSign negative (Nat.ofDigitChars 10 (digits ++ []) 0 *
      10 ^ ((0 : Int) - (([] : List Char).length : ℕ)))
      = (signed negative (Nat.ofDigitChars 10 digits 0) : ℚ) := by
    rw [List.append_nil]
    cases negative <;> simp [signed]
  rwa [hvalue, List.append_nil, List.append_nil] at hdecimal

end TypedSql

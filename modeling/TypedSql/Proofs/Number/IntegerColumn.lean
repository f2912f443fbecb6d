import TypedSql.Proofs.Number.NumeralText

/-!
# What a column of integers makes of a number

`Cell.ofIntegerText` asks three readers in turn: whether the characters are
those of numbers, whether the text is an integer of 64 bits, and which double
it is nearest to. `Cell.store_integer_exact` says what comes of it. The text
of an integer is stored as that integer when it has 64 bits and as the double
nearest to it when it has more; any other text becomes an integer only where
the nearest double is one.

The three meet between `wholeLimit` and `2 ^ 63`. An integer of more than 64
bits is read as a double, and a double below `wholeLimit` would be made an
integer again; but rounding is monotone (`Double.IsNearest.le_value`) and
`2 ^ 63` is a double, so the double of such an integer is never below it.
-/

namespace TypedSql

namespace Double

/-! ## Rounding is monotone

If the double that was chosen were beyond another one that lies between it and
the number, that one would be nearer. So nothing is needed but that no double
is nearer, and ties play no part. -/

namespace IsNearest

variable {x y : Float} {v a b : ℚ}

/-- **A double that is not above a number** is not above the double nearest
to it. -/
theorem le_value (h : IsNearest x v) (hx : value? x = some a) (hy : value? y = some b)
    (hb : b ≤ v) : b ≤ a := by
  have hnear := h.least a hx y b hy
  rw [abs_of_nonpos (sub_nonpos.mpr hb)] at hnear
  linarith only [hnear, neg_le_abs (a - v)]

/-- **A double that is not below a number** is not below the double nearest
to it. -/
theorem value_le (h : IsNearest x v) (hx : value? x = some a) (hy : value? y = some b)
    (hb : v ≤ b) : a ≤ b := by
  have hnear := h.least a hx y b hy
  rw [abs_of_nonneg (sub_nonneg.mpr hb)] at hnear
  linarith only [hnear, le_abs_self (a - v)]

end IsNearest

/-- The least power of two beyond 64 bits is a double. -/
theorem exists_value?_two_pow (negative : Bool) :
    ∃ y, value? y = some (withSign negative (2 ^ 63)) := by
  have hparts : Parts leadingBit 11 :=
    .inr ⟨by decide, by decide, by decide, by decide, .inr le_rfl⟩
  have hvalue := hparts.value?_ofMagnitude negative
  rw [cast_leadingBit, ← zpow_add₀ (by norm_num)] at hvalue
  exact ⟨_, hvalue⟩

/-- **A double that is an integer** has it as its value. -/
theorem value?_of_toInt? {x : Float} {whole : Int} (h : toInt? x = some whole) :
    value? x = some (whole : ℚ) := by
  unfold toInt? at h
  split at h
  · next negative significand exponent hmeaning =>
    rw [Option.ite_none_right_eq_some] at h
    obtain ⟨hscale, h⟩ := h
    simp only [Nat.shiftLeft_eq, Nat.one_mul] at hscale h
    -- the quotient is exact, so the shifts multiply by the power of two
    obtain ⟨quotient, rfl⟩ := Nat.dvd_of_mod_eq_zero hscale
    rw [Nat.mul_div_cancel_left _ (Nat.two_pow_pos _)] at h
    have hmagnitude : ((2 ^ (-exponent).toNat * quotient : ℕ) : ℚ) * 2 ^ exponent
        = (quotient * 2 ^ exponent.toNat : ℕ) := by
      rw [two_zpow_eq_div]
      push_cast
      field_simp
    rw [value?, hmeaning, ← Option.some.inj h]
    simp only [hmagnitude]
    cases negative <;> simp
  · cases h

end Double

/-! ## The column

The text of an integer that has 64 bits is never seen by the reader of
decimals. If it has more, its double is `2 ^ 63` or more away from zero, since
rounding is monotone, and so beyond `wholeLimit`, up to which a double that is
an integer is stored as one. -/

theorem IntegerText.looksNumeric {cs : List Char} {n : Int} (h : IntegerText cs n) :
    looksNumeric cs = true := by
  obtain ⟨hsign, hne, hdigits⟩ := h
  have hmagnitude := (WrittenMagnitude.of_digits hne hdigits).looksNumeric
  cases hsign with
  | none => exact hmagnitude.1
  | plus => simpa [TypedSql.looksNumeric] using hmagnitude.1
  | minus => exact hmagnitude.2

namespace Cell

/-- **A number is made an integer** only if its nearest double is one, and
then it is that double. -/
theorem eq_toInt_of_ofNumeral {n : Numeral} {m : Int64} (h : ofNumeral n = .integer m) :
    Double.value? n.toDouble = some (m.toInt : ℚ) ∧ m.toInt.natAbs < wholeLimit := by
  simp only [ofNumeral] at h
  split at h
  · next whole hwhole =>
    split at h
    · next hlt =>
      have hm : m.toInt = whole := by
        rw [← Cell.integer.inj h]
        refine Int64.toInt_ofInt_of_le ?_ ?_ <;> simp only [wholeLimit] at hlt <;> omega
      rw [hm]
      exact ⟨Double.value?_of_toInt? hwhole, hlt⟩
    · cases h
  · cases h

/-- A number is made an integer or the double nearest to it. -/
theorem ofNumeral_cases (n : Numeral) :
    (∃ m, ofNumeral n = .integer m) ∨ ofNumeral n = .real n.toDouble := by
  simp only [ofNumeral]
  split
  · split
    · exact .inl ⟨_, rfl⟩
    · exact .inr rfl
  · exact .inr rfl

/-- **A number of more than 64 bits is never made an integer.** -/
theorem ofNumeral_of_large {n : Numeral}
    (h : (2 : ℚ) ^ 63 ≤ withSign n.negative n.value ∨
      withSign n.negative n.value ≤ -2 ^ 63) : ofNumeral n = .real n.toDouble := by
  refine (ofNumeral_cases n).resolve_left ?_
  rintro ⟨m, hm⟩
  obtain ⟨hvalue, hlt⟩ := eq_toInt_of_ofNumeral hm
  simp only [wholeLimit] at hlt
  have hnearest := n.toDouble_isNearest
  rcases h with h | h
  · obtain ⟨y, hy⟩ := Double.exists_value?_two_pow false
    have hle := hnearest.le_value hvalue hy h
    rw [withSign_false] at hle
    have hle' : (2 ^ 63 : Int) ≤ m.toInt := by exact_mod_cast hle
    omega
  · obtain ⟨y, hy⟩ := Double.exists_value?_two_pow true
    have hle := hnearest.value_le hvalue hy h
    rw [withSign_true] at hle
    have hle' : m.toInt ≤ (-2 ^ 63 : Int) := by exact_mod_cast hle
    omega

/-- **A column of integers stores a number exactly or as the nearest double.**
The text of an integer is stored as the integer that it denotes if that has
64 bits, and as the double nearest to it if it has more. From any other text
an integer comes only where the text is a decimal whose nearest double is
that integer. -/
theorem store_integer_exact (s : String) :
    (∀ n, IntegerText s.toList n →
      if -2 ^ 63 ≤ n ∧ n ≤ 2 ^ 63 - 1 then
        ∃ m : Int64, m.toInt = n ∧ store .integer (.text s) = .integer m
      else ∃ x, store .integer (.text s) = .real x ∧ Double.IsNearest x n) ∧
    ((∀ n, ¬ IntegerText s.toList n) → ∀ m, store .integer (.text s) = .integer m →
      ∃ v x, DecimalText s.toList v ∧ Double.IsNearest x v ∧
        Double.value? x = some (m.toInt : ℚ) ∧ |m.toInt| < 2 ^ 63) := by
  constructor
  · intro n hn
    have hread := readInteger?_eq_some_iff.mpr hn
    simp only [store, ofIntegerText, hn.looksNumeric, hread, Option.bind_some, if_true]
    split
    · next hrange =>
      have hint : int64? n = some (Int64.ofInt n) := if_pos hrange
      rw [hint]
      exact ⟨Int64.ofInt n, Int64.toInt_ofInt_of_le hrange.1 (by omega), rfl⟩
    · next hrange =>
      have hint : int64? n = none := if_neg hrange
      -- beyond 64 bits the text is read once more, as a decimal
      obtain ⟨num, hnum, hvalue⟩ := Numeral.read?_iff.mpr hn.decimalText
      have hlarge : (2 : ℚ) ^ 63 ≤ n ∨ (n : ℚ) ≤ -2 ^ 63 := by
        rcases (by omega : (2 ^ 63 : Int) ≤ n ∨ n ≤ -2 ^ 63) with h | h
        · exact .inl (by exact_mod_cast h)
        · exact .inr (by exact_mod_cast h)
      rw [hint, hnum]
      refine ⟨num.toDouble, ofNumeral_of_large (hvalue ▸ hlarge), ?_⟩
      rw [← hvalue]
      exact num.toDouble_isNearest
  · intro hno m hm
    have hread : readInteger? s.toList = none :=
      Option.eq_none_iff_forall_ne_some.mpr fun n hn => hno n (readInteger?_eq_some_iff.mp hn)
    simp only [store, ofIntegerText, hread, Option.bind_none] at hm
    split at hm
    · split at hm
      · next num hnum =>
        obtain ⟨hvalue, hlt⟩ := eq_toInt_of_ofNumeral hm
        refine ⟨_, num.toDouble, Numeral.read?_iff.mp ⟨num, hnum, rfl⟩, num.toDouble_isNearest,
          hvalue, ?_⟩
        rw [Int.abs_eq_natAbs]
        simp only [wholeLimit] at hlt
        omega
      · cases hm
    · cases hm

/-- The greatest integer of 64 bits, the one after it, and a text that is no
integer but denotes one. -/
theorem store_integer_exact_at_limits :
    (∃ m : Int64, m.toInt = 2 ^ 63 - 1 ∧
      store .integer (.text "+09223372036854775807") = .integer m) ∧
    (∃ x, store .integer (.text "9223372036854775808") = .real x ∧
      Double.IsNearest x (9223372036854775808 : Int)) ∧
    ∃ v x, DecimalText "1e3".toList v ∧ Double.IsNearest x v ∧
      Double.value? x = some ((1000 : Int64).toInt : ℚ) ∧ |(1000 : Int64).toInt| < 2 ^ 63 := by
  refine ⟨?_, ?_, ?_⟩
  · have h := (store_integer_exact "+09223372036854775807").1 (2 ^ 63 - 1)
      (readInteger?_eq_some_iff.mp (by decide))
    rwa [if_pos (by decide)] at h
  · have h := (store_integer_exact "9223372036854775808").1 9223372036854775808
      (readInteger?_eq_some_iff.mp (by decide))
    rwa [if_neg (by decide)] at h
  · refine (store_integer_exact "1e3").2 (fun n hn => ?_) 1000 (by decide +kernel)
    have hread := readInteger?_eq_some_iff.mpr hn
    cases hread

end Cell

end TypedSql

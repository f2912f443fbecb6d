import TypedSql.Proofs.Number.Shortest
import TypedSql.Proofs.Number.Written

/-!
# Numbers are read as they were written

The readers of `Numeral` against the writers: an integer is read back as it
is (`readInteger?_integerText`), and the positional text of a decimal is read
as a numeral of the same value (`Numeral.read?_positional`), whatever became
of the zeros at its end and wherever the point was put.

A numeral is turned into a double by the value that it denotes and not by its
digits. `Numeral.toDouble_eq` says which double that is: the one in whose
interval the value lies. The two limits in `Numeral.toDouble` have no part in
it, since the values of all intervals stay well inside them.
-/

namespace TypedSql

/-! ## Integers -/

theorem readDigits?_toDigits (n : Nat) : readDigits? (Nat.toDigits 10 n) = some n := by
  have hdigits : (Nat.toDigits 10 n).all Char.isDigit = true :=
    List.all_eq_true.mpr fun _ => Nat.isDigit_of_mem_toDigits (by omega) (by omega)
  rw [readDigits?, if_pos ⟨Nat.toDigits_ne_nil, hdigits⟩, Nat.ofDigitChars_ten_toDigits]

/-- A number without a sign is read as one. -/
theorem splitSign_magnitude {cs : List Char} (h : WrittenMagnitude cs) :
    splitSign cs = (false, cs) := by
  obtain ⟨d, ds, rfl, hd, -⟩ := h
  unfold splitSign
  split
  · next heq =>
    rw [(List.cons.inj heq).1] at hd
    cases hd
  · next heq =>
    rw [(List.cons.inj heq).1] at hd
    cases hd
  · rfl

theorem splitSign_signed {cs : List Char} (h : WrittenMagnitude cs) (negative : Bool) :
    splitSign (if negative = true then '-' :: cs else cs) = (negative, cs) := by
  cases negative
  · exact splitSign_magnitude h
  · rfl

/-- **An integer is read as it was written.** -/
theorem readInteger?_integerText (n : Int) : readInteger? (integerText n).toList = some n := by
  have hsign := splitSign_signed (WrittenMagnitude.toDigits n.natAbs) (decide (n < 0))
  have hvalue : signed (decide (n < 0)) n.natAbs = n := by
    simp only [signed, decide_eq_true_eq]
    split <;> omega
  simp only [decide_eq_true_eq] at hsign
  simp only [integerText, String.toList_ofList, readInteger?, hsign, readDigits?_toDigits,
    Option.map_some, hvalue]

/-! ## Decimals

Nothing is said of the digits that are read, only of the number that they are:
`ReadsAs` holds for a text if it is read as a numeral of this value, with
either sign in front. The writer moves the point and leaves out zeros, which
changes the digits and the exponent of the numeral but not its value. -/

namespace Numeral

/-- **The value of a numeral** without its sign. -/
def value (n : Numeral) : ℚ := n.digits * 10 ^ n.exponent

/-- **A text is read as a decimal**: with either sign in front, as a numeral
of that sign and of the given value. -/
def ReadsAs (cs : List Char) (v : ℚ) : Prop :=
  ∀ negative : Bool, ∃ n, read? (if negative = true then '-' :: cs else cs) = some n ∧
    n.negative = negative ∧ n.value = v

/-- Digits are read as a whole number. -/
theorem readsAs_digits {cs : List Char} (hne : cs ≠ []) (hcs : ∀ c ∈ cs, c.isDigit = true) :
    ReadsAs cs (Nat.ofDigitChars 10 cs 0) := by
  intro negative
  have htake : cs.takeWhile Char.isDigit = cs := List.takeWhile_eq_self_iff.mpr hcs
  have hdrop : cs.dropWhile Char.isDigit = [] := List.dropWhile_eq_nil_iff.mpr hcs
  refine ⟨⟨negative, Nat.ofDigitChars 10 cs 0, 0⟩, ?_, rfl, by simp [value]⟩
  unfold read?
  rw [splitSign_signed (WrittenMagnitude.of_digits hne hcs)]
  simp only [htake, hdrop, hne, false_and, if_false, readExponent?, Option.map_some,
    List.append_nil, List.length_nil]
  rfl

/-- Digits around a point are read as one number, with the digits behind the
point counted off. -/
theorem readsAs_point {whole fraction : List Char} (hne : whole ≠ [])
    (hwhole : ∀ c ∈ whole, c.isDigit = true) (hfraction : ∀ c ∈ fraction, c.isDigit = true) :
    ReadsAs (whole ++ '.' :: fraction)
      (Nat.ofDigitChars 10 (whole ++ fraction) 0 * 10 ^ (-(fraction.length : Int))) := by
  intro negative
  have hform : WrittenMagnitude (whole ++ '.' :: fraction) :=
    (WrittenMagnitude.of_digits hne hwhole).append fun c hc => by
      rcases List.mem_cons.mp hc with rfl | hc
      · exact .inr (.inl rfl)
      · exact .inl (hfraction c hc)
  have htake : (whole ++ '.' :: fraction).takeWhile Char.isDigit = whole := by
    rw [List.takeWhile_append_of_pos hwhole, List.takeWhile_cons_of_neg (by decide),
      List.append_nil]
  have hdrop : (whole ++ '.' :: fraction).dropWhile Char.isDigit = '.' :: fraction := by
    rw [List.dropWhile_append_of_pos hwhole, List.dropWhile_cons_of_neg (by decide)]
  have htake' : fraction.takeWhile Char.isDigit = fraction :=
    List.takeWhile_eq_self_iff.mpr hfraction
  have hdrop' : fraction.dropWhile Char.isDigit = [] := List.dropWhile_eq_nil_iff.mpr hfraction
  refine ⟨⟨negative, Nat.ofDigitChars 10 (whole ++ fraction) 0, -(fraction.length : Int)⟩, ?_,
    rfl, rfl⟩
  unfold read?
  rw [splitSign_signed hform]
  simp only [htake, hdrop, htake', hdrop', hne, false_and, if_false, readExponent?,
    Option.map_some]
  rw [zero_sub]

end Numeral

/-! ### Positional notation -/

/-- A text is what is left of it without the zeros at its end, and those
zeros. -/
theorem take_append_zeros (l : List Char) :
    l.take (l.length - (l.reverse.takeWhile (· == '0')).length) ++
      List.replicate (l.reverse.takeWhile (· == '0')).length '0' = l := by
  obtain ⟨kept, hsplit⟩ : ∃ kept, kept ++
      List.replicate (l.reverse.takeWhile (· == '0')).length '0' = l := by
    have hzeros : l.reverse.takeWhile (· == '0')
        = List.replicate (l.reverse.takeWhile (· == '0')).length '0' :=
      List.eq_replicate_of_mem fun c hc => by simpa using List.mem_takeWhile_imp hc
    refine ⟨(l.reverse.dropWhile (· == '0')).reverse, ?_⟩
    rw [← List.reverse_replicate, ← hzeros, ← List.reverse_append, List.takeWhile_append_dropWhile,
      List.reverse_reverse]
  generalize (l.reverse.takeWhile (· == '0')).length = zeros at hsplit ⊢
  subst hsplit
  rw [List.length_append, List.length_replicate, Nat.add_sub_cancel, List.take_left]

namespace Numeral

/-- The digits of a number, without the zeros at its end, are the number
counted in tens as often as zeros are left out. -/
theorem ofDigitChars_kept (digits : Nat) :
    Nat.ofDigitChars 10 ((Nat.toDigits 10 digits).take ((Nat.toDigits 10 digits).length -
      ((Nat.toDigits 10 digits).reverse.takeWhile (· == '0')).length)) 0 *
      10 ^ ((Nat.toDigits 10 digits).reverse.takeWhile (· == '0')).length = digits := by
  have hdigits : Nat.ofDigitChars 10 (Nat.toDigits 10 digits) 0 = digits :=
    Nat.ofDigitChars_ten_toDigits
  rw [← take_append_zeros (Nat.toDigits 10 digits), Nat.ofDigitChars_append,
    Nat.ofDigitChars_replicate_zero, Nat.mul_comm] at hdigits
  exact hdigits

theorem isDigit_of_mem_zeros {k : Nat} {c : Char} (h : c ∈ List.replicate k '0') :
    c.isDigit = true := by
  rw [List.eq_of_mem_replicate h]
  rfl

section Kept

variable {kept : List Char} (hkept : ∀ c ∈ kept, c.isDigit = true)

include hkept

theorem readsAs_append_zeros (hne : kept ≠ []) (k : Nat) :
    ReadsAs (kept ++ List.replicate k '0') ((Nat.ofDigitChars 10 kept 0 : ℕ) * 10 ^ (k : Int)) := by
  have hdigits : ∀ c ∈ kept ++ List.replicate k '0', c.isDigit = true :=
    fun c hc => (List.mem_append.mp hc).elim (hkept c) isDigit_of_mem_zeros
  have hread := readsAs_digits (by simp [hne]) hdigits
  rw [Nat.ofDigitChars_append, Nat.ofDigitChars_replicate_zero, Nat.mul_comm] at hread
  rw [zpow_natCast]
  exact_mod_cast hread

/-- Digits behind the point and zeros before them. -/
theorem readsAs_zeros_point (k : Nat) :
    ReadsAs ('0' :: '.' :: List.replicate k '0' ++ kept)
      ((Nat.ofDigitChars 10 kept 0 : ℕ) * 10 ^ (-((k + kept.length : ℕ) : Int))) := by
  have hfraction : ∀ c ∈ List.replicate k '0' ++ kept, c.isDigit = true :=
    fun c hc => (List.mem_append.mp hc).elim isDigit_of_mem_zeros (hkept c)
  have hread := readsAs_point (List.cons_ne_nil '0' []) (by decide) hfraction
  have hlead : ['0'] ++ (List.replicate k '0' ++ kept) = List.replicate (k + 1) '0' ++ kept := rfl
  rw [List.length_append, List.length_replicate, hlead, Nat.ofDigitChars_append,
    Nat.ofDigitChars_replicate_zero, Nat.mul_zero] at hread
  exact hread

theorem readsAs_point_within (hne : kept ≠ []) {k : Nat} (hk : k ≠ 0) :
    ReadsAs (kept.take k ++ '.' :: kept.drop k)
      ((Nat.ofDigitChars 10 kept 0 : ℕ) * 10 ^ (-((kept.length - k : ℕ) : Int))) := by
  have htake : kept.take k ≠ [] := by simp [hk, hne]
  have hfraction : ∀ c ∈ kept.drop k, c.isDigit = true :=
    fun c hc => hkept c (List.mem_of_mem_drop hc)
  have hread := readsAs_point htake (fun c hc => hkept c (List.mem_of_mem_take hc)) hfraction
  rw [List.length_drop, List.take_append_drop] at hread
  exact hread

end Kept

/-- **Positional notation is read as the decimal that it was written for.** -/
theorem readsAs_positional {digits : Nat} (h : 0 < digits) (place : Int) :
    ReadsAs (positional digits place) (digits * 10 ^ place) := by
  have hne := kept_ne_nil h
  have hkept : ∀ c ∈ (Nat.toDigits 10 digits).take ((Nat.toDigits 10 digits).length -
      ((Nat.toDigits 10 digits).reverse.takeWhile (· == '0')).length), c.isDigit = true :=
    fun c hc => Nat.isDigit_of_mem_toDigits (by omega) (by omega) (List.mem_of_mem_take hc)
  have hvalue := ofDigitChars_kept digits
  simp only [positional]
  generalize (Nat.toDigits 10 digits).take _ = kept at *
  generalize ((Nat.toDigits 10 digits).reverse.takeWhile (· == '0')).length = zeros at *
  have hscale : (digits : ℚ) * 10 ^ place
      = (Nat.ofDigitChars 10 kept 0 : ℕ) * 10 ^ (place + zeros) := by
    rw [← hvalue, zpow_add₀ (by norm_num), zpow_natCast]
    push_cast
    ring
  rw [hscale]
  generalize place + (zeros : Int) = place'
  split
  · next hplace =>
    obtain ⟨k, rfl⟩ := Int.eq_ofNat_of_zero_le hplace
    exact readsAs_append_zeros hkept hne k
  · split
    · next hplace hwhole =>
      have hread := readsAs_zeros_point hkept (-((kept.length : Int) + place')).toNat
      rwa [show -(((-((kept.length : Int) + place')).toNat + kept.length : ℕ) : Int) = place' by
        omega] at hread
    · next hplace hwhole =>
      have hread := readsAs_point_within hkept hne (k := ((kept.length : Int) + place').toNat)
        (by omega)
      rwa [show -((kept.length - ((kept.length : Int) + place').toNat : ℕ) : Int) = place' by
        omega] at hread

/-! ## The double of a numeral

`Numeral.toDouble` looks at the number of digits first and answers with zero or
infinity if the number is far out. The digits tell the value within a factor of
ten (`value_bounds`), and the intervals of the doubles are farther in than that
on both sides, so a numeral in the interval of a double comes to the division.
-/

/-- The digits of a numeral, if it is not zero, tell its value within a
factor of ten. -/
theorem value_bounds {n : Numeral} (h : n.digits ≠ 0) :
    (10 : ℚ) ^ ((Nat.toDigits 10 n.digits).length + n.exponent - 1) ≤ n.value ∧
      n.value < 10 ^ ((Nat.toDigits 10 n.digits).length + n.exponent) := by
  have hscale : (0 : ℚ) < 10 ^ n.exponent := by positivity
  obtain ⟨k, hk⟩ := exists_length_toDigits n.digits
  have hlow : ((10 ^ k : ℕ) : ℚ) ≤ n.digits :=
    Nat.cast_le.mpr (pow_le_of_length_toDigits (Nat.pos_of_ne_zero h) hk)
  have hhigh : (n.digits : ℚ) < (10 ^ (Nat.toDigits 10 n.digits).length : ℕ) :=
    Nat.cast_lt.mpr (lt_pow_length_toDigits n.digits)
  rw [value]
  constructor
  · rw [hk, Nat.cast_add_one, add_right_comm, add_sub_cancel_right, zpow_add₀ (by norm_num),
      zpow_natCast]
    push_cast at hlow
    gcongr
  · rw [zpow_add₀ (by norm_num), zpow_natCast]
    push_cast at hhigh
    gcongr

/-- The value of a numeral as the quotient that is rounded. -/
theorem value_eq_div (n : Numeral) :
    n.value
      = (n.digits * Nat.pow 10 n.exponent.toNat : ℕ) / (Nat.pow 10 (-n.exponent).toNat : ℕ) := by
  rw [value, ten_zpow_eq_div, ← mul_div_assoc]
  push_cast [Nat.pow_eq]
  rfl

/-- A number too small for the doubles, in tens. -/
theorem ten_zpow_le_two_zpow : (10 : ℚ) ^ (-330 : Int) ≤ 2 ^ (-1075 : Int) := by
  have hpow : 2 ^ 1075 ≤ 10 ^ 330 := by decide +kernel
  rw [zpow_neg, zpow_neg]
  exact inv_anti₀ (by positivity) (by exact_mod_cast hpow)

/-- A number too great for them. -/
theorem two_zpow_le_ten_zpow : (2 : ℚ) ^ (1024 : Int) ≤ 10 ^ (309 : Int) := by
  have hpow : 2 ^ 1024 ≤ 10 ^ 309 := by decide +kernel
  exact_mod_cast hpow

/-- **A numeral is the double in whose interval its value lies.** -/
theorem toDouble_eq {significand : Nat} {exponent : Int} (h : Double.Canonical significand exponent)
    {n : Numeral} (hn : (RoundingInterval.ofFinite significand exponent).Holds n.value) :
    n.toDouble = Double.ofMagnitude n.negative (Double.magnitudeBits significand exponent) := by
  have hpos := h.pos_of_holds hn
  have hdigits : n.digits ≠ 0 := by
    intro hzero
    rw [value, hzero, Nat.cast_zero, zero_mul] at hpos
    exact hpos.false
  obtain ⟨hlow, hhigh⟩ := value_bounds hdigits
  -- the doubles lie well inside the two limits
  have hleast : (2 : ℚ) ^ (-1075 : Int) ≤ n.value := h.two_zpow_le_of_holds hn
  have hgreatest : n.value < 2 ^ (1024 : Int) := h.lt_two_zpow_of_holds hn
  have hlower : ¬ ((Nat.toDigits 10 n.digits).length : Int) + n.exponent < -330 := by
    intro hlt
    have := exponent_lt_of_ten_zpow_lt
      (ten_zpow_le_two_zpow.trans_lt (hleast.trans_lt hhigh))
    omega
  have hupper : ¬ 310 < ((Nat.toDigits 10 n.digits).length : Int) + n.exponent := by
    intro hlt
    have := exponent_lt_of_ten_zpow_lt
      (hlow.trans_lt (hgreatest.trans_le two_zpow_le_ten_zpow))
    omega
  have hden : 0 < Nat.pow 10 (-n.exponent).toNat := Nat.pow_pos (Nat.succ_pos 9)
  simp only [toDouble]
  rw [if_neg (not_or.mpr ⟨hdigits, hlower⟩), if_neg hupper, Double.nearest,
    Double.nearestBits_eq h hden (value_eq_div n ▸ hn)]

theorem toDouble_of_digits_eq_zero {n : Numeral} (h : n.digits = 0) :
    n.toDouble = Double.ofMagnitude n.negative 0 := by
  simp only [toDouble]
  rw [if_pos (.inl h)]

end Numeral

end TypedSql

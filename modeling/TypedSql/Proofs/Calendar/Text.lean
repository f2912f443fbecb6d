import TypedSql.Calendar.Text
import TypedSql.Proofs.Calendar.Date
import Mathlib.Data.Nat.Digits.Defs

/-!
# Dates and moments are read as they were written

The readers of dates and of timestamps against the writers. Both write
numbers with zeros in front and read digits up to some number of them; the
lemmas on `padded` say that the number comes back, with whatever stands
behind it.

A date comes back for every year, since a year that does not have four
digits is written with a sign, and so read to its end. A timestamp has no
sign to read: it comes back if its year has four digits.
-/

namespace TypedSql.Calendar

/-! ## Padded numbers

A reader does not know how many digits there were: it takes as many as it is
told, or all that come. For the first kind the length of a padded number has to
be known (`length_padded`), for the second what stands behind it
(`EndsDigits`). -/

theorem isDigit_of_mem_padded {width n : Nat} {c : Char} (h : c ∈ padded width n) :
    c.isDigit = true := by
  rcases List.mem_append.mp h with hzero | hdigit
  · rw [List.eq_of_mem_replicate hzero]
    rfl
  · exact Nat.isDigit_of_mem_toDigits (by omega) (by omega) hdigit

theorem padded_ne_nil (width n : Nat) : padded width n ≠ [] :=
  List.append_ne_nil_of_right_ne_nil _ Nat.toDigits_ne_nil

/-- A padded number is as long as it should be, if it has no more digits. -/
theorem length_padded {width n : Nat} (hwidth : 0 < width) (h : n < 10 ^ width) :
    (padded width n).length = width := by
  have hlength : (Nat.toDigits 10 n).length ≤ width :=
    (Nat.length_toDigits_le_iff (by omega) hwidth).mpr h
  simp only [padded, List.length_append, List.length_replicate]
  omega

/-- **A padded number is the number.** -/
theorem ofDigitChars_padded (width n : Nat) : Nat.ofDigitChars 10 (padded width n) 0 = n := by
  rw [padded, Nat.ofDigitChars_append, Nat.ofDigitChars_replicate_zero, Nat.mul_zero,
    Nat.ofDigitChars_ten_toDigits]

/-- **What digits end in front of**: nothing, or what is no digit. -/
def EndsDigits (rest : List Char) : Prop := ∀ c, rest.head? = some c → c.isDigit = false

theorem EndsDigits.cons {c : Char} (h : c.isDigit = false) (cs : List Char) :
    EndsDigits (c :: cs) :=
  fun _ hd => Option.some.inj hd ▸ h

theorem EndsDigits.nil : EndsDigits [] := nofun

/-- A reader of digits reads a padded number to its end. -/
theorem takeWhile_padded (width n : Nat) {rest : List Char} (hrest : EndsDigits rest) :
    (padded width n ++ rest).takeWhile Char.isDigit = padded width n := by
  rw [List.takeWhile_append_of_pos fun c hc => isDigit_of_mem_padded hc]
  cases rest with
  | nil => rw [List.takeWhile_nil, List.append_nil]
  | cons c cs =>
    rw [List.takeWhile_cons_of_neg (by simp [hrest c rfl]), List.append_nil]

/-- **So many digits are read** as the number that was written with them. -/
theorem fixedDigits_padded {width n : Nat} (hwidth : 0 < width) (h : n < 10 ^ width)
    (rest : List Char) : fixedDigits width (padded width n ++ rest) = .ok (n, rest) := by
  have hlength := length_padded hwidth h
  have htake : (padded width n ++ rest).take width = padded width n := List.take_left' hlength
  have hdrop : (padded width n ++ rest).drop width = rest := List.drop_left' hlength
  have hdigits : (padded width n).all Char.isDigit = true :=
    List.all_eq_true.mpr fun _ hc => isDigit_of_mem_padded hc
  simp only [fixedDigits, htake, hdrop, hlength, hdigits, and_self, if_true, ofDigitChars_padded]

/-- **Up to so many digits are read** as the number that was written with no
more of them, in front of what is no digit. -/
theorem boundedNumber_padded {limit : Option Nat} {width n : Nat}
    (hlimit : ∀ m, limit = some m → (padded width n).length ≤ m) {rest : List Char}
    (hrest : EndsDigits rest) : boundedNumber limit (padded width n ++ rest) = .ok (n, rest) := by
  unfold boundedNumber
  split
  · next heq => exact absurd (List.append_eq_nil_iff.mp heq).1 (padded_ne_nil width n)
  · cases limit with
    | none =>
      simp only [takeWhile_padded width n hrest, if_neg (padded_ne_nil width n),
        ofDigitChars_padded, List.drop_left]
    | some m =>
      simp only [takeWhile_padded width n hrest, List.take_of_length_le (hlimit m rfl),
        if_neg (padded_ne_nil width n), ofDigitChars_padded, List.drop_left]

/-! ## Dates -/

theorem isBlank_of_isDigit {c : Char} (h : c.isDigit = true) : Text.isBlank c = false := by
  have hrange : 48 ≤ c.toNat ∧ c.toNat ≤ 57 := Char.isDigit_iff_toNat.mp h
  refine List.any_eq_false.mpr fun r hr hin => ?_
  simp only [Bool.and_eq_true, decide_eq_true_eq] at hin
  have hapart : ∀ r ∈ Text.blankRanges, r.2 < 48 ∨ 57 < r.1 := by decide
  have := hapart r hr
  omega

theorem exists_padded_eq_cons (width n : Nat) :
    ∃ d ds, padded width n = d :: ds ∧ d.isDigit = true := by
  obtain ⟨d, ds, hform⟩ := List.exists_cons_of_ne_nil (padded_ne_nil width n)
  exact ⟨d, ds, hform, isDigit_of_mem_padded (hform ▸ List.mem_cons_self)⟩

/-- No blank is read over in front of a padded number. -/
theorem dropBlanks_padded (width n : Nat) (rest : List Char) :
    Text.dropBlanks (padded width n ++ rest) = padded width n ++ rest := by
  obtain ⟨d, ds, hform, hdigit⟩ := exists_padded_eq_cons width n
  rw [hform, List.cons_append, Text.dropBlanks,
    List.dropWhile_cons_of_neg (by simp [isBlank_of_isDigit hdigit])]

/-- A year of four digits is read without a sign, any other year with the sign
that it has. -/
theorem readYear_yearText {year : Int} (hyear : minYear ≤ year ∧ year ≤ maxYear)
    (rest : List Char) (hrest : EndsDigits rest) :
    readYear (yearText year ++ rest) = .ok (year, rest) := by
  have hfits : (int32? year).isSome = true := by
    have hrange : Int32.minValue.toInt ≤ year ∧ year ≤ Int32.maxValue.toInt := by
      have hmin : Int32.minValue.toInt = -2147483648 := by decide
      have hmax : Int32.maxValue.toInt = 2147483647 := by decide
      simp only [minYear, maxYear] at hyear
      omega
    rw [int32?, if_pos hrange]
    rfl
  unfold yearText
  split
  · next hfour =>
    have hlength : (padded 4 year.toNat).length = 4 := length_padded (by omega) (by omega)
    have hread : boundedNumber (some 4) (padded 4 year.toNat ++ rest) = .ok (year.toNat, rest) :=
      boundedNumber_padded (fun m hm => by cases hm; omega) hrest
    obtain ⟨d, ds, hform, hdigit⟩ := exists_padded_eq_cons 4 year.toNat
    unfold readYear
    rw [dropBlanks_padded]
    split
    · next heq =>
      rw [hform] at heq
      rw [(List.cons.inj heq).1] at hdigit
      cases hdigit
    · next heq =>
      rw [hform] at heq
      rw [(List.cons.inj heq).1] at hdigit
      cases hdigit
    · rw [hread]
      simp only [bind, Except.bind, Except.map, Int.toNat_of_nonneg hfour.1, require, hfits,
        if_true]
      rfl
  · -- with a sign all digits are read, so the year may have more than four
    have hread : boundedNumber none (padded 4 year.natAbs ++ rest) = .ok (year.natAbs, rest) :=
      boundedNumber_padded (fun _ hm => by cases hm) hrest
    have hsign : ∀ c cs, c = '-' ∨ c = '+' → Text.dropBlanks (c :: cs) = c :: cs := by
      rintro _ cs (rfl | rfl) <;> rfl
    rw [List.cons_append, readYear]
    by_cases hnegative : year < 0
    · have hvalue : -(year.natAbs : Int) = year := by omega
      rw [if_pos hnegative, hsign _ _ (.inl rfl)]
      simp only [hread, bind, Except.bind, Except.map, hvalue, require, hfits, if_true]
      rfl
    · have hvalue : (year.natAbs : Int) = year := by omega
      rw [if_neg hnegative, hsign _ _ (.inr rfl)]
      simp only [hread, bind, Except.bind, Except.map, hvalue, require, hfits, if_true]
      rfl

/-- **A month or a day is read as it was written**, in front of what is no
digit. -/
theorem readPart_padded {max n : Nat} (hn : 1 ≤ n ∧ n ≤ max) (hmax : max ≤ 99) (rest : List Char)
    (hrest : EndsDigits rest) : readPart max (padded 2 n ++ rest) = .ok (n, rest) := by
  have hlength : (padded 2 n).length = 2 := length_padded (by omega) (by omega)
  have hread : boundedNumber (some 2) (padded 2 n ++ rest) = .ok (n, rest) :=
    boundedNumber_padded (fun m hm => by cases hm; omega) hrest
  rw [readPart, dropBlanks_padded, hread]
  simp only [bind, Except.bind, require, hn, decide_true, Bool.and_self, if_true]
  rfl

/-- **A date is read as it was written**, whatever its year. -/
theorem readDate_text (d : Date) : readDate d.text = .ok d := by
  have hyear := readYear_yearText d.year_range
    ('-' :: padded 2 d.month ++ '-' :: padded 2 d.day) (.cons rfl _)
  have hmonth := readPart_padded d.month_range (by omega) ('-' :: padded 2 d.day) (.cons rfl _)
  have hday : readPart 31 (padded 2 d.day ++ []) = .ok (d.day, []) :=
    readPart_padded ⟨d.day_range.1, d.day_range.2.trans (daysInMonth_le _ _)⟩ (by omega) [] .nil
  rw [List.append_nil] at hday
  rw [readDate, Date.text, String.toList_ofList, dateText, List.append_assoc, hyear]
  simp only [bind, Except.bind, List.cons_append, hyphen, if_true, hmonth, hday, require,
    List.isEmpty_nil, Date.of?_self]

/-! ## Moments

A leap second is where the fields of a moment and the fields of its text part:
the moment has 59 seconds and more than a second of nanoseconds, the text has
60 seconds. `exists_timeText` names the two numbers that the text shows and
says how they make up those of the moment, so that the reader has no case for
it. -/

/-- The fraction of a second behind a point. -/
theorem fraction_padded {width n : Nat} (hwidth : 0 < width ∧ width ≤ 9) (h : n < 10 ^ width)
    {rest : List Char} (hrest : EndsDigits rest) :
    fraction ('.' :: padded width n ++ rest) = .ok (n * 10 ^ (9 - width), rest) := by
  have hlength := length_padded hwidth.1 h
  have htake := takeWhile_padded width n hrest
  have hdrop : (padded width n ++ rest).dropWhile Char.isDigit = rest := by
    have hsplit := List.takeWhile_append_dropWhile (p := Char.isDigit) (l := padded width n ++ rest)
    rw [htake] at hsplit
    exact List.append_cancel_left hsplit
  rw [List.cons_append]
  unfold fraction
  split
  · next heq => exact absurd (List.append_eq_nil_iff.mp (List.cons.inj heq).2).1 (padded_ne_nil _ _)
  · next heq =>
    obtain rfl := (List.cons.inj heq).2
    simp only [htake, hdrop, if_neg (padded_ne_nil width n),
      List.take_of_length_le (hlength.trans_le hwidth.2), ofDigitChars_padded, hlength]
    rfl
  · next hother => exact absurd rfl (hother _)

/-- **The fraction of a second is read as it was written**, up to the letter
behind it. -/
theorem fraction_fractionText {nanos : Nat} (h : nanos < nanosPerSecond) :
    fraction (fractionText nanos ++ ['Z']) = .ok (nanos, ['Z']) := by
  have hends : EndsDigits ['Z'] := .cons rfl _
  unfold fractionText
  unfold nanosPerSecond at h
  split
  · next hzero =>
    rw [hzero]
    rfl
  · split
    · rw [fraction_padded (by omega) (by omega) hends]
      congr 2
      omega
    · split
      · rw [fraction_padded (by omega) (by omega) hends]
        congr 2
        omega
      · rw [fraction_padded (by omega) (by omega) hends]
        congr 2
        omega

theorem length_le_byteLength (cs : List Char) : cs.length ≤ byteLength cs := by
  induction cs with
  | nil => exact Nat.le_refl 0
  | cons c cs ih =>
    have hbyte : 0 < c.utf8Size := c.utf8Size_pos
    show cs.length + 1 ≤ c.utf8Size + byteLength cs
    omega

/-- **The time of a moment** is written with a second up to sixty. It is sixty
exactly in a leap second, and what is written of the nanoseconds is less than
a second. -/
theorem exists_timeText (t : Timestamp) : ∃ second nanos,
    timeText t.secondOfDay t.nanos = padded 2 (t.secondOfDay / 3600) ++
      ':' :: padded 2 (t.secondOfDay / 60 % 60) ++ ':' :: padded 2 second ++
      fractionText nanos ∧
    second ≤ 60 ∧ nanos < nanosPerSecond ∧
    (if second = 60 then 59 else second) = t.secondOfDay % 60 ∧
    (if second = 60 then nanos + nanosPerSecond else nanos) = t.nanos := by
  have hunit : nanosPerSecond = 1000000000 := rfl
  have hnanos := t.nanos_range
  refine ⟨_, _, rfl, ?_⟩
  by_cases hleap : nanosPerSecond ≤ t.nanos
  · have hlast : t.secondOfDay % 60 = 59 := by
      have := t.leap_second hleap
      rw [Timestamp.secondOfDay]
      omega
    simp only [hleap, decide_true, if_true, hlast, Nat.reduceAdd]
    exact ⟨Nat.le_refl 60, by omega, trivial, by omega⟩
  · have hother : t.secondOfDay % 60 ≠ 60 := by omega
    simp only [hleap, decide_false, Bool.false_eq_true, if_false, Nat.add_zero, hother, and_true]
    omega

end TypedSql.Calendar

namespace TypedSql

/-- **The year of a moment**, in universal time. -/
def Timestamp.year (t : Timestamp) : Int := (civil t.day).1

namespace Calendar

/-- The seconds of a moment are counted from its day and its time. -/
theorem seconds_eq (t : Timestamp) :
    t.day * 86400 + (t.secondOfDay / 3600 : Nat) * 3600 + (t.secondOfDay / 60 % 60 : Nat) * 60 +
      (t.secondOfDay % 60 : Nat) = t.seconds := by
  have hclock : (t.secondOfDay : Int) = t.seconds % 86400 := by
    rw [Timestamp.secondOfDay]
    omega
  rw [Timestamp.day]
  omega

/-- **A moment is read as it was written**, if its year has four digits. -/
theorem readTimestamp_text {t : Timestamp} (h : 0 ≤ t.year ∧ t.year ≤ 9999) :
    readTimestamp t.text = .ok t := by
  obtain ⟨second, nanos, htime, hsecond, hnanos, hshown, hparts⟩ := exists_timeText t
  have hvalid := civil_valid t.day
  have hnumber := dayNumber_civil t.day
  have hexists := isSome_of?_civil t.day
  rw [Timestamp.year] at h
  rcases hcivil : civil t.day with ⟨year, month, day⟩
  rw [hcivil] at h hvalid hnumber hexists
  simp only at h hvalid hnumber hexists
  replace hexists := hexists (by simp only [minYear, maxYear]; omega)
  have hmonth := daysInMonth_le year month
  obtain ⟨y, rfl⟩ := Int.eq_ofNat_of_zero_le h.1
  have hday : t.secondOfDay < 86400 := by
    rw [Timestamp.secondOfDay]
    omega
  have htext : t.text.toList = padded 4 y ++ ('-' :: (padded 2 month ++ ('-' :: (padded 2 day ++
      ('T' :: (padded 2 (t.secondOfDay / 3600) ++ (':' :: (padded 2 (t.secondOfDay / 60 % 60) ++
      (':' :: (padded 2 second ++ (fractionText nanos ++ ['Z']))))))))))) := by
    rw [Timestamp.text, hcivil]
    simp only [String.toList_ofList, dateText, yearText, htime, if_pos h, Int.toNat_natCast,
      List.append_assoc, List.cons_append]
  have hlong : 19 ≤ byteLength t.text.toList := by
    refine Nat.le_trans ?_ (length_le_byteLength _)
    have hfour : (padded 4 y).length = 4 := length_padded (by omega) (by omega)
    have htwo : ∀ n < 100, (padded 2 n).length = 2 := fun n hn => length_padded (by omega) hn
    rw [htext]
    simp only [List.length_append, List.length_cons, hfour, htwo month (by omega),
      htwo day (by omega), htwo (t.secondOfDay / 3600) (by omega),
      htwo (t.secondOfDay / 60 % 60) (by omega), htwo second (by omega)]
    omega
  -- what the reader does at each place of the text
  have hfour : ∀ rest, fixedDigits 4 (padded 4 y ++ rest) = .ok (y, rest) :=
    fixedDigits_padded (by omega) (by omega)
  have htwo : ∀ n < 100, ∀ rest, fixedDigits 2 (padded 2 n ++ rest) = .ok (n, rest) :=
    fun n hn => fixedDigits_padded (by omega) hn
  have hhyphen : ∀ cs, oneOf (· == '-') ('-' :: cs) = .ok ((), cs) := fun _ => rfl
  have hcolon : ∀ cs, oneOf (· == ':') (':' :: cs) = .ok ((), cs) := fun _ => rfl
  have hletter : ∀ cs, oneOf (fun c => c == 'T' || c == 't' || c == ' ') ('T' :: cs)
      = .ok ((), cs) := fun _ => rfl
  have hoffset : offset ['Z'] = .ok (0, []) := rfl
  have hclock : (decide (t.secondOfDay / 3600 < 24) && decide (t.secondOfDay / 60 % 60 < 60) &&
      decide (second ≤ 60)) = true := by
    simp only [Bool.and_eq_true, decide_eq_true_eq]
    omega
  have hinside : Int.natAbs 0 < 24 * 60 := by decide
  have hseconds : dayNumber (y : Int) month day * 86400 + (t.secondOfDay / 3600 : Nat) * 3600 +
      (t.secondOfDay / 60 % 60 : Nat) * 60 + (if second = 60 then 59 else (second : Int)) - 0 * 60
        = t.seconds := by
    have hcast : (if second = 60 then 59 else (second : Int)) = (t.secondOfDay % 60 : Nat) := by
      rw [← hshown]
      split <;> rfl
    rw [hnumber, hcast, Int.zero_mul, Int.sub_zero, seconds_eq]
  unfold readTimestamp
  rw [htext] at hlong ⊢
  simp only [bind, Except.bind, require, decide_true, decide_eq_true_eq, if_true, hlong, hfour,
    hhyphen, hcolon, hletter, htwo month (by omega), htwo day (by omega),
    htwo (t.secondOfDay / 3600) (by omega), htwo (t.secondOfDay / 60 % 60) (by omega),
    htwo second (by omega), fraction_fractionText hnanos, hexists, hclock, hoffset,
    List.isEmpty_nil, hinside, hseconds, hparts, Timestamp.of?_self]

end Calendar

end TypedSql

import TypedSql.Calendar.Timestamp

/-!
# Days and dates

`civil` reads year, month and day off a count of days, and `dayNumber` counts
them again. The years begin in March here, so that four hundred of them have
one form: they are four centuries, each of them twenty-five times four years,
each of these four years, and only the last year of such a part may be a day
longer. `EraDay` is a day in that form. What `civil` computes with its four
divisions is the year of the form (`EraDay.yearOfEra_eq`), and everything
else about it is linear.
-/

namespace TypedSql

/-- **A day of four hundred years**: so many centuries, parts of four years,
years and days have gone by. -/
structure EraDay where
  /-- The centuries. -/
  centuries : Int
  /-- The parts of four years behind them. -/
  fours : Int
  /-- The years behind them. -/
  years : Int
  /-- The days behind them. -/
  days : Int
  centuries_range : 0 ≤ centuries ∧ centuries ≤ 3
  fours_range : 0 ≤ fours ∧ fours ≤ 24
  years_range : 0 ≤ years ∧ years ≤ 3
  days_range : 0 ≤ days ∧ days ≤ 365
  /-- A year has a day more if it is the last of its four and, at the end of a
  century, if the century is the last one. -/
  leap_day : days = 365 → years = 3 ∧ (fours = 24 → centuries = 3)

namespace EraDay

/-- The days that have gone by. -/
def number (d : EraDay) : Int :=
  36524 * d.centuries + 1461 * d.fours + 365 * d.years + d.days

/-- The years that have gone by. -/
def year (d : EraDay) : Int := 100 * d.centuries + 4 * d.fours + d.years

/-- **Every day of four hundred years has that form.** -/
theorem exists_number_eq {n : Int} (hn : 0 ≤ n ∧ n ≤ 146096) : ∃ d : EraDay, d.number = n := by
  -- the last century, and the last year of four, may be longer than the ones before
  obtain ⟨c, m, rfl, hc, hm⟩ : ∃ c m, n = 36524 * c + m ∧ (0 ≤ c ∧ c ≤ 3) ∧
      (0 ≤ m ∧ m ≤ 36524 ∧ (m = 36524 → c = 3)) :=
    ⟨min 3 (n / 36524), n - 36524 * min 3 (n / 36524), by omega⟩
  obtain ⟨f, k, rfl, hf, hk⟩ : ∃ f k, m = 1461 * f + k ∧ (0 ≤ f ∧ f ≤ 24) ∧
      (0 ≤ k ∧ k ≤ 1460) :=
    ⟨m / 1461, m % 1461, by omega⟩
  obtain ⟨y, l, rfl, hy, hdays, hleap⟩ : ∃ y l, k = 365 * y + l ∧ (0 ≤ y ∧ y ≤ 3) ∧
      (0 ≤ l ∧ l ≤ 365) ∧ (l = 365 → y = 3) :=
    ⟨min 3 (k / 365), k - 365 * min 3 (k / 365), by omega⟩
  exact ⟨⟨c, f, y, l, hc, hf, hy, hdays, by omega⟩, by simp only [number]; omega⟩

variable (d : EraDay)

/-- **The year is found** by leaving out the days by which parts of the
calendar are longer than years of 365 days. -/
theorem yearOfEra_eq :
    (d.number - d.number / 1460 + d.number / 36524 - d.number / 146096) / 365 = d.year := by
  obtain ⟨c, f, y, n, hc, hf, hy, hn, hleap⟩ := d
  simp only [number, year]
  have hcenturies : (36524 * c + 1461 * f + 365 * y + n) / 36524 = c ∧
        (36524 * c + 1461 * f + 365 * y + n) / 146096 = 0 ∨
      (36524 * c + 1461 * f + 365 * y + n) / 36524 = c + 1 ∧
        (36524 * c + 1461 * f + 365 * y + n) / 146096 = 1 := by omega
  have hfours : (36524 * c + 1461 * f + 365 * y + n) / 1460 = 25 * c + f ∧ n ≤ 364 ∨
      (36524 * c + 1461 * f + 365 * y + n) / 1460 = 25 * c + f + 1 ∧ 1 ≤ n := by omega
  omega

/-- The days of the years that have gone by are counted off. -/
theorem number_sub_year : d.number - (365 * d.year + d.year / 4 - d.year / 100) = d.days := by
  obtain ⟨c, f, y, n, hc, hf, hy, hn, hleap⟩ := d
  simp only [number, year]
  omega

theorem number_range : 0 ≤ d.number ∧ d.number ≤ 146096 := by
  obtain ⟨c, f, y, n, hc, hf, hy, hn, hleap⟩ := d
  simp only [number]
  omega

theorem year_range : 0 ≤ d.year ∧ d.year ≤ 399 := by
  obtain ⟨c, f, y, n, hc, hf, hy, hn, hleap⟩ := d
  simp only [year]
  omega

/-- **The last day of a long year** is in February of a leap year. -/
theorem isLeapYear_of_days_eq (h : d.days = 365) (era : Int) :
    isLeapYear (d.year + era * 400 + 1) = true := by
  obtain ⟨c, f, y, n, hc, hf, hy, hn, hleap⟩ := d
  obtain ⟨rfl, hlast⟩ := hleap h
  simp only at h
  rw [year, isLeapYear, decide_eq_true_iff]
  simp only
  omega

end EraDay

theorem daysInMonth_le (year : Int) (month : Nat) : daysInMonth year month ≤ 31 := by
  unfold daysInMonth
  split
  · split <;> omega
  · split <;> omega

/-! ## Dates of days

From March on five months have 153 days, in the same rhythm up to the end of
the year, and that is the factor in `monthFromMarch`. February comes last and
is the only one whose length depends on the year. So a month is told by two
linear bounds on the day of the year (`monthFromMarch_range`), and once the
month is a variable with these bounds, what `civil` and `dayNumber` say of each
other is arithmetic. Days outside of the first four hundred years are moved by
a multiple of 146097 (`exists_eraDay`). -/

/-- The month of a day of the year, counted from March. -/
def monthFromMarch (days : Int) : Int := (5 * days + 2) / 153

theorem monthFromMarch_range {days : Int} (h : 0 ≤ days ∧ days ≤ 365) :
    (0 ≤ monthFromMarch days ∧ monthFromMarch days ≤ 11) ∧
      153 * monthFromMarch days ≤ 5 * days + 2 ∧
      5 * days + 2 < 153 * monthFromMarch days + 153 := by
  unfold monthFromMarch
  omega

/-- **The date of a day** of four hundred years. January and February belong
to the next year. -/
theorem civil_number (d : EraDay) (era : Int) :
    civil (era * 146097 + d.number - 719468) =
      if monthFromMarch d.days < 10 then
        (d.year + era * 400, (monthFromMarch d.days + 3).toNat,
          (d.days - (153 * monthFromMarch d.days + 2) / 5 + 1).toNat)
      else
        (d.year + era * 400 + 1, (monthFromMarch d.days - 9).toNat,
          (d.days - (153 * monthFromMarch d.days + 2) / 5 + 1).toNat) := by
  have hrange := d.number_range
  have hera : (era * 146097 + d.number - 719468 + 719468) / 146097 = era := by omega
  have hday : (era * 146097 + d.number - 719468 + 719468) % 146097 = d.number := by omega
  unfold civil
  simp only [hera, hday, d.yearOfEra_eq, d.number_sub_year]
  have hmonths := (monthFromMarch_range d.days_range).1
  rw [← monthFromMarch]
  by_cases hearly : monthFromMarch d.days < 10
  · have hmonth : ¬monthFromMarch d.days + 3 ≤ 2 := by omega
    simp only [if_pos hearly, if_neg hmonth, Int.add_zero]
  · have hmonth : monthFromMarch d.days - 9 ≤ 2 := by omega
    simp only [if_neg hearly, if_pos hmonth]

/-- A day is a day of some four hundred years. -/
theorem exists_eraDay (days : Int) :
    ∃ (d : EraDay) (era : Int), days = era * 146097 + d.number - 719468 := by
  obtain ⟨d, hd⟩ := EraDay.exists_number_eq (n := (days + 719468) % 146097) (by omega)
  exact ⟨d, (days + 719468) / 146097, by omega⟩

/-- **Every day has a date of the calendar.** -/
theorem civil_valid (days : Int) :
    (1 ≤ (civil days).2.1 ∧ (civil days).2.1 ≤ 12) ∧
      (1 ≤ (civil days).2.2 ∧
        (civil days).2.2 ≤ daysInMonth (civil days).1 (civil days).2.1) := by
  obtain ⟨d, era, rfl⟩ := exists_eraDay days
  have hrange := d.days_range
  have hmonths := monthFromMarch_range hrange
  have hleap := fun h => d.isLeapYear_of_days_eq h era
  rw [civil_number]
  generalize monthFromMarch d.days = m at hmonths
  by_cases hearly : m < 10
  · simp only [if_pos hearly]
    refine ⟨by omega, by omega, ?_⟩
    -- from March on no month depends on the year
    unfold daysInMonth
    rw [if_neg (by omega)]
    split <;> omega
  · simp only [if_neg hearly]
    refine ⟨by omega, by omega, ?_⟩
    unfold daysInMonth
    split
    · split
      · omega
      · next hcommon =>
        have hdays : d.days ≠ 365 := fun h => hcommon (hleap h)
        omega
    · rw [if_neg (by omega)]
      omega

/-- The date of a day exists, if its year is supported. -/
theorem isSome_of?_civil (days : Int)
    (h : minYear ≤ (civil days).1 ∧ (civil days).1 ≤ maxYear) :
    (Date.of? (civil days).1 (civil days).2.1 (civil days).2.2).isSome = true := by
  obtain ⟨hmonth, hday⟩ := civil_valid days
  rw [Date.of?, dif_pos ⟨h, hmonth, hday⟩]
  rfl

/-- **The day of the date of a day** is that day. -/
theorem dayNumber_civil (days : Int) :
    dayNumber (civil days).1 (civil days).2.1 (civil days).2.2 = days := by
  obtain ⟨d, era, rfl⟩ := exists_eraDay days
  have hrange := d.days_range
  have hyear := d.year_range
  have hnumber := d.number_sub_year
  have hmonths := monthFromMarch_range hrange
  rw [civil_number]
  generalize monthFromMarch d.days = m at hmonths
  unfold dayNumber
  by_cases hearly : m < 10
  · have hmonth : ¬(m + 3).toNat ≤ 2 := by omega
    simp only [if_pos hearly, if_neg hmonth]
    omega
  · have hmonth : (m - 9).toNat ≤ 2 := by omega
    simp only [if_neg hearly, if_pos hmonth]
    omega

end TypedSql

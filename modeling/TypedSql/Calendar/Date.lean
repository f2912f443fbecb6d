/-!
# Calendar dates

Dates of the proleptic Gregorian calendar. A `Date` is valid by
construction: its month is one of twelve, its day is a day of that month,
and its year lies in the supported range. `Date.dayNumber` counts days from
the first of January 1970, and `civil` reads year, month and day off such a
count.

The count starts the year in March, so that the leap day is the last day of
the year it lengthens; four hundred years then have the same length
everywhere in the calendar.
-/

namespace TypedSql

/-- Every fourth year is a leap year, save the hundredths that are no
four-hundredths. -/
def isLeapYear (year : Int) : Bool :=
  decide (year % 4 = 0 ∧ (year % 100 ≠ 0 ∨ year % 400 = 0))

/-- How many days a month has, months counted from one. -/
def daysInMonth (year : Int) (month : Nat) : Nat :=
  if month = 2 then if isLeapYear year then 29 else 28
  else if month = 4 ∨ month = 6 ∨ month = 9 ∨ month = 11 then 30
  else 31

/-- The first year that is supported. -/
def minYear : Int := -262143

/-- The last year that is supported. -/
def maxYear : Int := 262142

/-- **A date** of the proleptic Gregorian calendar. -/
structure Date where
  /-- The year; the year zero precedes the year one. -/
  year : Int
  /-- The month, from one to twelve. -/
  month : Nat
  /-- The day of the month, from one. -/
  day : Nat
  /-- The year is supported. -/
  year_range : minYear ≤ year ∧ year ≤ maxYear
  /-- The month exists. -/
  month_range : 1 ≤ month ∧ month ≤ 12
  /-- The day exists in that month. -/
  day_range : 1 ≤ day ∧ day ≤ daysInMonth year month
deriving DecidableEq

namespace Date

/-- The date with the given numbers, if it exists. -/
def of? (year : Int) (month day : Nat) : Option Date :=
  if h : (minYear ≤ year ∧ year ≤ maxYear) ∧ (1 ≤ month ∧ month ≤ 12) ∧
      (1 ≤ day ∧ day ≤ daysInMonth year month) then
    some ⟨year, month, day, h.1, h.2.1, h.2.2⟩
  else none

/-- A date is the date with its own numbers. -/
@[simp] theorem of?_self (d : Date) : of? d.year d.month d.day = some d := by
  simp [of?, d.year_range, d.month_range, d.day_range]

end Date

/-- **The day count** of a year, a month and a day: days since the first of
January 1970. -/
def dayNumber (year : Int) (month day : Nat) : Int :=
  let shifted := if month ≤ 2 then year - 1 else year
  let era := shifted / 400
  let yearOfEra := shifted % 400
  let monthFromMarch : Int := if month ≤ 2 then month + 9 else (month : Int) - 3
  let dayOfYear := (153 * monthFromMarch + 2) / 5 + day - 1
  let dayOfEra := yearOfEra * 365 + yearOfEra / 4 - yearOfEra / 100 + dayOfYear
  era * 146097 + dayOfEra - 719468

/-- **Year, month and day** of a day count. -/
def civil (days : Int) : Int × Nat × Nat :=
  let shifted := days + 719468
  let era := shifted / 146097
  let dayOfEra := shifted % 146097
  let yearOfEra :=
    (dayOfEra - dayOfEra / 1460 + dayOfEra / 36524 - dayOfEra / 146096) / 365
  let dayOfYear := dayOfEra - (365 * yearOfEra + yearOfEra / 4 - yearOfEra / 100)
  let monthFromMarch := (5 * dayOfYear + 2) / 153
  let day := dayOfYear - (153 * monthFromMarch + 2) / 5 + 1
  let month := if monthFromMarch < 10 then monthFromMarch + 3 else monthFromMarch - 9
  let year := yearOfEra + era * 400 + (if month ≤ 2 then 1 else 0)
  (year, month.toNat, day.toNat)

namespace Date

/-- Days since the first of January 1970. -/
def dayNumber (d : Date) : Int := TypedSql.dayNumber d.year d.month d.day

end Date

end TypedSql

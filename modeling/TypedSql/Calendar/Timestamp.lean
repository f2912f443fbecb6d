import TypedSql.Calendar.Date

/-!
# Timestamps

A moment in coordinated universal time with a nanosecond part. A leap
second is the second 59 of its minute with a nanosecond part of a whole
second or more, so the counts of seconds stay without gaps.
-/

namespace TypedSql

/-- The seconds of the supported years begin here. -/
def minSeconds : Int := -8334601228800

/-- The seconds of the supported years end here. -/
def maxSeconds : Int := 8210266876799

/-- How many nanoseconds a second has. -/
def nanosPerSecond : Nat := 1000000000

/-- **A moment** in coordinated universal time. -/
structure Timestamp where
  /-- Whole seconds since the first of January 1970, leap seconds not
  counted. -/
  seconds : Int
  /-- Nanoseconds on top of them. -/
  nanos : Nat
  /-- The year is supported. -/
  seconds_range : minSeconds ≤ seconds ∧ seconds ≤ maxSeconds
  /-- Not even a leap second takes the part beyond two seconds. -/
  nanos_range : nanos < 2 * nanosPerSecond
  /-- A leap second is the sixtieth second of its minute. -/
  leap_second : nanosPerSecond ≤ nanos → seconds % 60 = 59
deriving DecidableEq

namespace Timestamp

/-- The moment with the given seconds and nanoseconds, if there is one. -/
def of? (seconds : Int) (nanos : Nat) : Option Timestamp :=
  if h : (minSeconds ≤ seconds ∧ seconds ≤ maxSeconds) ∧ nanos < 2 * nanosPerSecond ∧
      (nanosPerSecond ≤ nanos → seconds % 60 = 59) then
    some ⟨seconds, nanos, h.1, h.2.1, h.2.2⟩
  else none

/-- A moment is the moment with its own numbers. -/
@[simp] theorem of?_self (t : Timestamp) : of? t.seconds t.nanos = some t := by
  simp only [of?]
  rw [dif_pos ⟨t.seconds_range, t.nanos_range, t.leap_second⟩]

/-- The day of the moment, counted from the first of January 1970. -/
def day (t : Timestamp) : Int := t.seconds / 86400

/-- The seconds since midnight. -/
def secondOfDay (t : Timestamp) : Nat := (t.seconds % 86400).toNat

/-- Whether the moment lies in a leap second. -/
def isLeap (t : Timestamp) : Bool := decide (nanosPerSecond ≤ t.nanos)

end Timestamp

end TypedSql

import TypedSql.Calendar.Timestamp
import TypedSql.Text.Blank
import TypedSql.Number.Numeral

/-!
# Dates and timestamps as text

A date is written `YYYY-MM-DD`, a timestamp `YYYY-MM-DDTHH:MM:SSZ` with a
fraction of three, six or nine digits when there is one. A year that does
not have four digits gets a sign.

The readers are wider than the writers. A date field may have blanks before
each number and a sign before the year; a timestamp may have any offset,
which is subtracted, any number of fraction digits, of which nine count, and
letters of either case. What a reader refuses it refuses with a `Fault`, the
first one from the left.
-/

namespace TypedSql.Calendar

/-! ## Writing -/

/-- A number with zeros in front, so that it has at least `width` digits. -/
def padded (width n : Nat) : List Char :=
  let digits := Nat.toDigits 10 n
  List.replicate (width - digits.length) '0' ++ digits

/-- A year: four digits, or a sign and at least four digits. -/
def yearText (year : Int) : List Char :=
  if 0 ≤ year ∧ year ≤ 9999 then padded 4 year.toNat
  else (if year < 0 then '-' else '+') :: padded 4 year.natAbs

/-- `YYYY-MM-DD`. -/
def dateText (year : Int) (month day : Nat) : List Char :=
  yearText year ++ '-' :: padded 2 month ++ '-' :: padded 2 day

/-- The fraction of a second: none, or the fewest of three, six and nine
digits that are exact. -/
def fractionText (nanos : Nat) : List Char :=
  if nanos = 0 then []
  else if nanos % 1000000 = 0 then '.' :: padded 3 (nanos / 1000000)
  else if nanos % 1000 = 0 then '.' :: padded 6 (nanos / 1000)
  else '.' :: padded 9 nanos

/-- `HH:MM:SS` and a fraction. The leap second is the second 60. -/
def timeText (secondOfDay nanos : Nat) : List Char :=
  let leap := decide (nanosPerSecond ≤ nanos)
  padded 2 (secondOfDay / 3600) ++ ':' :: padded 2 (secondOfDay / 60 % 60) ++
    ':' :: padded 2 (secondOfDay % 60 + if leap then 1 else 0) ++
    fractionText (if leap then nanos - nanosPerSecond else nanos)

end TypedSql.Calendar

namespace TypedSql

/-- **The text of a date.** -/
def Date.text (d : Date) : String :=
  String.ofList (Calendar.dateText d.year d.month d.day)

/-- **The text of a moment**, in universal time. -/
def Timestamp.text (t : Timestamp) : String :=
  let (year, month, day) := civil t.day
  String.ofList (Calendar.dateText year month day ++
    'T' :: Calendar.timeText t.secondOfDay t.nanos ++ ['Z'])

end TypedSql

namespace TypedSql.Calendar

/-! ## Reading -/

/-- **Why a text is no date or no timestamp.** -/
inductive Fault where
  /-- The text ends too early. -/
  | premature
  /-- A character stands where it cannot. -/
  | invalid
  /-- A number is too large, or there is no such date. -/
  | outOfRange
  /-- Something is left over. -/
  | trailing
deriving DecidableEq, Repr

/-- The text of a fault. -/
def Fault.message : Fault → String
  | .premature => "premature end of input"
  | .invalid => "input contains invalid characters"
  | .outOfRange => "input is out of range"
  | .trailing => "trailing input"

/-- What a reader gives: a value and the rest of the text, or a fault. -/
abbrev Reading (α : Type) := Except Fault (α × List Char)

/-- Fails with a fault unless a condition holds. -/
def require (condition : Bool) (fault : Fault) : Except Fault Unit :=
  if condition then .ok () else .error fault

/-- How many bytes a text takes. -/
def byteLength (cs : List Char) : Nat := cs.foldr (fun c n => c.utf8Size + n) 0

/-! ### Timestamps -/

/-- Reads exactly `n` digits. -/
def fixedDigits (n : Nat) (cs : List Char) : Reading Nat :=
  let digits := cs.take n
  if digits.length = n ∧ digits.all Char.isDigit then
    .ok (Nat.ofDigitChars 10 digits 0, cs.drop n)
  else .error .invalid

/-- Reads one character of a given kind. -/
def oneOf (p : Char → Bool) : List Char → Reading Unit
  | c :: cs => if p c then .ok ((), cs) else .error .invalid
  | [] => .error .invalid

/-- Reads the fraction of a second as nanoseconds, none if there is no
point. Digits after the ninth are read over. -/
def fraction : List Char → Reading Nat
  | '.' :: [] => .error .premature
  | '.' :: cs =>
    let digits := cs.takeWhile Char.isDigit
    if digits = [] then .error .invalid
    else
      let kept := digits.take 9
      .ok (Nat.ofDigitChars 10 kept 0 * Nat.pow 10 (9 - kept.length),
        cs.dropWhile Char.isDigit)
  | cs => .ok (0, cs)

/-- Reads two digits of an offset. -/
def offsetDigits (cs : List Char) : Reading Nat :=
  if byteLength cs < 2 then .error .premature else fixedDigits 2 cs

/-- Reads hours and minutes of an offset, in minutes. -/
def offsetMinutes (cs : List Char) : Except Fault (Nat × List Char) := do
  let (hours, cs) ← offsetDigits cs
  match cs with
  | [] => .error .premature
  | c :: cs =>
    require (c = ':') .invalid
    let (minutes, cs) ← offsetDigits cs
    require (minutes ≤ 59) .outOfRange
    return (hours * 60 + minutes, cs)

/-- **Reads an offset from universal time** in minutes. The sign may also be
the mathematical minus. -/
def offset : List Char → Reading Int
  | [] => .error .premature
  | c :: cs =>
    if c = 'Z' ∨ c = 'z' then .ok (0, cs)
    else if c = '+' then (offsetMinutes cs).map fun r => ((r.1 : Int), r.2)
    else if c = '-' ∨ c = '\u2212' then
      (offsetMinutes cs).map fun r => (-(r.1 : Int), r.2)
    else .error .invalid

/-- **Reads a timestamp.** -/
def readTimestamp (text : String) : Except Fault Timestamp := do
  let cs := text.toList
  require (19 ≤ byteLength cs) .premature
  let (year, cs) ← fixedDigits 4 cs
  let ((), cs) ← oneOf (· == '-') cs
  let (month, cs) ← fixedDigits 2 cs
  let ((), cs) ← oneOf (· == '-') cs
  let (day, cs) ← fixedDigits 2 cs
  require (Date.of? year month day).isSome .outOfRange
  let ((), cs) ← oneOf (fun c => c == 'T' || c == 't' || c == ' ') cs
  let (hour, cs) ← fixedDigits 2 cs
  let ((), cs) ← oneOf (· == ':') cs
  let (minute, cs) ← fixedDigits 2 cs
  let ((), cs) ← oneOf (· == ':') cs
  let (second, cs) ← fixedDigits 2 cs
  let (nanos, cs) ← fraction cs
  require (hour < 24 && minute < 60 && second ≤ 60) .outOfRange
  let (minutes, cs) ← offset cs
  require cs.isEmpty .trailing
  require (minutes.natAbs < 24 * 60) .outOfRange
  let leap := decide (second = 60)
  let seconds := dayNumber year month day * 86400 + hour * 3600 + minute * 60 +
    (if leap then 59 else (second : Int)) - minutes * 60
  match Timestamp.of? seconds (if leap then nanos + nanosPerSecond else nanos) with
  | some t => .ok t
  | none => .error .outOfRange

/-! ### Dates -/

/-- Reads a number of at least one digit and at most `limit` digits. -/
def boundedNumber (limit : Option Nat) (cs : List Char) : Reading Nat :=
  match cs with
  | [] => .error .premature
  | _ =>
    let run := cs.takeWhile Char.isDigit
    let digits := match limit with
      | some n => run.take n
      | none => run
    if digits = [] then .error .invalid
    else .ok (Nat.ofDigitChars 10 digits 0, cs.drop digits.length)

/-- Reads a year: up to four digits, or a sign and any number of digits. -/
def readYear (cs : List Char) : Except Fault (Int × List Char) := do
  let (year, cs) ← match Text.dropBlanks cs with
    | '-' :: cs => (boundedNumber none cs).map fun r => (-(r.1 : Int), r.2)
    | '+' :: cs => (boundedNumber none cs).map fun r => ((r.1 : Int), r.2)
    | cs => (boundedNumber (some 4) cs).map fun r => ((r.1 : Int), r.2)
  require (int32? year).isSome .outOfRange
  return (year, cs)

/-- Reads a number of one or two digits between one and `max`. -/
def readPart (max : Nat) (cs : List Char) : Except Fault (Nat × List Char) := do
  let (n, cs) ← boundedNumber (some 2) (Text.dropBlanks cs)
  require (1 ≤ n && n ≤ max) .outOfRange
  return (n, cs)

/-- Reads the hyphen between two parts of a date. -/
def hyphen : List Char → Reading Unit
  | [] => .error .premature
  | c :: cs => if c = '-' then .ok ((), cs) else .error .invalid

/-- **Reads a date.** -/
def readDate (text : String) : Except Fault Date := do
  let (year, cs) ← readYear text.toList
  let ((), cs) ← hyphen cs
  let (month, cs) ← readPart 12 cs
  let ((), cs) ← hyphen cs
  let (day, cs) ← readPart 31 cs
  require cs.isEmpty .trailing
  match Date.of? year month day with
  | some d => .ok d
  | none => .error .outOfRange

end TypedSql.Calendar

import TypedSql.Number.Double

/-!
# Numerals

Reading numbers from text. An integer numeral is an optional sign and at
least one digit. A decimal numeral may also have a point – with a digit on
at least one side of it – and an exponent, and it denotes exactly the
number `± digits · 10 ^ exponent`; `Numeral.toDouble` then rounds once.
-/

namespace TypedSql

/-- Splits an optional sign off a text; `true` stands for a minus. -/
def splitSign : List Char → Bool × List Char
  | '-' :: cs => (true, cs)
  | '+' :: cs => (false, cs)
  | cs => (false, cs)

/-- The integer with the given sign and magnitude. -/
def signed (negative : Bool) (n : Nat) : Int :=
  if negative then -(n : Int) else (n : Int)

/-- Reads digits, at least one, to the end of the text. -/
def readDigits? (cs : List Char) : Option Nat :=
  if cs ≠ [] ∧ cs.all Char.isDigit then some (Nat.ofDigitChars 10 cs 0) else none

/-- **Reads an integer numeral**: an optional sign and digits, of any
length. -/
def readInteger? (cs : List Char) : Option Int :=
  let (negative, digits) := splitSign cs
  (readDigits? digits).map (signed negative)

/-- **Writes an integer**: its digits, a minus in front of them if it is
negative. -/
def integerText (n : Int) : String :=
  let digits := Nat.toDigits 10 n.natAbs
  String.ofList (if n < 0 then '-' :: digits else digits)

/-- The integers that fit a 64-bit cell, and no other. -/
def int64? (n : Int) : Option Int64 :=
  if Int64.minValue.toInt ≤ n ∧ n ≤ Int64.maxValue.toInt then some (Int64.ofInt n) else none

/-- The integers that fit 32 bits, and no other. -/
def int32? (n : Int) : Option Int32 :=
  if Int32.minValue.toInt ≤ n ∧ n ≤ Int32.maxValue.toInt then some (Int32.ofInt n) else none

/-- **A decimal number**: `± digits · 10 ^ exponent`. -/
structure Numeral where
  /-- Whether the numeral begins with a minus. -/
  negative : Bool
  /-- All digits before the exponent as one number. -/
  digits : Nat
  /-- The power of ten, the digits after the point counted off. -/
  exponent : Int
deriving DecidableEq, Repr

namespace Numeral

/-- Reads the exponent part that may end a numeral: nothing at all, or the
letter `e` of either case and an integer numeral. -/
def readExponent? : List Char → Option Int
  | [] => some 0
  | c :: cs => if c = 'e' ∨ c = 'E' then readInteger? cs else none

/-- **Reads a decimal numeral.** -/
def read? (text : List Char) : Option Numeral :=
  let (negative, cs) := splitSign text
  let whole := cs.takeWhile Char.isDigit
  let rest := cs.dropWhile Char.isDigit
  let (fraction, rest) :=
    match rest with
    | '.' :: after => (after.takeWhile Char.isDigit, after.dropWhile Char.isDigit)
    | other => ([], other)
  if whole = [] ∧ fraction = [] then none
  else
    (readExponent? rest).map fun e =>
      { negative,
        digits := Nat.ofDigitChars 10 (whole ++ fraction) 0,
        exponent := e - fraction.length }

/-- **The double nearest to a numeral.** A number of more than 310 digits
before the point is infinite, and one whose first digit comes more than 330
places after the point is zero; between the two the quotient is formed and
rounded. The two limits lie beyond the range of doubles, so they only spare
the arithmetic. -/
def toDouble (n : Numeral) : Float :=
  let magnitude : Int := (Nat.toDigits 10 n.digits).length + n.exponent
  if n.digits = 0 ∨ magnitude < -330 then Double.ofMagnitude n.negative 0
  else if 310 < magnitude then Double.ofMagnitude n.negative Double.infinityBits
  else
    Double.nearest n.negative (n.digits * Nat.pow 10 n.exponent.toNat)
      (Nat.pow 10 (-n.exponent).toNat)

end Numeral

end TypedSql

/-!
# Doubles as exact numbers

A finite double is a significand times a power of two. `Double.meaning`
reads that off the bits, and `Double.nearest` goes back: of all doubles it
takes the one nearest to a quotient of two natural numbers, an exact tie
going to the even significand. Both work on natural numbers alone, so
nothing here rounds except where `roundDiv` says so.

The bits of a positive double count upwards with its value, which is what
makes `nearestBits` short: a significand that rounds up to the next power
of two carries into the exponent field by itself, and one that leaves the
finite range lands on the bits of infinity.
-/

namespace TypedSql.Double

/-- **What a double stands for.** -/
inductive Meaning where
  /-- Not a number. -/
  | nan
  /-- An infinity. -/
  | infinite (negative : Bool)
  /-- The number `± significand · 2 ^ exponent`. -/
  | finite (negative : Bool) (significand : Nat) (exponent : Int)
deriving DecidableEq, Repr

/-- The fifty-third bit of a significand. The bits of a double do not hold
it; there it is the last bit of the exponent field, so adding it to the bits
moves to the next power of two. -/
def leadingBit : Nat := 1 <<< 52

/-- The bit of the sign. -/
def signBit : Nat := 1 <<< 63

/-- The bits of positive infinity. -/
def infinityBits : Nat := 2047 * leadingBit

/-- Reads a double off its bits: a sign, eleven bits of exponent and
fifty-two of fraction. A number with exponent field zero has no implicit
leading bit. -/
def meaning (x : Float) : Meaning :=
  let bits : Nat := x.toBits.toNat
  let negative := decide (signBit ≤ bits)
  let field : Nat := bits / leadingBit % 2048
  let fraction : Nat := bits % leadingBit
  if field = 2047 then
    if fraction = 0 then .infinite negative else .nan
  else if field = 0 then .finite negative fraction (-1074)
  else .finite negative (leadingBit + fraction) ((field : Int) - 1075)

/-- The quotient of two natural numbers to the nearest integer, a tie going
to the even one. -/
def roundDiv (num den : Nat) : Nat :=
  let quotient := num / den
  let rest := num % den
  if 2 * rest < den ∨ (2 * rest = den ∧ quotient % 2 = 0) then quotient
  else quotient + 1

/-- The exponent of the grid of doubles around a positive quotient: the one
that leaves fifty-three bits before the point, and never less than that of
the smallest doubles. -/
def gridExponent (num den : Nat) : Int :=
  let estimate : Int := (Nat.log2 num : Int) - (Nat.log2 den : Int)
  let power :=
    if den <<< estimate.toNat ≤ num <<< (-estimate).toNat then estimate
    else estimate - 1
  max (power - 52) (-1074)

/-- The bits of the positive double nearest to `num / den`, those of
infinity for a quotient beyond the finite range. -/
def nearestBits (num den : Nat) : Nat :=
  if num = 0 then 0
  else
    let q := gridExponent num den
    let significand := roundDiv (num <<< (-q).toNat) (den <<< q.toNat)
    min ((q + 1074).toNat * leadingBit + significand) infinityBits

/-- The double with the given sign and the given bits below the sign. -/
def ofMagnitude (negative : Bool) (bits : Nat) : Float :=
  Float.ofBits (UInt64.ofNat (if negative then signBit + bits else bits))

/-- **The double nearest to** `± num / den`. -/
def nearest (negative : Bool) (num den : Nat) : Float :=
  ofMagnitude negative (nearestBits num den)

/-- The double nearest to an integer. -/
def ofInt (n : Int) : Float := nearest (decide (n < 0)) n.natAbs 1

/-- The integer that a double is, if it is one. -/
def toInt? (x : Float) : Option Int :=
  match meaning x with
  | .finite negative significand exponent =>
    let scale := 1 <<< (-exponent).toNat
    if significand % scale = 0 then
      let magnitude := (significand / scale) <<< exponent.toNat
      some (if negative then -(magnitude : Int) else (magnitude : Int))
    else none
  | _ => none

end TypedSql.Double

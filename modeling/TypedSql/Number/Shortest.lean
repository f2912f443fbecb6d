import TypedSql.Number.Double

/-!
# The shortest decimal of a double

Around every double lies the interval of the numbers that round to it, its
ends included when the significand is even. The text of a double is the
decimal of fewest digits in that interval: for one digit, two digits, and
so on, the two neighbours of the double on that decimal grid are tested,
the first grid with a hit wins, of two hits the nearer, and a tie goes
upwards.

Digits are written positionally and never with an exponent; a number that
is whole has no point.
-/

namespace TypedSql

/-- **A decimal grid seen from a double**: with `v` a multiple of a quarter
unit of the double's last place, `v · numerator / denominator` counts the
steps of the grid. -/
structure DecimalGrid where
  /-- What a quarter unit is multiplied with. -/
  numerator : Nat
  /-- What it is divided by. -/
  denominator : Nat
deriving DecidableEq, Repr

namespace DecimalGrid

/-- The grid of the multiples of `10 ^ place`, for a double whose quarter
unit is `2 ^ quarter`. -/
def ofPlace (quarter place : Int) : DecimalGrid where
  numerator := Nat.pow 10 (-place).toNat <<< quarter.toNat
  denominator := Nat.pow 10 place.toNat <<< (-quarter).toNat

end DecimalGrid

/-- **The interval of a double** in quarter units of its last place. -/
structure RoundingInterval where
  /-- The lower end. -/
  lower : Nat
  /-- The double itself. -/
  value : Nat
  /-- The upper end. -/
  upper : Nat
  /-- Whether the ends round to the double as well. -/
  inclusive : Bool
  /-- The power of two of a quarter unit. -/
  quarter : Int
deriving DecidableEq, Repr

namespace RoundingInterval

/-- The interval of `significand · 2 ^ exponent`. Below a power of two the
grid of doubles is twice as fine, except at the very bottom, so the lower
end is only half as far away. -/
def ofFinite (significand : Nat) (exponent : Int) : RoundingInterval where
  lower := 4 * significand -
    (if significand = Double.leadingBit ∧ -1074 < exponent then 1 else 2)
  value := 4 * significand
  upper := 4 * significand + 2
  inclusive := decide (significand % 2 = 0)
  quarter := exponent - 2

/-- Whether the `d`-th point of a grid rounds to the double. -/
def contains (r : RoundingInterval) (g : DecimalGrid) (d : Nat) : Bool :=
  let low := r.lower * g.numerator
  let point := d * g.denominator
  let high := r.upper * g.numerator
  if r.inclusive then decide (low ≤ point) && decide (point ≤ high)
  else decide (low < point) && decide (point < high)

/-- The point of a grid that rounds to the double and is nearest to it, if
there is one; of two equally near the upper. Only the two neighbours of the
double can be it. -/
def nearestPoint? (r : RoundingInterval) (g : DecimalGrid) : Option Nat :=
  let scaled := r.value * g.numerator
  let below := scaled / g.denominator
  match r.contains g below, r.contains g (below + 1) with
  | true, true =>
    if 2 * (scaled - below * g.denominator) < g.denominator then some below
    else some (below + 1)
  | true, false => some below
  | false, true => some (below + 1)
  | false, false => none

/-- How many digits stand before the point, counted backwards for a number
below one: the least `p` with the double below `10 ^ p`. -/
def wholeDigits (r : RoundingInterval) : Int :=
  let num := r.value <<< r.quarter.toNat
  let den := 1 <<< (-r.quarter).toNat
  if den ≤ num then (Nat.toDigits 10 (num / den)).length
  else 1 - (Nat.toDigits 10 ((den - 1) / num)).length

/-- Searches the grids of `digits`, `digits + 1`, … places, `fuel` of them. -/
def search (r : RoundingInterval) (whole : Int) : Nat → Nat → Nat × Int
  | 0, digits => (r.value, whole - digits)
  | fuel + 1, digits =>
    let place := whole - digits
    match r.nearestPoint? (DecimalGrid.ofPlace r.quarter place) with
    | some d => (d, place)
    | none => search r whole fuel (digits + 1)

/-- **The shortest decimal**: digits and the power of ten of the last one.
Seventeen digits always suffice. -/
def shortest (r : RoundingInterval) : Nat × Int := r.search r.wholeDigits 17 1

end RoundingInterval

/-- **Positional notation** of `digits · 10 ^ place`: no exponent, no zeros
after the last digit behind the point, no point when nothing is behind it,
one zero before the point when nothing else is. -/
def positional (digits : Nat) (place : Int) : List Char :=
  let all := Nat.toDigits 10 digits
  let zeros := (all.reverse.takeWhile (· == '0')).length
  let kept := all.take (all.length - zeros)
  let place := place + zeros
  let whole : Int := kept.length + place
  if 0 ≤ place then kept ++ List.replicate place.toNat '0'
  else if whole ≤ 0 then '0' :: '.' :: List.replicate (-whole).toNat '0' ++ kept
  else kept.take whole.toNat ++ '.' :: kept.drop whole.toNat

namespace Double

/-- The digits of a finite double without its sign. -/
def magnitudeDigits (significand : Nat) (exponent : Int) : List Char :=
  if significand = 0 then ['0']
  else
    let (digits, place) := (RoundingInterval.ofFinite significand exponent).shortest
    positional digits place

/-- The text of a finite double, its sign first. Zero keeps its sign. -/
def finiteText (negative : Bool) (significand : Nat) (exponent : Int) : String :=
  let digits := magnitudeDigits significand exponent
  String.ofList (if negative then '-' :: digits else digits)

/-- **The text of a double**, with words for what is no finite number. -/
def text (x : Float) : String :=
  match meaning x with
  | .nan => "NaN"
  | .infinite negative => if negative then "-inf" else "inf"
  | .finite negative significand exponent => finiteText negative significand exponent

end Double

end TypedSql

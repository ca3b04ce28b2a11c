import WireContract.Binary64.Basic

/-!
# The shortest decimal that reads back

Which digits a binary number is written with: the fewest that, read exactly and rounded, give the
number again; of several decimals with that many digits the nearest; of two equally near the one
with the even last digit.

The decimals that round to a magnitude form an interval around its value, from halfway to the
neighbour below to halfway to the neighbour above; the two ends belong to it exactly when the
significand is even. `Interval.holds` decides membership by cross-multiplication. The search goes
over the grids of 1, 2, ... 17 digits and tries, on each, the two neighbours of the value.
-/

namespace WireContract.Binary64

/-! ## 1. The interval -/

/-- The decimals that round to one magnitude, in quarters of a unit. -/
structure Interval where
  low : Nat
  high : Nat
  withEnds : Bool
  deriving Repr

/-- The interval of a positive magnitude. Below a power of two the gap is half as wide, except
    below the least normal number. -/
def Interval.around (magnitude : Nat) : Interval :=
  let half := 2 * Nat.pow 2 (scale magnitude)
  let below :=
    if significand magnitude = magnitudesPerExponent ∧ 0 < scale magnitude then half / 2 else half
  { low := 4 * units magnitude - below
    high := 4 * units magnitude + half
    withEnds := significand magnitude % 2 = 0 }

/-- Whether `digits * 10 ^ exponent` lies in the interval. -/
def Interval.holds (i : Interval) (digits : Nat) (exponent : Int) : Bool :=
  let value := 4 * digits * Nat.pow 10 exponent.toNat * unitsPerOne
  let low := i.low * Nat.pow 10 (-exponent).toNat
  let high := i.high * Nat.pow 10 (-exponent).toNat
  if i.withEnds then decide (low ≤ value) && decide (value ≤ high)
  else decide (low < value) && decide (value < high)

/-! ## 2. The search -/

/-- Decimal digits of a natural. -/
def digitCount (n : Nat) : Nat := (Nat.toDigits 10 n).length

/-- The power of ten of the leading digit of a positive magnitude. -/
def leadingPower (magnitude : Nat) : Int :=
  let v := units magnitude
  if unitsPerOne ≤ v then (digitCount (v / unitsPerOne) : Int) - 1
  else -(digitCount ((unitsPerOne + v - 1) / v - 1) : Int)

/-- The decimal of the grid `10 ^ exponent` that reads back as the magnitude, if one does: the
    nearer neighbour of the value, the even one when both are equally near. -/
def onGrid? (magnitude : Nat) (exponent : Int) : Option Nat :=
  let i := Interval.around magnitude
  let num := units magnitude * Nat.pow 10 (-exponent).toNat
  let den := unitsPerOne * Nat.pow 10 exponent.toNat
  let below := num / den
  match i.holds below exponent, i.holds (below + 1) exponent with
  | true, true => some (roundToEven num den)
  | true, false => some below
  | false, true => some (below + 1)
  | false, false => none

/-- A decimal number: its digits, without zeros at the end, and the power of ten of the first. -/
structure Decimal where
  digits : List Char
  power : Int
  deriving DecidableEq, Repr

/-- The decimal `digits * 10 ^ exponent`. -/
def Decimal.ofScaled (digits : Nat) (exponent : Int) : Decimal :=
  let all := Nat.toDigits 10 digits
  { digits := (all.reverse.dropWhile (· == '0')).reverse
    power := exponent + all.length - 1 }

/-- The digits a positive magnitude is written with. Seventeen always suffice; should no grid
    have a hit, every digit of the exact value is given. -/
def shortest (magnitude : Nat) : Decimal :=
  let power := leadingPower magnitude
  let hit := (List.range 17).findSome? fun (n : Nat) =>
    (onGrid? magnitude (power - n)).map fun digits => Decimal.ofScaled digits (power - n)
  hit.getD (Decimal.ofScaled (units magnitude * Nat.pow 5 1074) (-1074))

end WireContract.Binary64

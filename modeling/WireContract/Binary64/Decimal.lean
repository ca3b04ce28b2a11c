import WireContract.Binary64.Basic

/-!
# Reading decimal numbers

Two readers of decimal notation as 64-bit binary numbers.

* `ofDecimal?` is FAST AND LOSSY: the digits form a 64-bit natural, it is rounded to a
  binary number, and that number is scaled by a power of ten, itself rounded, with one rounding
  per step. This is how numbers of a JSON text are read.
* `isFiniteDecimal` is exact: it tells whether the decimal number rounds to a finite one. This is
  what a numeric key of a record has to pass.
-/

namespace WireContract.Binary64

/-! ## 1. Scaling by powers of ten -/

/-- The greatest power of ten that the format holds. -/
def greatestPower : Nat := 308

/-- The number nearest to a power of ten. -/
def powerOfTen? (n : Nat) : Option Binary64 :=
  ofNat? (Nat.pow 10 n)

/-- A number divided by a power of ten. A power that the format does not hold is divided off in
    two steps; two full steps take every 64-bit natural to zero. -/
def scaledDown? (x : Binary64) (n : Nat) : Option Binary64 :=
  if n ≤ greatestPower then do
    x.div? (← powerOfTen? n)
  else if n ≤ 2 * greatestPower then do
    let y ← x.div? (← powerOfTen? greatestPower)
    y.div? (← powerOfTen? (n - greatestPower))
  else some (zero false)

/-- A number multiplied by a power of ten; zero stays zero under any power. -/
def scaledUp? (x : Binary64) (n : Nat) : Option Binary64 :=
  if n ≤ greatestPower then do
    x.mul? (← powerOfTen? n)
  else if x.magnitude = 0 then some x else none

/-- The number that the digits `significand` and the power of ten `exponent` are read as; `none`
    when it is out of range. -/
def ofDecimal? (negative : Bool) (significand : Nat) (exponent : Int) :
    Option Binary64 := do
  let x ← ofNat? significand
  let y ← if 0 ≤ exponent then x.scaledUp? exponent.toNat else x.scaledDown? exponent.natAbs
  return y.withSign negative

/-! ## 2. Numerals -/

/-- The value of a digit character. -/
def digitValue (c : Char) : Nat := c.toNat - '0'.toNat

/-- The natural that a run of digits denotes. -/
def naturalOf (digits : List Char) : Nat :=
  digits.foldl (fun n c => 10 * n + digitValue c) 0

/-- Whether `significand * 10 ^ exponent` rounds to a finite number. A number with more than 309
    digits before the point is beyond the range and one with fewer is within it, so that the
    comparison in units is made for small exponents only. -/
def isFiniteScaled (significand : Nat) (exponent : Int) : Bool :=
  if significand = 0 then true
  else
    let digits : Int := (Nat.toDigits 10 significand).length + exponent
    if digits < 309 then true
    else if 309 < digits then false
    else
      let num := significand * Nat.pow 10 exponent.toNat * unitsPerOne
      decide (nearest num (Nat.pow 10 (-exponent).toNat) < infinityMagnitude)

/-- The sign in front of a numeral, and the rest. -/
def splitSign : List Char → Bool × List Char
  | '-' :: rest => (true, rest)
  | '+' :: rest => (false, rest)
  | rest => (false, rest)

/-- The exponent that ends a numeral: nothing, or a letter e, a sign and at least one digit. -/
def exponentOf? : List Char → Option Int
  | [] => some 0
  | c :: rest =>
    if c = 'e' ∨ c = 'E' then
      let (negative, digits) := splitSign rest
      if digits.isEmpty || !digits.all Char.isDigit then none
      else some (if negative then -(naturalOf digits : Int) else naturalOf digits)
    else none

/-- The digits behind the point that may follow the digits before it, and what comes then. -/
def splitFraction : List Char → List Char × List Char
  | '.' :: rest => (rest.takeWhile Char.isDigit, rest.dropWhile Char.isDigit)
  | rest => ([], rest)

/-- Whether the text is a decimal numeral of a finite number: a sign, digits with a point
    anywhere among them (at least one digit in all), and an exponent. -/
def isFiniteDecimal (text : List Char) : Bool :=
  let (_, unsigned) := splitSign text
  let whole := unsigned.takeWhile Char.isDigit
  let (fraction, rest) := splitFraction (unsigned.dropWhile Char.isDigit)
  if whole.isEmpty && fraction.isEmpty then false
  else match exponentOf? rest with
    | none => false
    | some e => isFiniteScaled (naturalOf (whole ++ fraction)) (e - fraction.length)

end WireContract.Binary64

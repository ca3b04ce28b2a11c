/-!
# Finite binary floating-point numbers

A number of the 64-bit binary format is a sign and a magnitude. The finite magnitudes, from zero
up, are numbered without a gap: `0` is zero, `1` the least positive number, `2 ^ 52` the least
normal one, and `2047 * 2 ^ 52` would be infinity. The number of a magnitude is also its bit
pattern, so two numbers are the same datum exactly when sign and magnitude agree.

All arithmetic here is exact, in naturals, followed by ONE rounding to the nearest magnitude (to
the even one of two that are equally near). The unit is the least positive number, 2 to the power
-1074: every magnitude is a whole number of units.

* `units`: the exact value in units;
* `nearest`: the number of the magnitude nearest to a quotient of units;
* `mul?`, `div?`: exact result, rounded once, `none` when it is out of range.
-/

namespace WireContract

/-- The magnitudes of one exponent. -/
def Binary64.magnitudesPerExponent : Nat := Nat.pow 2 52

/-- The first magnitude that is not finite. -/
def Binary64.infinityMagnitude : Nat := 2047 * magnitudesPerExponent

/-- The units that make the number one. -/
def Binary64.unitsPerOne : Nat := Nat.pow 2 1074

/-- A finite number of the 64-bit binary format. -/
structure Binary64 where
  negative : Bool
  magnitude : Nat
  finite : magnitude < Binary64.infinityMagnitude
  deriving DecidableEq, Repr

namespace Binary64

/-! ## 1. The exact value -/

/-- The significand of a magnitude: below `2 ^ 53`, and at least `2 ^ 52` for a normal number. -/
def significand (magnitude : Nat) : Nat :=
  if magnitude < magnitudesPerExponent then magnitude
  else magnitude % magnitudesPerExponent + magnitudesPerExponent

/-- The power of two by which the significand counts units. -/
def scale (magnitude : Nat) : Nat :=
  magnitude / magnitudesPerExponent - 1

/-- The exact value of a magnitude, in units. -/
def units (magnitude : Nat) : Nat :=
  significand magnitude * Nat.pow 2 (scale magnitude)

/-! ## 2. Rounding -/

/-- The quotient rounded to the nearest natural; of two equally near, the even one. -/
def roundToEven (num den : Nat) : Nat :=
  let q := num / den
  let r := num % den
  if 2 * r < den then q
  else if den < 2 * r then q + 1
  else if q % 2 = 0 then q else q + 1

/-- The magnitude nearest to `num / den` units. The quotient's bits beyond the 53 leading ones
    are rounded away; a significand rounded up to `2 ^ 53` is the first one of the next exponent,
    which the sum numbers without a special case. -/
def nearest (num den : Nat) : Nat :=
  let spare := (num / den).log2 - 52
  spare * magnitudesPerExponent + roundToEven num (den * Nat.pow 2 spare)

/-! ## 3. Numbers -/

/-- The number of that sign and magnitude, when the magnitude is finite. -/
def ofMagnitude? (negative : Bool) (magnitude : Nat) : Option Binary64 :=
  if h : magnitude < infinityMagnitude then some ⟨negative, magnitude, h⟩ else none

/-- Zero, of either sign. -/
def zero (negative : Bool) : Binary64 := ⟨negative, 0, by decide⟩

/-- The number nearest to a natural number. -/
def ofNat? (n : Nat) : Option Binary64 :=
  ofMagnitude? false (nearest (n * unitsPerOne) 1)

/-- The same magnitude with the given sign. -/
def withSign (negative : Bool) (x : Binary64) : Binary64 := ⟨negative, x.magnitude, x.finite⟩

/-- The product, exact and then rounded once. -/
def mul? (x y : Binary64) : Option Binary64 :=
  ofMagnitude? (x.negative != y.negative) (nearest (units x.magnitude * units y.magnitude) unitsPerOne)

/-- The quotient, exact and then rounded once; nothing is divided by zero. -/
def div? (x y : Binary64) : Option Binary64 :=
  if y.magnitude = 0 then none
  else ofMagnitude? (x.negative != y.negative)
    (nearest (units x.magnitude * unitsPerOne) (units y.magnitude))

/-- Equality as numbers: the two zeros are equal. -/
def sameValue (x y : Binary64) : Bool :=
  x.magnitude == y.magnitude && (x.negative == y.negative || x.magnitude == 0)

end Binary64

end WireContract

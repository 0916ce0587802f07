/-!
# Decimals

A decimal is a natural coefficient times a power of ten. Every finite float has an exact decimal
expansion (`Decimal.ofBinary`), and every decimal has a nearest float (`Decimal.toFloat`); cutting,
rounding and printing of numbers happen between the two, in exact arithmetic.
-/

namespace PocketCalculator

/-- The number `coefficient * 10 ^ exponent`. -/
structure Decimal where
  coefficient : Nat
  exponent : Int
  deriving DecidableEq, Repr

namespace Decimal

/-- The float nearest to the decimal, of two equally near ones the even one. -/
def toFloat (d : Decimal) : Float :=
  Float.ofScientific d.coefficient (decide (d.exponent < 0)) d.exponent.natAbs

/-- The decimal expansion of `mantissa * 2 ^ exponent`. A half is five tenths, so each binary place
after the point is one decimal place. -/
def ofBinary (mantissa : Nat) (exponent : Int) : Decimal :=
  if exponent < 0 then ⟨mantissa * Nat.pow 5 exponent.natAbs, exponent⟩
  else ⟨mantissa * Nat.pow 2 exponent.natAbs, 0⟩

def digits (d : Decimal) : List Char :=
  Nat.toDigits 10 d.coefficient

def digitCount (d : Decimal) : Nat :=
  d.digits.length

/-- The place of the leading digit: `0` for units, `1` for tens, `-1` for tenths. -/
def leadingPlace (d : Decimal) : Int :=
  d.exponent + d.digitCount - 1

/-- How many units of the coefficient make one, where the exponent is not positive. -/
def unit (d : Decimal) : Nat :=
  Nat.pow 10 (-d.exponent).toNat

/-- How many of these units the decimal is; one unit is one where the exponent is positive. -/
def scaled (d : Decimal) : Nat :=
  d.coefficient * Nat.pow 10 d.exponent.toNat

def IsWhole (d : Decimal) : Prop :=
  d.scaled % d.unit = 0

instance (d : Decimal) : Decidable d.IsWhole :=
  inferInstanceAs (Decidable (_ = _))

def floor (d : Decimal) : Nat :=
  d.scaled / d.unit

/-- The nearest natural number; a half goes up. -/
def round (d : Decimal) : Nat :=
  (2 * d.scaled + d.unit) / (2 * d.unit)

/-- The decimal cut after its first `count` digits. -/
def truncate (count : Nat) (d : Decimal) : Decimal :=
  ⟨d.coefficient / Nat.pow 10 (d.digitCount - count),
    d.exponent + (d.digitCount - count : Nat)⟩

/-- The next decimal above with as many digits: nines are followed by a one and zeros, with the
coefficient moved up one place. -/
def succ (d : Decimal) : Decimal :=
  if d.coefficient + 1 = Nat.pow 10 d.digitCount then
    ⟨Nat.pow 10 (d.digitCount - 1), d.exponent + 1⟩
  else ⟨d.coefficient + 1, d.exponent⟩

end Decimal

end PocketCalculator

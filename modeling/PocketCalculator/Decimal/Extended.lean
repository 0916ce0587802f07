import PocketCalculator.Decimal.Basic

/-!
# Signed decimals, infinities and the undefined number

What a float stands for, and what a written number denotes. A finite number keeps its sign apart
from its magnitude, so that there are two zeros.
-/

namespace PocketCalculator

inductive ExtendedDecimal
  | nan
  | infinite (negative : Bool)
  | finite (negative : Bool) (magnitude : Decimal)
  deriving DecidableEq, Repr

namespace ExtendedDecimal

open Float.Model in
def ofFloat (x : Float) : ExtendedDecimal :=
  match x.toModel.unpack with
  | .notANumber => nan
  | .infinity sign => infinite (sign == .negative)
  | .zero sign => finite (sign == .negative) ⟨0, 0⟩
  | .finite sign mantissa exponent _ =>
    finite (sign == .negative) (Decimal.ofBinary mantissa exponent)

def applySign (negative : Bool) (x : Float) : Float :=
  if negative then -x else x

def toFloat : ExtendedDecimal → Float
  | nan => 0 / 0
  | infinite negative => applySign negative (1 / 0)
  | finite negative magnitude => applySign negative magnitude.toFloat

end ExtendedDecimal

open ExtendedDecimal

/-- Whether a float is a whole number. Infinities and the undefined number are not. -/
def isWholeNumber (x : Float) : Bool :=
  match ofFloat x with
  | .finite _ magnitude => magnitude.IsWhole
  | _ => false

/-- The float without the digits after its point; zero for what is not finite. -/
def wholePart (x : Float) : Int :=
  match ofFloat x with
  | .finite true magnitude => -magnitude.floor
  | .finite false magnitude => magnitude.floor
  | _ => 0

/-- The nearest whole number; a half goes away from zero. What is not finite stays as it is. -/
def roundToWhole (x : Float) : Float :=
  match ofFloat x with
  | .finite negative magnitude => applySign negative (Float.ofNat magnitude.round)
  | _ => x

end PocketCalculator

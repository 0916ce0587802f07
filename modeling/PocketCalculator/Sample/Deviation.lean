import PocketCalculator.Arithmetic

/-!
# The standard deviation of a sample

The deviation is computed with the calculator's own operators, step by step from left to right: the
mean, the sum of the squared differences from it, that sum divided by one less than the count of the
numbers, and the square root. A sample needs two numbers.

Powers come from outside: `Float.pow` has no definition to reason about. The steps that need one are
written for any function in its place.
-/

namespace PocketCalculator

/-- Why a sample has no deviation. -/
inductive DeviationError
  | tooFewNumbers
  /-- A step before the root failed. -/
  | arithmetic (cause : CalculationError)
  /-- The root of the variance failed. -/
  | squareRoot (cause : CalculationError)
  deriving DecidableEq, Repr

namespace DeviationError

def message : DeviationError → String
  | tooFewNumbers =>
    "At least two numbers are required for calculating sample standard deviation."
  | arithmetic cause => cause.message
  | squareRoot _ => "Failed to take the square root of the variance"

/-- What a message goes back to. -/
def causes : DeviationError → List String
  | squareRoot cause => [cause.message]
  | tooFewNumbers | arithmetic _ => []

end DeviationError

/-- The value of an operator where `raise base exponent` is the power. A root is a power too. -/
def Operator.binaryValueBy (raise : Float → Float → Float) (op : Operator) (left right : Float) :
    Except CalculationError Float :=
  match op with
  | power => .ok (raise left right)
  | root => if right < 0 then .error .rootOfNegative else .ok (raise right (1 / left))
  | _ => op.binaryValue left right

/-- With the powers of floats, these are the calculator's operators. -/
theorem Operator.binaryValueBy_pow : binaryValueBy Float.pow = binaryValue := by
  funext op left right
  cases op <;> rfl

namespace Sample

def count (numbers : List Float) : Float :=
  Float.ofNat numbers.length

def sum (numbers : List Float) : Except CalculationError Float :=
  numbers.foldlM Operator.add.binaryValue 0

def mean (numbers : List Float) : Except CalculationError Float := do
  Operator.divide.binaryValue (← sum numbers) (count numbers)

section Powers

variable (raise : Float → Float → Float)

/-- The square of the difference from `center`, added to `total`. -/
def addSquareBy (center total number : Float) : Except CalculationError Float := do
  let difference ← Operator.subtract.binaryValue number center
  let square ← Operator.power.binaryValueBy raise difference 2
  Operator.add.binaryValue total square

def varianceBy (numbers : List Float) : Except CalculationError Float := do
  let center ← mean numbers
  let squares ← numbers.foldlM (addSquareBy raise center) 0
  let degreesOfFreedom ← Operator.subtract.binaryValue (count numbers) 1
  Operator.divide.binaryValue squares degreesOfFreedom

def deviationBy (numbers : List Float) : Except DeviationError Float :=
  if numbers.length < 2 then .error .tooFewNumbers
  else
    match varianceBy raise numbers with
    | .error e => .error (.arithmetic e)
    | .ok v => (Operator.root.binaryValueBy raise 2 v).mapError .squareRoot

end Powers

def deviation (numbers : List Float) : Except DeviationError Float :=
  deviationBy Float.pow numbers

end Sample

end PocketCalculator

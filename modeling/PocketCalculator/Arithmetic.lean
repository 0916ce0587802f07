import PocketCalculator.Decimal.Extended
import PocketCalculator.CalculationError
import PocketCalculator.Expression.Operator

/-!
# What operators compute

Operators act on floats, each operation rounded once. Three of them check their operands first:
division by zero, factorials of anything but natural numbers, and roots of negative numbers are
errors. An infinite or undefined value is no error here; only a final result has to be finite.
-/

namespace PocketCalculator

/-- What is no number is undefined or infinite. -/
theorem not_isFinite_iff {x : Float} : x.isFinite = false ↔ x.isNaN ∨ x.isInf := by
  show x.toModel.unpack.isFinite = false ↔
    x.toModel.unpack.isNaN = true ∨ x.toModel.unpack.isInf = true
  cases x.toModel.unpack with
  | notANumber => exact iff_of_true rfl (.inl rfl)
  | infinity => exact iff_of_true rfl (.inr rfl)
  | zero | finite =>
    refine iff_of_false (fun h ↦ by cases h) ?_
    rintro (h | h)
    · cases h
    · cases h

/-- The products of `product` and `count` factors, made one after another. The first of the factors
is `factor`, and each is one more than the last. There is no product after one that is infinite,
which no further factor changes. -/
def runningProducts : Nat → Nat → Float → List Float
  | 0, _, _ => []
  | count + 1, factor, product =>
    let next := product * Float.ofNat factor
    next :: if next.isInf then [] else runningProducts count (factor + 1) next

/-- The last of these products. -/
def multiplyUp (count factor : Nat) (product : Float) : Float :=
  (runningProducts count factor product).getLastD product

theorem multiplyUp_succ (count factor : Nat) (product : Float) :
    multiplyUp (count + 1) factor product =
      if (product * Float.ofNat factor).isInf then product * Float.ofNat factor
      else multiplyUp count (factor + 1) (product * Float.ofNat factor) := by
  simp only [multiplyUp, runningProducts, List.getLastD_cons]
  split <;> rfl

/-- The last factor of a factorial. Factors are counted in 64 bits, and an operand too large for
them counts as the greatest number that is not. -/
def lastFactor (operand : Float) : Nat :=
  min (wholePart operand).toNat (UInt64.size - 1)

def factorial (operand : Float) : Except CalculationError Float :=
  if operand < 0 ∨ !isWholeNumber operand then .error .factorialOfNonNatural
  else .ok (multiplyUp (lastFactor operand - 1) 2 1)

namespace Operator

def unaryValue (op : Operator) (operand : Float) : Except CalculationError Float :=
  match op with
  | factorial => PocketCalculator.factorial operand
  | percent => .ok (operand / 100)
  | _ => .error .malformed

/-- The value of an operator that takes two operands. A root takes its degree on the left. -/
def binaryValue (op : Operator) (left right : Float) : Except CalculationError Float :=
  match op with
  | add => .ok (left + right)
  | subtract => .ok (left - right)
  | multiply => .ok (left * right)
  | divide => if right == 0 then .error .divisionByZero else .ok (left / right)
  | power => .ok (left.pow right)
  | root => if right < 0 then .error .rootOfNegative else .ok (right.pow (1 / left))
  | factorial | percent => .error .malformed

end Operator

end PocketCalculator

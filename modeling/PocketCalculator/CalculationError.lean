/-!
# Reasons an expression has no value

Every failure of the calculator is one of five causes. The text shown in place of a result is
`CalculationError.message`.
-/

namespace PocketCalculator

inductive CalculationError
  /-- The right operand of a division is zero. -/
  | divisionByZero
  /-- The operand of a factorial is negative or not whole. -/
  | factorialOfNonNatural
  /-- The radicand of a root is negative. -/
  | rootOfNegative
  /-- Operators and operands do not reduce to exactly one value. -/
  | malformed
  /-- The result is not a finite number. -/
  | notFinite
  deriving DecidableEq, Repr

def CalculationError.message : CalculationError → String
  | .divisionByZero => "Error: Division by zero"
  | .factorialOfNonNatural => "Error: Factorial requires a non-negative integer"
  | .rootOfNegative => "Error: Cannot take square root of a negative number"
  | .malformed => "Error: Invalid expression"
  | .notFinite => "Error"

end PocketCalculator

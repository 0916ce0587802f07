import PocketCalculator.Arithmetic
import PocketCalculator.Decimal.Reading
import PocketCalculator.Expression.Token

/-!
# Evaluating postfix tokens

Values are kept on a stack. A number puts its value on it; an operator takes its operands off it and
puts its value in their place. An expression has a value when exactly one is left at the end, and
that one is finite.
-/

namespace PocketCalculator

def Token.value : Token → Except CalculationError Float
  | .number text =>
    match readFloat? text with
    | some value => .ok value
    | none => .error .malformed
  | _ => .error .malformed

namespace Postfix

/-- The value that a token puts on a stack, and the values it leaves below. The right operand lies
on top of the left one. -/
def reduce (stack : List Float) (t : Token) : Except CalculationError (Float × List Float) :=
  match t with
  | .number _ => t.value.map fun value ↦ (value, stack)
  | .operator op =>
    match op.arity, stack with
    | .unary, operand :: below => (op.unaryValue operand).map fun value ↦ (value, below)
    | .binary, right :: left :: below => (op.binaryValue left right).map fun value ↦ (value, below)
    | _, _ => .error .malformed
  | .openParenthesis | .closeParenthesis => .error .malformed

def push (stack : List Float) (t : Token) : Except CalculationError (List Float) :=
  (reduce stack t).map fun (value, below) ↦ value :: below

def run (stack : List Float) (tokens : List Token) : Except CalculationError (List Float) :=
  tokens.foldlM push stack

/-- A single finite value is a result. -/
def conclude : List Float → Except CalculationError Float
  | [value] => if value.isFinite then .ok value else .error .notFinite
  | _ => .error .malformed

def evaluate (tokens : List Token) : Except CalculationError Float := do
  conclude (← run [] tokens)

@[simp] theorem run_nil (stack : List Float) : run stack [] = .ok stack := rfl

theorem run_cons (stack : List Float) (t : Token) (ts : List Token) :
    run stack (t :: ts) = push stack t >>= (run · ts) := rfl

theorem run_append (stack : List Float) (ts us : List Token) :
    run stack (ts ++ us) = run stack ts >>= (run · us) := by
  simp [run]

end Postfix

end PocketCalculator

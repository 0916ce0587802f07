import PocketCalculator.Expression.Cursor
import PocketCalculator.Postfix.Conversion
import PocketCalculator.Postfix.Evaluation
import PocketCalculator.Readout

/-!
# From text to readout

The steps of a calculation put together: the tokens of a text, in postfix order, evaluated, and
shown.
-/

namespace PocketCalculator

/-- The tokens of an expression in postfix order. -/
def Postfix.ofExpression (expression : String) : Except CalculationError (List Token) :=
  Postfix.ofInfix (tokenize expression)

def calculate (expression : String) : Except CalculationError Float := do
  Postfix.evaluate (← Postfix.ofExpression expression)

def Readout.ofExpression (expression : String) : Except CalculationError Readout :=
  (calculate expression).map Readout.ofFloat

def shownText (expression : String) : String :=
  Readout.textOrReason (Readout.ofExpression expression)

/-- The operator that the sign on a calculator key stands for. Other characters stay. -/
def readKey : Char → Char
  | '×' => '*'
  | '÷' => '/'
  | c => c

/-- The expression that a text typed on calculator keys stands for. -/
def readKeys (typed : String) : String :=
  typed.map readKey

/-- The readouts of an expression, of the text shown for it, of the text shown for that, and so on:
`count` of them. -/
def rereadings : Nat → String → List (Except CalculationError Readout)
  | 0, _ => []
  | count + 1, expression =>
    Readout.ofExpression expression :: rereadings count (shownText expression)

end PocketCalculator

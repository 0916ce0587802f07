import PocketCalculator.Calculation
import PocketCalculator.Trace.Record

/-!
# The log of a calculation

The records of a calculation in the order of its steps. Text is read no further than the conversion
asks for it: each character passed over is reported between the tokens around it, and nothing is
reported after a token that was refused.
-/

namespace PocketCalculator

namespace Log

/-- The records of a conversion fed with lexemes, each of which has so many bytes before it. -/
def conversion (c : Conversion) : List (Nat × Lexeme) → List Record
  | [] => []
  | (offset, .skipped ch) :: rest => .skipping ch offset :: conversion c rest
  | (_, .token t) :: rest =>
    .converting t c.pending ::
      match c.step t with
      | .ok (_, next) => conversion next rest
      | .error _ => [.unopenedParenthesis]

def ofExpression (expression : String) : List Record :=
  conversion .start (Cursor.ofExpression expression).lexemes ++
    match Postfix.ofExpression expression with
    | .ok tokens => [.converted expression tokens]
    | .error _ => []

/-- The records of the tokens of a postfix expression, from the given stack on. -/
def reduction (stack : List Float) : List Token → List Record
  | [] =>
    match stack with
    | [_] => []
    | _ => [.leftover stack.reverse]
  | t :: ts =>
    match Postfix.reduce stack t with
    | .ok (value, below) => .pushed t value :: reduction (value :: below) ts
    | .error _ => if t.isParenthesis then [.parenthesisInPostfix] else []

def evaluation (tokens : List Token) : List Record :=
  reduction [] tokens

def calculation (expression : String) : List Record :=
  ofExpression expression ++
    match Postfix.ofExpression expression with
    | .error _ => []
    | .ok tokens =>
      evaluation tokens ++
        match Postfix.evaluate tokens with
        | .ok value => [.evaluated expression value]
        | .error _ => []

def showing (expression : String) : List Record :=
  calculation expression ++
    match Readout.ofExpression expression with
    | .ok readout => [.shown readout.value]
    | .error _ => []

end Log

end PocketCalculator

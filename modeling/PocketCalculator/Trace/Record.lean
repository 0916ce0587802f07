import PocketCalculator.Decimal.Notation
import PocketCalculator.Postfix.Conversion
import PocketCalculator.Text.Quoted

/-!
# Trace records

What a calculation reports of its steps. A record keeps what happened; its text is made by
`Record.message`.
-/

namespace PocketCalculator

inductive Level
  | info
  | debug
  | trace
  deriving DecidableEq, Repr

def Level.name : Level → String
  | info => "INFO"
  | debug => "DEBUG"
  | trace => "TRACE"

inductive Record
  /-- A character that belongs to no token, and how many bytes stand before it. -/
  | skipping (c : Char) (offset : Nat)
  /-- A token about to be converted, and what waits at that moment. -/
  | converting (t : Token) (pending : List Pending)
  | unopenedParenthesis
  | converted (expression : String) (tokens : List Token)
  /-- A token of a postfix expression, and the value it puts on the stack. -/
  | pushed (t : Token) (value : Float)
  | parenthesisInPostfix
  /-- The values left at the end where a single one was due, in the order they were put there. -/
  | leftover (values : List Float)
  | evaluated (expression : String) (value : Float)
  | shown (value : Float)
  | sampleRead (count : Nat)
  deriving DecidableEq

namespace Record

def level : Record → Level
  | skipping .. | converting .. | unopenedParenthesis | pushed .. | parenthesisInPostfix
  | leftover .. => .trace
  | converted .. | evaluated .. => .debug
  | shown .. | sampleRead .. => .info

/-- The texts in brackets, with commas between them. -/
def listText (items : List String) : String :=
  "[" ++ ", ".intercalate items ++ "]"

def pendingText : Pending → String
  | .group => "LeftParenthesis"
  | .operator op => "Operator(" ++ op.name ++ ")"

/-- Values in a list are written with a point or an exponent, so that none looks like a whole
number: `5.0`, `1e16`, `1.5e-7`. The exponent appears from ten to the sixteenth on and below a ten
thousandth. -/
def valueLayout (magnitude : Decimal) : List Char :=
  let digits := magnitude.shortest
  if digits.coefficient ≠ 0 ∧ (digits.leadingPlace < -4 ∨ 16 ≤ digits.leadingPlace) then
    digits.normalized 1 ++ 'e' :: (if digits.leadingPlace < 0 then ['-'] else []) ++
      Nat.toDigits 10 digits.leadingPlace.natAbs
  else if digits.exponent < 0 then
    digits.positional
  else
    digits.positional ++ ['.', '0']

def valueText (value : Float) : String :=
  String.ofList ((ExtendedDecimal.ofFloat value).text valueLayout)

/-- What is reported. The operators and groups that wait are listed outermost first. -/
def message : Record → String
  | skipping c offset => "Skipping " ++ Quoted.character c ++ " at offset " ++ offset.repr
  | converting t pending =>
    "Converting " ++ t.text ++ " with operator stack " ++
      listText (pending.reverse.map pendingText)
  | unopenedParenthesis => "Found a closing parenthesis without an opening one"
  | converted expression tokens =>
    "Postfix form of " ++ Quoted.string expression ++ " is " ++ Token.joinTexts tokens
  | pushed t value => t.text ++ " pushes " ++ plainText value
  | parenthesisInPostfix => "Found a parenthesis in postfix input"
  | leftover values => "Expected a single value but found " ++ listText (values.map valueText)
  | evaluated expression value =>
    Quoted.string expression ++ " evaluates to " ++ plainText value
  | shown value => "Shown value is " ++ plainText value
  | sampleRead count => "Read " ++ count.repr ++ " numbers"

end Record

end PocketCalculator

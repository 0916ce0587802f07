/-!
# Operators and their ranks

Eight operators, each with a symbol of one character. `Operator.AppliesBefore` is the rule of
precedence: of two operators met in this order, does the first take its operands before the second?
-/

namespace PocketCalculator

inductive Associativity
  | left
  | right
  deriving DecidableEq, Repr

inductive Arity
  | unary
  | binary
  deriving DecidableEq, Repr

/-- A root takes its degree first and its radicand second. Factorial and percent stand behind
their single operand. -/
inductive Operator
  | add
  | subtract
  | multiply
  | divide
  | power
  | root
  | factorial
  | percent
  deriving DecidableEq, Repr

namespace Operator

def name : Operator → String
  | add => "Add"
  | subtract => "Subtract"
  | multiply => "Multiply"
  | divide => "Divide"
  | power => "Exponentiate"
  | root => "Root"
  | factorial => "Factorial"
  | percent => "Percent"

def symbol : Operator → Char
  | add => '+'
  | subtract => '-'
  | multiply => '*'
  | divide => '/'
  | power => '^'
  | root => '√'
  | factorial => '!'
  | percent => '%'

def ofSymbol? : Char → Option Operator
  | '+' => some add
  | '-' => some subtract
  | '*' => some multiply
  | '/' => some divide
  | '^' => some power
  | '√' => some root
  | '!' => some factorial
  | '%' => some percent
  | _ => none

@[simp] theorem ofSymbol?_symbol (op : Operator) : ofSymbol? op.symbol = some op := by
  cases op <;> rfl

theorem ofSymbol?_eq_some_iff {c : Char} {op : Operator} :
    ofSymbol? c = some op ↔ op.symbol = c := by
  constructor
  · unfold ofSymbol?
    split <;> rintro ⟨⟩ <;> rfl
  · rintro rfl
    exact ofSymbol?_symbol op

/-- A higher precedence binds tighter. Percent binds loosest, with sums: it takes a hundredth of
everything before it, back to the innermost open parenthesis. -/
def precedence : Operator → Nat
  | add | subtract | percent => 1
  | multiply | divide => 2
  | power | root => 3
  | factorial => 4

def associativity : Operator → Associativity
  | add | subtract | multiply | divide | percent => .left
  | power | root | factorial => .right

def arity : Operator → Arity
  | factorial | percent => .unary
  | add | subtract | multiply | divide | power | root => .binary

/-- Whether `waiting`, met earlier, takes its operands before `next` does: it binds tighter, or
equally tight where `next` groups to the left. -/
def AppliesBefore (waiting next : Operator) : Prop :=
  next.precedence < waiting.precedence ∨
    waiting.precedence = next.precedence ∧ next.associativity = .left

instance (waiting next : Operator) : Decidable (waiting.AppliesBefore next) :=
  inferInstanceAs (Decidable (_ ∨ _))

end Operator

end PocketCalculator

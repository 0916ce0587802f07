import PocketCalculator.Expression.Operator

/-!
# Tokens

A number token keeps the text it was written as. The text of a list of tokens puts one space
between neighbours.
-/

namespace PocketCalculator

inductive Token
  | number (text : String)
  | operator (op : Operator)
  | openParenthesis
  | closeParenthesis
  deriving DecidableEq, Repr

namespace Token

def isNumber : Token → Bool
  | number _ => true
  | _ => false

def isParenthesis : Token → Bool
  | openParenthesis | closeParenthesis => true
  | _ => false

def text : Token → String
  | number text => text
  | operator op => op.symbol.toString
  | openParenthesis => "("
  | closeParenthesis => ")"

def ofSymbol? : Char → Option Token
  | '(' => some openParenthesis
  | ')' => some closeParenthesis
  | c => (Operator.ofSymbol? c).map operator

theorem text_of_ofSymbol? {c : Char} {t : Token} (h : ofSymbol? c = some t) :
    t.text = c.toString := by
  unfold ofSymbol? at h
  split at h
  · cases h; rfl
  · cases h; rfl
  · obtain ⟨op, hop, rfl⟩ := Option.map_eq_some_iff.mp h
    rw [← Operator.ofSymbol?_eq_some_iff.mp hop]
    rfl

/-- The texts of the tokens, with one space between neighbours. -/
def joinTexts (tokens : List Token) : String :=
  " ".intercalate (tokens.map text)

end Token

end PocketCalculator

import PocketCalculator.Decimal.Extended

/-!
# Reading numbers

A number is an optional sign, digits with at most one point among them and at least one digit, and
optionally an exponent: `e` or `E`, an optional sign, digits. In place of the digits and exponent
may stand `inf`, `infinity` or `nan` in letters of either case. Digits and letters are those of the
ASCII range, and nothing may stand before or behind the number.
-/

namespace PocketCalculator

namespace ExtendedDecimal

/-- The text without a leading sign, and whether that sign was a minus. -/
def readSign : List Char → Bool × List Char
  | '-' :: s => (true, s)
  | '+' :: s => (false, s)
  | s => (false, s)

/-- A natural number, of one digit at least. -/
def readNat? (s : List Char) : Option Nat :=
  if !s.isEmpty && s.all Char.isDigit then some (Nat.ofDigitChars 10 s 0) else none

/-- What may follow the digits: nothing, or an exponent. -/
def readExponent? : List Char → Option Int
  | [] => some 0
  | c :: s =>
    if c = 'e' ∨ c = 'E' then
      let (negative, digits) := readSign s
      (readNat? digits).map fun n ↦ if negative then -n else n
    else
      none

/-- The digits after the point, if there is one, and what follows. -/
def readFraction : List Char → List Char × List Char
  | '.' :: s => (s.takeWhile Char.isDigit, s.dropWhile Char.isDigit)
  | s => ([], s)

def readDecimal? (s : List Char) : Option Decimal :=
  let whole := s.takeWhile Char.isDigit
  let (fraction, rest) := readFraction (s.dropWhile Char.isDigit)
  match readNat? (whole ++ fraction), readExponent? rest with
  | some coefficient, some exponent => some ⟨coefficient, exponent - fraction.length⟩
  | _, _ => none

def ofChars? (s : List Char) : Option ExtendedDecimal :=
  let (negative, body) := readSign s
  let word := String.ofList (body.map Char.toLower)
  if word = "nan" then some nan
  else if word = "inf" ∨ word = "infinity" then some (infinite negative)
  else (readDecimal? body).map (finite negative)

end ExtendedDecimal

/-- The float nearest to the number that a text denotes, if it denotes one. -/
def readFloat? (text : String) : Option Float :=
  (ExtendedDecimal.ofChars? text.toList).map ExtendedDecimal.toFloat

end PocketCalculator

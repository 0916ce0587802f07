import PocketCalculator.Decimal.Shortest

/-!
# Writing decimals

Two ways to lay out digits: with a point among them, and with a power of ten behind them. The plain
text of a float has its fewest digits in the first way, however large or small it is.
-/

namespace PocketCalculator

namespace Decimal

/-- The digits with the point set in place, and zeros where places are empty: `1500`, `1.5`,
`0.015`. -/
def positional (d : Decimal) : List Char :=
  if d.exponent < 0 then
    let places := d.exponent.natAbs
    let padded := List.replicate (places + 1 - d.digitCount) '0' ++ d.digits
    padded.take (padded.length - places) ++ '.' :: padded.drop (padded.length - places)
  else
    d.digits ++ List.replicate d.exponent.natAbs '0'

/-- The digits with a point after the first, at least `count` of them: `1.50`. A single digit has no
point. -/
def normalized (count : Nat) (d : Decimal) : List Char :=
  match d.digits ++ List.replicate (count - d.digitCount) '0' with
  | [] => []
  | [digit] => [digit]
  | digit :: more => digit :: '.' :: more

/-- The decimal rounded to its first `count` digits; a half goes to the even neighbour. -/
def roundDigits (count : Nat) (d : Decimal) : Decimal :=
  let lower := d.truncate count
  let unit := Nat.pow 10 (d.digitCount - count)
  let dropped := d.coefficient % unit
  if 2 * dropped < unit ∨ 2 * dropped = unit ∧ lower.coefficient % 2 = 0 then lower else lower.succ

end Decimal

/-- The text of a number whose magnitude is laid out by `layout`. -/
def ExtendedDecimal.text (layout : Decimal → List Char) : ExtendedDecimal → List Char
  | .nan => "NaN".toList
  | .infinite negative => (if negative then ['-'] else []) ++ "inf".toList
  | .finite negative magnitude => (if negative then ['-'] else []) ++ layout magnitude

/-- The fewest digits that read back, with the point in place: `5`, `-0`, `0.0000001`, `inf`. -/
def plainText (x : Float) : String :=
  String.ofList ((ExtendedDecimal.ofFloat x).text fun d ↦ d.shortest.positional)

end PocketCalculator

import PocketCalculator.CalculationError
import PocketCalculator.Decimal.Notation
import PocketCalculator.Decimal.Reading

/-!
# The readout

How a result is shown. Whole numbers are shown in full, other numbers with at most seven decimal
places, and numbers of great magnitude with three digits and a power of ten.
-/

namespace PocketCalculator

inductive Readout
  | whole (value : Int)
  /-- A number that is rounded to the places shown. -/
  | fraction (value : Float)
  | scientific (value : Float)
  deriving DecidableEq

namespace Readout

/-- Numbers of greater magnitude are shown with a power of ten. -/
def plainLimit : Float := 1e10

/-- The number of units in the last place of a fraction that make one: there are seven places. -/
def unitsPerOne : Float := 1e7

/-- The nearest number with seven decimal places. A zero loses its sign. -/
def roundToPlaces (value : Float) : Float :=
  let rounded := roundToWhole (value * unitsPerOne) / unitsPerOne
  if rounded == 0 then 0 else rounded

def ofFloat (value : Float) : Readout :=
  if value.abs > plainLimit then .scientific value
  else if isWholeNumber value then .whole (wholePart value)
  else .fraction (roundToPlaces value)

def value : Readout → Float
  | whole n => Float.ofInt n
  | fraction x | scientific x => x

def wholeText (n : Int) : List Char :=
  (ExtendedDecimal.finite (n < 0) ⟨n.natAbs, 0⟩).text Decimal.positional

/-- Three digits, rounded from the exact value, and the place of the first: `1.10e12`. -/
def bareLayout (magnitude : Decimal) : List Char :=
  let rounded := magnitude.roundDigits 3
  rounded.normalized 3 ++ 'e' :: wholeText rounded.leadingPlace

def bareText (x : Float) : List Char :=
  (ExtendedDecimal.ofFloat x).text bareLayout

/-- What stands before the first marker of an exponent, and what stands behind it. -/
def cutAtMarker? (s : List Char) : Option (List Char × List Char) :=
  match s.dropWhile (· ≠ 'e') with
  | [] => none
  | _ :: exponent => some (s.takeWhile (· ≠ 'e'), exponent)

/-- A whole number of 32 bits. -/
def readInt32? (s : List Char) : Option Int :=
  let (negative, digits) := ExtendedDecimal.readSign s
  ((ExtendedDecimal.readNat? digits).map fun (n : Nat) ↦ if negative then -(n : Int) else n).filter
    fun n ↦ Int32.minValue.toInt ≤ n ∧ n ≤ Int32.maxValue.toInt

/-- An exponent with its sign and at least two digits. -/
def exponentText (exponent : Int) : List Char :=
  (if exponent < 0 then '-' else '+') ::
    (List.replicate (2 - (Nat.toDigits 10 exponent.natAbs).length) '0' ++
      Nat.toDigits 10 exponent.natAbs)

/-- The text with the exponent written again, signed and with two digits at least: `1.10e+12`. A
text without an exponent stays as it is, and there is no text if the exponent cannot be read. -/
def padExponent? (s : List Char) : Option (List Char) :=
  match cutAtMarker? s with
  | some (mantissa, exponent) =>
    (readInt32? exponent).map fun n ↦ mantissa ++ 'e' :: exponentText n
  | none => some s

def paddedText? (x : Float) : Option String :=
  (padExponent? (bareText x)).map String.ofList

/-- What is shown. No readout is without a text: the exponent of every float can be read. -/
def text : Readout → String
  | whole n => String.ofList (wholeText n)
  | fraction x => plainText x
  | scientific x => (paddedText? x).getD ""

/-- The text shown in place of an expression: its result, or the reason it has none. -/
def textOrReason : Except CalculationError Readout → String
  | .ok readout => readout.text
  | .error e => e.message

end Readout

end PocketCalculator

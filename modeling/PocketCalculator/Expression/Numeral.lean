/-!
# Numerals at the front of a text

A numeral is one or more digits, then optionally a point with any digits after it, then optionally
an exponent: `e` or `E`, an optional sign, and at least one digit. A marker that no digit follows is
no exponent and stays in the text. `Numeral.span` splits the longest numeral off the front;
`span_append` says that nothing is lost.
-/

namespace PocketCalculator

namespace Numeral

def spanDigits (s : List Char) : List Char × List Char :=
  (s.takeWhile Char.isDigit, s.dropWhile Char.isDigit)

def spanFraction : List Char → List Char × List Char
  | '.' :: s => ('.' :: (spanDigits s).1, (spanDigits s).2)
  | s => ([], s)

def spanSign : List Char → List Char × List Char
  | '+' :: s => (['+'], s)
  | '-' :: s => (['-'], s)
  | s => ([], s)

def isExponentMarker (c : Char) : Bool :=
  c == 'e' || c == 'E'

/-- An exponent needs a digit: without one nothing is split off. -/
def spanExponent : List Char → List Char × List Char
  | [] => ([], [])
  | c :: s =>
    let signed := spanSign s
    let digits := spanDigits signed.2
    if isExponentMarker c && !digits.1.isEmpty then
      (c :: signed.1 ++ digits.1, digits.2)
    else
      ([], c :: s)

/-- The longest numeral at the front of a text that starts with a digit, and the text after it. -/
def span (s : List Char) : List Char × List Char :=
  let whole := spanDigits s
  let fraction := spanFraction whole.2
  let exponent := spanExponent fraction.2
  (whole.1 ++ fraction.1 ++ exponent.1, exponent.2)

@[simp] theorem spanDigits_append (s : List Char) : (spanDigits s).1 ++ (spanDigits s).2 = s :=
  List.takeWhile_append_dropWhile

@[simp] theorem spanFraction_append (s : List Char) :
    (spanFraction s).1 ++ (spanFraction s).2 = s := by
  unfold spanFraction
  split <;> simp

@[simp] theorem spanSign_append (s : List Char) : (spanSign s).1 ++ (spanSign s).2 = s := by
  unfold spanSign
  split <;> simp

@[simp] theorem spanExponent_append (s : List Char) :
    (spanExponent s).1 ++ (spanExponent s).2 = s := by
  cases s with
  | nil => rfl
  | cons c s =>
    simp only [spanExponent]
    split <;> simp

@[simp] theorem span_append (s : List Char) : (span s).1 ++ (span s).2 = s := by
  simp [span]

theorem span_ne_nil {c : Char} (s : List Char) (hc : c.isDigit) : (span (c :: s)).1 ≠ [] := by
  simp [span, spanDigits, hc]

/-- What follows a numeral is shorter than the text it was split off. -/
theorem length_span_lt {c : Char} (s : List Char) (hc : c.isDigit) :
    (span (c :: s)).2.length < (c :: s).length := by
  have happend := congrArg List.length (span_append (c :: s))
  have hpos := List.length_pos_iff.mpr (span_ne_nil s hc)
  rw [List.length_append] at happend
  omega

end Numeral

end PocketCalculator

/-!
# Lines of bytes

A line ends with a newline, or where the input ends. The newline belongs to no line's text, and
neither does a carriage return right before it. A line knows the bytes after it, so that reading can
stop behind any line.
-/

namespace PocketCalculator

/-- The bytes of a line's text, and the bytes after the line. -/
structure Line where
  bytes : List UInt8
  rest : List UInt8
  deriving DecidableEq, Repr

namespace Line

def newline : UInt8 := 10

def carriageReturn : UInt8 := 13

/-- The bytes of a line that ended with a newline. -/
def dropReturn (bytes : List UInt8) : List UInt8 :=
  if bytes.getLast? = some carriageReturn then bytes.dropLast else bytes

/-- The first line of an input that is not empty. -/
def first (input : List UInt8) : Line :=
  let bytes := input.takeWhile (· != newline)
  match input.dropWhile (· != newline) with
  | [] => ⟨bytes, []⟩
  | _ :: rest => ⟨dropReturn bytes, rest⟩

/-- What follows a line is shorter than the input. -/
theorem length_rest_first_lt {input : List UInt8} (h : input ≠ []) :
    (first input).rest.length < input.length := by
  have hle := (List.dropWhile_suffix (l := input) (· != newline)).length_le
  simp only [first]
  split
  · exact List.length_pos_iff.mpr h
  · next heq =>
    rw [heq] at hle
    exact hle

def ofInput (input : List UInt8) : List Line :=
  if _h : input = [] then [] else first input :: ofInput (first input).rest
termination_by input.length
decreasing_by exact length_rest_first_lt ‹_›

@[simp] theorem ofInput_nil : ofInput [] = [] := by
  rw [ofInput]
  rfl

theorem ofInput_of_ne_nil {input : List UInt8} (h : input ≠ []) :
    ofInput input = first input :: ofInput (first input).rest := by
  rw [ofInput, dif_neg h]

def text? (line : Line) : Option String :=
  String.fromUTF8? line.bytes.toByteArray

end Line

end PocketCalculator

import PocketCalculator.Decimal.Reading
import PocketCalculator.Text.Blank
import PocketCalculator.Text.Line
import PocketCalculator.Text.Quoted

/-!
# Reading a sample

Numbers are read line by line until the input ends or a line is blank. Reading stops with an error
at a line that is no text, and at the first word that is no number.
-/

namespace PocketCalculator

inductive InputError
  | undecodable
  | notANumber (word : String)
  deriving DecidableEq, Repr

namespace InputError

/-- What is said of a line whose bytes encode no text. -/
def undecodableText : String :=
  "stream did not contain valid UTF-8"

def message : InputError → String
  | undecodable => "Failed to read from input"
  | notANumber word => Quoted.string word ++ " is not a number"

/-- What a message goes back to. -/
def causes : InputError → List String
  | undecodable => [undecodableText]
  | notANumber _ => ["invalid float literal"]

end InputError

namespace Sample

def readWord (word : String) : Except InputError Float :=
  match readFloat? word with
  | some number => .ok number
  | none => .error (.notANumber word)

def readLine (line : String) : Except InputError (List Float) :=
  (words line).mapM readWord

/-- The numbers up to a blank line or the end, and the bytes after that line. -/
def readLines : List Line → Except InputError (List Float × List UInt8)
  | [] => .ok ([], [])
  | line :: lines =>
    match line.text? with
    | none => .error .undecodable
    | some text =>
      if isBlankLine text then .ok ([], line.rest)
      else do
        let numbers ← readLine text
        let (more, unread) ← readLines lines
        return (numbers ++ more, unread)

/-- Reads a sample from the front of an input: its numbers, and the bytes left unread. -/
def read (input : List UInt8) : Except InputError (List Float × List UInt8) :=
  readLines (Line.ofInput input)

end Sample

end PocketCalculator

import PocketCalculator.Text.Standalone

/-!
# Quoted text

Characters and strings as messages quote them: between quotes of their kind, with a backslash before
a quote of that kind and before a backslash, short forms for four control characters, and the code
point in hexadecimal for every character that does not stand alone.
-/

namespace PocketCalculator

namespace Quoted

/-- The code point of a character in hexadecimal: `\u` and the digits in braces. -/
def codePoint (c : Char) : List Char :=
  ['\\', 'u', '\x7b'] ++ Nat.toDigits 16 c.toNat ++ ['\x7d']

/-- A character as it stands between two quotes. -/
def escape (quote c : Char) : List Char :=
  if c = '\x00' then ['\\', '0']
  else if c = '\t' then ['\\', 't']
  else if c = '\n' then ['\\', 'n']
  else if c = '\r' then ['\\', 'r']
  else if c = '\\' ∨ c = quote then ['\\', c]
  else if isStandalone c then [c]
  else codePoint c

def enclose (quote : Char) (text : List Char) : String :=
  String.ofList (quote :: text.flatMap (escape quote) ++ [quote])

/-- A character in single quotes. -/
def character (c : Char) : String :=
  enclose '\'' [c]

/-- A text in double quotes. -/
def string (text : String) : String :=
  enclose '"' text.toList

end Quoted

end PocketCalculator

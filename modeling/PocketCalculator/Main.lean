import PocketCalculator.CommandLine.Run

/-!
# The calculator program
-/

namespace PocketCalculator

/-- Everything that can still be read. -/
partial def readAll (stream : IO.FS.Stream) (soFar : ByteArray) : IO ByteArray := do
  let chunk ← stream.read 65536
  if chunk.isEmpty then return soFar else readAll stream (soFar ++ chunk)

/-- The bytes that a command works on. An expression given as an argument needs no more. -/
def readInput (arguments : List String) : IO (List UInt8) := do
  match (Invocation.ofArguments arguments).map Invocation.command with
  | .ok .repl | .ok .deviation => return (← readAll (← IO.getStdin) .empty).toList
  | _ => return []

def runProgram (arguments : List String) : IO UInt32 := do
  let input ← readInput arguments
  let outcome := program arguments input
  (reports arguments input).forM fun line ↦ IO.eprintln line
  IO.print outcome.outputText
  outcome.diagnostics.forM fun line ↦ IO.eprintln line
  return outcome.exitCode.toUInt32

end PocketCalculator

def main (arguments : List String) : IO UInt32 :=
  PocketCalculator.runProgram arguments

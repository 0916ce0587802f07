import PocketCalculator.CommandLine.Invocation
import PocketCalculator.Sample.Deviation
import PocketCalculator.Sample.Input
import PocketCalculator.Trace.Log

/-!
# Running commands

What each command prints, what it reports as an error, and its exit code, as a function of the bytes
on its input.
-/

namespace PocketCalculator

/-- The visible result of a command: the lines it prints, the lines it reports as an error, and its
exit code. -/
structure Outcome where
  output : List String
  diagnostics : List String
  exitCode : UInt8
  deriving DecidableEq, Repr

namespace Outcome

/-- The lines printed, each with a newline at its end. -/
def outputText (o : Outcome) : String :=
  String.join (o.output.map (· ++ "\n"))

def success (output : List String) : Outcome :=
  ⟨output, [], 0⟩

/-- An error that ends the command, and what it goes back to. -/
def failure (output : List String) (message : String) (causes : List String) : Outcome :=
  ⟨output, ("Error: " ++ message) ::
    (if causes.isEmpty then [] else "" :: "Caused by:" :: causes.map ("    " ++ ·)), 1⟩

/-- What becomes of arguments that no command is run for. What is said about them comes from their
reader and is not part of the outcome. -/
def ofInterruption : Interruption → Outcome
  | .explanation => ⟨[], [], 0⟩
  | .refusal => ⟨[], [], 2⟩

end Outcome

/-- The expressions on the lines up to the end or a line that is no text, and whether all lines are
text. Blank lines are passed over. -/
def expressionsOn : List Line → List String × Bool
  | [] => ([], true)
  | line :: lines =>
    match line.text? with
    | none => ([], false)
    | some text =>
      let (more, complete) := expressionsOn lines
      (if isBlankLine text then more else text :: more, complete)

namespace Command

/-- The line of postfix tokens printed before a result, unless there are none. -/
def postfixLine (expression : String) : List String :=
  match Postfix.ofExpression (readKeys expression) with
  | .ok tokens => [Token.joinTexts tokens]
  | .error _ => []

/-- The exit code tells whether the expression has a value. -/
def runEval (expression : String) (showPostfix : Bool) : Outcome where
  output :=
    (if showPostfix then postfixLine expression else []) ++ [shownText (readKeys expression)]
  diagnostics := []
  exitCode := if (Readout.ofExpression (readKeys expression)).isOk then 0 else 1

/-- One line is printed for each expression, whether it has a value or not. -/
def runRepl (input : List UInt8) : Outcome :=
  let (expressions, complete) := expressionsOn (Line.ofInput input)
  let output := expressions.map fun expression ↦ shownText (readKeys expression)
  if complete then .success output else .failure output InputError.undecodableText []

def runDeviation (input : List UInt8) : Outcome :=
  match Sample.read input with
  | .error e => .failure [] e.message e.causes
  | .ok (numbers, _) =>
    match Sample.deviation numbers with
    | .error e => .failure [] e.message e.causes
    | .ok value => .success [plainText value]

def run (command : Command) (input : List UInt8) : Outcome :=
  match command with
  | eval expression showPostfix => runEval expression showPostfix
  | repl => runRepl input
  | deviation => runDeviation input

def log (command : Command) (input : List UInt8) : List Record :=
  match command with
  | eval expression showPostfix =>
    (if showPostfix then Log.ofExpression (readKeys expression) else []) ++
      Log.showing (readKeys expression)
  | repl =>
    (expressionsOn (Line.ofInput input)).1.flatMap fun expression ↦
      Log.showing (readKeys expression)
  | deviation =>
    match Sample.read input with
    | .error _ => []
    | .ok (numbers, _) => [.sampleRead numbers.length]

end Command

/-- The verbosity from which on records of a level are reported. -/
def Level.threshold : Level → Nat
  | info => 2
  | debug => 3
  | trace => 4

namespace Invocation

/-- The reports of a run, one line for each record. -/
def reports (invocation : Invocation) (input : List UInt8) : List String :=
  if invocation.verbosity < Level.threshold .info then []
  else
    ((invocation.command.log input).filter fun record ↦
      record.level.threshold ≤ invocation.verbosity).map fun record ↦
        "[" ++ record.level.name ++ "] " ++ record.message

end Invocation

def reports (arguments : List String) (input : List UInt8) : List String :=
  match Invocation.ofArguments arguments with
  | .ok invocation => invocation.reports input
  | .error _ => []

/-- The whole program: what it makes of its arguments and its input. -/
def program (arguments : List String) (input : List UInt8) : Outcome :=
  match Invocation.ofArguments arguments with
  | .ok invocation => invocation.command.run input
  | .error interruption => .ofInterruption interruption

end PocketCalculator

/-!
# Command line arguments

A command line names one of three commands. Flags for more or fewer reports may stand on either side
of its name, alone or joined in one argument such as `-vv`. After `--` every argument is a word,
whatever it looks like.

Arguments are read from left to right, up to the first that asks for an explanation of the program
or is not understood. Whether they make up a command is looked at in the end.
-/

namespace PocketCalculator

inductive Command
  /-- Evaluate one expression, after printing its postfix form if that is asked for. -/
  | eval (expression : String) (showPostfix : Bool)
  | repl
  /-- Print the sample standard deviation of the numbers of the input. -/
  | deviation
  deriving DecidableEq, Repr

/-- Why no command is run. -/
inductive Interruption
  /-- The arguments ask how the program is used, or for its version. -/
  | explanation
  | refusal
  deriving DecidableEq, Repr

inductive Flag
  | verbose
  | quiet
  | showPostfix
  | help
  | version
  deriving DecidableEq, Repr

namespace Flag

def ofName? : String → Option Flag
  | "verbose" => some verbose
  | "quiet" => some quiet
  | "postfix" => some showPostfix
  | "help" => some help
  | "version" => some version
  | _ => none

def ofLetter? : Char → Option Flag
  | 'v' => some verbose
  | 'q' => some quiet
  | 'h' => some help
  | 'V' => some version
  | _ => none

end Flag

inductive Argument
  | word (text : String)
  /-- A flag by its name, or flags by their letters. Unknown ones are left open. -/
  | flags (flags : List (Option Flag))
  | endOfOptions
  deriving DecidableEq, Repr

def Argument.ofText (text : String) : Argument :=
  match text.toList with
  | ['-', '-'] => endOfOptions
  | '-' :: '-' :: name => flags [Flag.ofName? (String.ofList name)]
  | '-' :: letter :: letters => flags ((letter :: letters).map Flag.ofLetter?)
  | _ => word text

/-- What may stand on one side of a command's name: certain flags, and so many words. -/
structure ArgumentPlace where
  flags : List Flag
  words : Nat
  deriving DecidableEq, Repr

namespace ArgumentPlace

def beforeName : ArgumentPlace :=
  ⟨[.verbose, .quiet, .help, .version], 0⟩

/-- The arguments of the command with the given name, if there is one. -/
def afterName? : String → Option ArgumentPlace
  | "eval" => some ⟨[.verbose, .quiet, .help, .showPostfix], 1⟩
  | "repl" | "deviation" => some ⟨[.verbose, .quiet, .help], 0⟩
  | _ => none

end ArgumentPlace

/-- The arguments read so far on one side of the command's name. -/
structure ArgumentTally where
  flags : List Flag
  words : List String
  deriving DecidableEq, Repr

namespace ArgumentTally

def empty : ArgumentTally := ⟨[], []⟩

/-- One flag more. An explanation that is asked for comes at once. -/
def addFlag (place : ArgumentPlace) (a : ArgumentTally) (flag : Option Flag) :
    Except Interruption ArgumentTally :=
  match flag.filter (place.flags.contains ·) with
  | none => .error .refusal
  | some .help | some .version => .error .explanation
  | some flag => .ok { a with flags := a.flags ++ [flag] }

def addWord (place : ArgumentPlace) (a : ArgumentTally) (word : String) :
    Except Interruption ArgumentTally :=
  if a.words.length < place.words then .ok { a with words := a.words ++ [word] }
  else .error .refusal

/-- The flags before the command's name, the name, and the arguments after it. -/
def readName (a : ArgumentTally) :
    List String → Except Interruption (ArgumentTally × String × List String)
  | [] => .error .refusal
  | text :: rest =>
    match Argument.ofText text with
    | .word name => .ok (a, name, rest)
    | .flags flags => do (← flags.foldlM (addFlag .beforeName) a).readName rest
    | .endOfOptions => .error .refusal

def read (place : ArgumentPlace) (a : ArgumentTally) :
    List String → Except Interruption ArgumentTally
  | [] => .ok a
  | text :: rest =>
    match Argument.ofText text with
    | .word word => do (← a.addWord place word).read place rest
    | .flags flags => do (← flags.foldlM (addFlag place) a).read place rest
    | .endOfOptions => rest.foldlM (addWord place) a

/-- More and fewer reports cannot be asked for together, nor the postfix form twice. -/
def Consistent (a : ArgumentTally) : Prop :=
  (.verbose ∉ a.flags ∨ .quiet ∉ a.flags) ∧ a.flags.count .showPostfix ≤ 1

instance (a : ArgumentTally) : Decidable a.Consistent :=
  inferInstanceAs (Decidable (_ ∧ _))

def command? (a : ArgumentTally) (name : String) : Option Command :=
  match name, a.words with
  | "eval", [expression] => some (.eval expression (a.flags.contains .showPostfix))
  | "repl", [] => some .repl
  | "deviation", [] => some .deviation
  | _, _ => none

/-- How often a flag counts. After the name it replaces what was asked for before the name. -/
def occurrences (before after : ArgumentTally) (flag : Flag) : Nat :=
  if flag ∈ after.flags then after.flags.count flag else before.flags.count flag

end ArgumentTally

/-- What `help` in place of a command's name leads to: it may be followed by one name. -/
def Interruption.ofHelp : List String → Interruption
  | [] => explanation
  | [name] =>
    if name = "help" ∨ (ArgumentPlace.afterName? name).isSome then explanation else refusal
  | _ => refusal

/-- A command, and how much is to be reported while it runs. -/
structure Invocation where
  command : Command
  verbosity : Nat
  deriving DecidableEq, Repr

/-- What a list of arguments asks for. -/
def Invocation.ofArguments (arguments : List String) : Except Interruption Invocation := do
  let (before, name, rest) ← ArgumentTally.empty.readName arguments
  if name = "help" then throw (.ofHelp rest)
  match ArgumentPlace.afterName? name with
  | none => throw .refusal
  | some place =>
    let after ← ArgumentTally.empty.read place rest
    match after.command? name with
    | none => throw .refusal
    | some command =>
      if before.Consistent ∧ after.Consistent then
        return ⟨command, before.occurrences after .verbose - before.occurrences after .quiet⟩
      else
        throw .refusal

end PocketCalculator

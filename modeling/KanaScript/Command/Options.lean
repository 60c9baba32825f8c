import KanaScript.Number.Basic

/-! The arguments of the command line. -/

namespace KanaScript

/-- A file to compile, and what to show of it. -/
structure Job where
  input : String
  output : Option String
  tokens : Bool
  tree : Bool
  inspect : Bool
deriving DecidableEq

inductive Command
  | compile (job : Job)
  | transliterate (text : String)
  | spell (value : Nat)
  | help
deriving DecidableEq

structure Options where
  command : Command
  verbose : Bool
deriving DecidableEq

/-- What is wrong with the arguments. -/
inductive UsageError
  | noText
  | noNumber
  | notANumber (argument : String)
  | noFileName (option : String)
  | unknownOption (option : String)
  | unexpectedArgument (argument : String)
  | noInput
deriving DecidableEq

def UsageError.message : UsageError → String
  | noText => "jp2grg needs some text"
  | noNumber => "num2grg needs a number"
  | notANumber argument => "'" ++ argument ++ "' is not a non-negative integer"
  | noFileName option => option ++ " needs a file name"
  | unknownOption option => "Unknown option '" ++ option ++ "'"
  | unexpectedArgument argument => "Unexpected argument '" ++ argument ++ "'"
  | noInput => "No input file provided"

namespace Options

/-- The largest number that can be asked for. -/
def maxNumber : Nat := UInt64.size - 1

/-- A number of decimal digits, perhaps after a plus sign. -/
def number? (argument : String) : Option Nat :=
  let digits :=
    match argument.toList with
    | '+' :: digits => digits
    | digits => digits
  let value := Number.digitsValue digits
  if !digits.isEmpty && digits.all Char.isDigit && value ≤ maxNumber then some value else none

/-- What the arguments so far have set. -/
structure Settings where
  input : Option String := none
  output : Option String := none
  tokens : Bool := false
  tree : Bool := false
  inspect : Bool := false
  verbose : Bool := false

/-- Whether an argument asks for an option; a dash alone is a file name. -/
def isOption (argument : String) : Bool :=
  argument.toList.head? == some '-' && argument.length > 1

/-- The options that `arguments` add to `settings`.  Help ends the reading. -/
def collect (settings : Settings) : List String → Except UsageError Options
  | [] =>
    match settings.input with
    | none => .error .noInput
    | some input =>
      .ok ⟨.compile ⟨input, settings.output, settings.tokens, settings.tree, settings.inspect⟩,
        settings.verbose⟩
  | argument :: rest =>
    if argument = "-h" ∨ argument = "--help" then .ok ⟨.help, settings.verbose⟩
    else if argument = "-o" ∨ argument = "--output" then
      match rest with
      | [] => .error (.noFileName argument)
      | path :: rest => collect { settings with output := some path } rest
    else if argument = "--tokens" then collect { settings with tokens := true } rest
    else if argument = "--ast" then collect { settings with tree := true } rest
    else if argument = "--inspect" then collect { settings with inspect := true } rest
    else if argument = "-v" ∨ argument = "--verbose" then
      collect { settings with verbose := true } rest
    else if isOption argument then .error (.unknownOption argument)
    else if settings.input.isSome then .error (.unexpectedArgument argument)
    else collect { settings with input := some argument } rest

/-- The options of a command line.  A first argument that names a tool takes all that follow. -/
def ofArguments : List String → Except UsageError Options
  | "jp2grg" :: words =>
    if words.isEmpty then .error .noText else .ok ⟨.transliterate (" ".intercalate words), false⟩
  | "num2grg" :: [] => .error .noNumber
  | "num2grg" :: argument :: _ =>
    match number? argument with
    | some value => .ok ⟨.spell value, false⟩
    | none => .error (.notANumber argument)
  | arguments => collect {} arguments

/-- The text that explains the arguments. -/
def usage : String :=
  "Usage: grongigo <input> [options]
       grongigo jp2grg <text>...
       grongigo num2grg <number>

Options:
  -o, --output <file>  Write C source to <file> (default: input with .c extension)
  --tokens             Print the token stream
  --ast                Print the syntax tree
  --inspect            Browse source, tokens, tree and output in a terminal UI
  -v, --verbose        Log pipeline progress to stderr
  -h, --help           Show this help"

end Options

end KanaScript

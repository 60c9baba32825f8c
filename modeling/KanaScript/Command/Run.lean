import KanaScript.Command.FileSystem
import KanaScript.Command.Options
import KanaScript.Command.Path
import KanaScript.Compile
import KanaScript.Numeral
import KanaScript.Transliteration
import KanaScript.Tree.Listing

/-! Commands at work, in any file system and at any terminal.  A compilation reads its input once and
writes at most once, after everything else has succeeded; the parts between reading and writing are
pure. -/

namespace KanaScript

/-- What a command leaves on the screen, and its exit status. -/
structure Report where
  status : UInt8
  out : String
  err : String

/-- Why a command failed. -/
inductive CommandError
  | usage (error : UsageError)
  | read (path : String) (error : FileError)
  | write (path : String) (error : SystemError)
  | parse (error : ParseError)
  | terminal (error : SystemError)

/-- What is reported of a failure.  The message of a parse error says itself what it is. -/
def CommandError.report : CommandError → String
  | usage error => "Error: " ++ error.message ++ "\n\n" ++ Options.usage ++ "\n"
  | read path error => "Error: Cannot read '" ++ path ++ "': " ++ error.message ++ "\n"
  | write path error => "Error: Cannot write '" ++ path ++ "': " ++ error.message ++ "\n"
  | parse error => error.message ++ "\n"
  | terminal error => "Error: Terminal error: " ++ error.message ++ "\n"

def Report.success (out log : String) : Report := ⟨0, out, log⟩

/-- The report of a failure after `out` was printed and `log` was logged. -/
def Report.failure (out log : String) (error : CommandError) : Report := ⟨1, out, log ++ error.report⟩

/-- How the inspector ends that is opened on a source. -/
abbrev Terminal := String → Except SystemError Unit

/-- Without a terminal the inspector cannot be opened. -/
def Terminal.absent : Terminal := fun _ => .error .noDevice

namespace Job

/-- The file that a job writes. -/
def outputPath (input : String) (output : Option String) : String :=
  match output with
  | some path => path
  | none => String.ofList (Path.withExtension input.toList ['c'])

/-- A line of the log, kept only if the job is verbose. -/
def logLine (verbose : Bool) (level message : String) : String :=
  if verbose then level ++ " grongigo: " ++ message ++ "\n" else ""

/-- A C text and the file that it goes to. -/
structure Output where
  path : String
  code : String

/-- What is left to be written, with what was printed and logged on the way.  The inspector leaves
nothing to be written. -/
structure Progress where
  out : String
  log : String
  result : Except CommandError (Option Output)

/-- All that a job does after it has read its input. -/
def process (job : Job) (verbose : Bool) (terminal : Terminal)
    (content : Except SystemError ByteArray) : Progress :=
  match content with
  | .error error => ⟨"", "", .error (.read job.input (.system error))⟩
  | .ok bytes =>
    match String.fromUTF8? bytes with
    | none => ⟨"", "", .error (.read job.input .notText)⟩
    | some source =>
      let log := logLine verbose "INFO" ("read source path=" ++ job.input)
      if job.inspect then
        match terminal source with
        | .error error => ⟨"", log, .error (.terminal error)⟩
        | .ok () => ⟨"", log, .ok none⟩
      else
        let tokens := tokenize source
        let log := log ++ logLine verbose "DEBUG"
          ("tokenized bytes=" ++ Nat.repr source.utf8ByteSize ++ " tokens=" ++
            Nat.repr tokens.length)
        let out :=
          if job.tokens then "=== Tokens ===\n" ++ Token.listings tokens ++ "\n" else ""
        match parse tokens with
        | .error error => ⟨out, log, .error (.parse error)⟩
        | .ok program =>
          let log := log ++ logLine verbose "DEBUG"
            ("parsed declarations=" ++ Nat.repr program.length)
          let out :=
            out ++ if job.tree then "=== AST ===\n" ++ Program.listingText program ++ "\n" else ""
          let code := Program.code program
          let log := log ++ logLine verbose "DEBUG"
            ("generated bytes=" ++ Nat.repr code.utf8ByteSize)
          ⟨out, log, .ok (some ⟨outputPath job.input job.output, code⟩)⟩

/-- The report of a job that has got as far as `progress` and tried to write `output`. -/
def finish (job : Job) (verbose : Bool) (progress : Progress) (output : Output)
    (written : Except SystemError Unit) : Report :=
  match written with
  | .error error => .failure progress.out progress.log (.write output.path error)
  | .ok () =>
    .success progress.out (progress.log ++
      logLine verbose "DEBUG" ("wrote output path=" ++ output.path ++ " bytes=" ++
        Nat.repr output.code.utf8ByteSize) ++
      logLine verbose "INFO" ("compiled input=" ++ job.input ++ " output=" ++ output.path))

/-- A job in a file system: its report and the files afterwards. -/
def run {σ : Type} [FileSystem σ] (job : Job) (verbose : Bool) (terminal : Terminal) (files : σ) :
    Report × σ :=
  let progress := job.process verbose terminal (FileSystem.read files job.input)
  match progress.result with
  | .error error => (.failure progress.out progress.log error, files)
  | .ok none => (.success progress.out progress.log, files)
  | .ok (some output) =>
    match FileSystem.write files output.path output.code.toUTF8 with
    | .error error => (job.finish verbose progress output (.error error), files)
    | .ok after => (job.finish verbose progress output (.ok ()), after)

end Job

/-- The report of a command that touches no file. -/
def Command.report : Command → Report
  | compile _ => .success "" ""
  | transliterate text =>
    .success (String.ofList (Transliteration.convert text.toList) ++ "\n") ""
  | spell value => .success (String.ofList (Numeral.spell value) ++ "\n") ""
  | help => .success (Options.usage ++ "\n") ""

/-- A command line in a file system: its report and the files afterwards. -/
def runArguments {σ : Type} [FileSystem σ] (terminal : Terminal) (arguments : List String)
    (files : σ) : Report × σ :=
  match Options.ofArguments arguments with
  | .error error => (.failure "" "" (.usage error), files)
  | .ok options =>
    match options.command with
    | .compile job => job.run options.verbose terminal files
    | command => (command.report, files)

end KanaScript

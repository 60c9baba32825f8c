import KanaScript.Command.Run

/-! The command line program. -/

namespace KanaScript

/-- What a failed system call says. -/
def SystemError.ofCall : IO.Error → SystemError
  | .noFileOrDirectory _ _ _ => .missing
  | .inappropriateType _ code details =>
    if code = 20 then .notDirectory else if code = 21 then .isDirectory else ⟨code, details⟩
  | .alreadyExists _ code details => ⟨code, details⟩
  | .permissionDenied _ code details => ⟨code, details⟩
  | .resourceExhausted _ code details => ⟨code, details⟩
  | .invalidArgument _ code details => ⟨code, details⟩
  | .noSuchThing _ code details => ⟨code, details⟩
  | .interrupted _ code details => ⟨code, details⟩
  | .otherError code details => ⟨code, details⟩
  | .resourceBusy code details => ⟨code, details⟩
  | .resourceVanished code details => ⟨code, details⟩
  | .unsupportedOperation code details => ⟨code, details⟩
  | .hardwareFault code details => ⟨code, details⟩
  | .unsatisfiedConstraints code details => ⟨code, details⟩
  | .illegalOperation code details => ⟨code, details⟩
  | .protocolError code details => ⟨code, details⟩
  | .timeExpired code details => ⟨code, details⟩
  | .unexpectedEof => ⟨0, "unexpected end of file"⟩
  | .userError details => ⟨0, details⟩

/-- The result of a system call. -/
def onSystem {α : Type} (action : IO α) : IO (Except SystemError α) := do
  match ← action.toBaseIO with
  | .ok value => return .ok value
  | .error error => return .error (.ofCall error)

/-- A job on the files of the system. -/
def Job.perform (job : Job) (verbose : Bool) : IO Report := do
  let content ← onSystem (IO.FS.readBinFile job.input)
  let progress := job.process verbose .absent content
  match progress.result with
  | .error error => return .failure progress.out progress.log error
  | .ok none => return .success progress.out progress.log
  | .ok (some output) =>
    let written ← onSystem (IO.FS.writeBinFile output.path output.code.toUTF8)
    return job.finish verbose progress output written

/-- A command line on the files of the system. -/
def perform (arguments : List String) : IO Report := do
  match Options.ofArguments arguments with
  | .error error => return .failure "" "" (.usage error)
  | .ok options =>
    match options.command with
    | .compile job => job.perform options.verbose
    | command => return command.report

end KanaScript

def main (arguments : List String) : IO UInt32 := do
  let report ← KanaScript.perform arguments
  IO.print report.out
  IO.eprint report.err
  return report.status.toUInt32

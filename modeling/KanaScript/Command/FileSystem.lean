/-! What commands ask of the files around them, and how it can fail. -/

namespace KanaScript

/-- An error of the system, by its number. -/
structure SystemError where
  code : UInt32
  details : String

namespace SystemError

def message (error : SystemError) : String :=
  error.details ++ " (os error " ++ Nat.repr error.code.toNat ++ ")"

def missing : SystemError := ⟨2, "No such file or directory"⟩

def noDevice : SystemError := ⟨6, "No such device or address"⟩

def notDirectory : SystemError := ⟨20, "Not a directory"⟩

def isDirectory : SystemError := ⟨21, "Is a directory"⟩

end SystemError

/-- Why a text could not be read from a file. -/
inductive FileError
  | system (error : SystemError)
  | notText

def FileError.message : FileError → String
  | system error => error.message
  | notText => "stream did not contain valid UTF-8"

/-- Files that are read and written by their paths.  Writing gives the files afterwards; what fails
changes nothing. -/
class FileSystem (σ : Type) where
  read : σ → String → Except SystemError ByteArray
  write : σ → String → ByteArray → Except SystemError σ

end KanaScript

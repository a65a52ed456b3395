import FirmwareJobs.Text.Decimal

/-! # Faults of the operating system -/

namespace FirmwareJobs.Files

inductive Fault where
  | missing
  | denied
  | taken
  | notDirectory
  | isDirectory
  | invalid
  | noSpace
  | nameTooLong
  | notEmpty
  | loop
  | notExecutable
  | nulInName
  | nulInCommand
  deriving Repr, DecidableEq

namespace Fault

def numbered (text : String) (code : Nat) : String :=
  text ++ " (os error " ++ String.ofList (Text.digits code) ++ ")"

def message : Fault → String
  | .missing => numbered "No such file or directory" 2
  | .denied => numbered "Permission denied" 13
  | .taken => numbered "File exists" 17
  | .notDirectory => numbered "Not a directory" 20
  | .isDirectory => numbered "Is a directory" 21
  | .invalid => numbered "Invalid argument" 22
  | .noSpace => numbered "No space left on device" 28
  | .nameTooLong => numbered "File name too long" 36
  | .notEmpty => numbered "Directory not empty" 39
  | .loop => numbered "Too many levels of symbolic links" 40
  | .notExecutable => numbered "Exec format error" 8
  | .nulInName => "file name contained an unexpected NUL byte"
  | .nulInCommand => "nul byte found in provided data"

end Fault

end FirmwareJobs.Files

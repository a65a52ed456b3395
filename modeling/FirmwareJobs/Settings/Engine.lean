import FirmwareJobs.Path
import FirmwareJobs.Text.Blank
import FirmwareJobs.Text.CommandLine

/-! # Settings of the job engine -/

namespace FirmwareJobs

/-- Names with values; a name that is set again keeps its place. -/
abbrev Environment := List (String × String)

namespace Environment

def get? (env : Environment) (name : String) : Option String := env.lookup name

def set (env : Environment) (name value : String) : Environment :=
  match env with
  | [] => [(name, value)]
  | (n, v) :: rest => if n = name then (n, value) :: rest else (n, v) :: set rest name value

def unset (env : Environment) (name : String) : Environment := env.filter (·.1 != name)

def setAll (env : Environment) (entries : List (String × String)) : Environment :=
  entries.foldl (fun env (name, value) => set env name value) env

end Environment

/-- Why a toolchain command cannot be run. -/
inductive ToolchainFault where
  | unbalanced
  | empty
  deriving Repr, DecidableEq

def ToolchainFault.message : ToolchainFault → String
  | .unbalanced => "Invalid toolchain command: unbalanced quotes"
  | .empty => "Invalid toolchain command: empty command"

structure Settings where
  jobDir : String
  workDir : String
  toolchain : String := "esphome"
  capacity : Nat := 2000
  terminal : Bool := true
  environment : Environment := []
  /-- The names that lead from the root to where relative paths start. -/
  home : List String := []
  deriving Repr, DecidableEq

namespace Settings

def withToolchain (s : Settings) (command : String) : Settings :=
  { s with toolchain := String.ofList (Text.trim command.toList) }

def withCapacity (s : Settings) (capacity : Nat) : Settings :=
  { s with capacity := max capacity 1 }

def withVariable (s : Settings) (name value : String) : Settings :=
  { s with environment := s.environment.set name value }

def documentPath (s : Settings) (name : String) : String := Path.join s.workDir name

/-- The words of the toolchain command. -/
def toolchainWords (s : Settings) : Except ToolchainFault (List String) :=
  match Text.CommandLine.split? s.toolchain with
  | none => .error .unbalanced
  | some [] => .error .empty
  | some words => .ok words

end Settings

end FirmwareJobs

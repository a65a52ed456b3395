import FirmwareJobs.Settings.Address
import FirmwareJobs.Settings.Engine
import FirmwareJobs.Text.LowerCase
import FirmwareJobs.Text.Quoted

/-! # Settings of the server

Every setting comes from a variable. Blanks around its value do not count, and an unset or blank
variable stands for the default. The first invalid setting in the order address, port, capacity,
terminal is reported.
-/

namespace FirmwareJobs

/-- A variable whose value cannot be used. -/
structure SettingFault where
  name : String
  expected : String
  value : String
  deriving Repr, DecidableEq

def SettingFault.message (f : SettingFault) : String :=
  f.name ++ " must be " ++ f.expected ++ ", got " ++ Text.quoted f.value

structure ServerSettings where
  host : Address
  port : Nat
  jobDir : String
  workDir : String
  toolchain : String
  capacity : Nat
  terminal : Bool
  deriving Repr, DecidableEq

namespace ServerSettings

/-- The value of a variable, or the default. -/
def value (lookup : String → Option String) (name default : String) : String :=
  match (lookup name).map fun v => Text.trim v.toList with
  | none | some [] => default
  | some v => String.ofList v

/-- A switch in any letter case. -/
def switch? (s : String) : Option Bool :=
  let w := String.ofList (Text.lowerAscii s.toList)
  if w = "1" ∨ w = "true" ∨ w = "yes" ∨ w = "on" then some true
  else if w = "0" ∨ w = "false" ∨ w = "no" ∨ w = "off" then some false
  else none

def read {α : Type} (name expected : String) (parse : String → Option α) (v : String) :
    Except SettingFault α :=
  match parse v with
  | some a => .ok a
  | none => .error ⟨name, expected, v⟩

def ofLookup (lookup : String → Option String) : Except SettingFault ServerSettings := do
  let value := value lookup
  let host ← read "HOST" "an IP address" Address.ofText? (value "HOST" "0.0.0.0")
  let port ← read "PORT" "a valid port" (fun s => Text.unsignedBelow? 16 s.toList)
    (value "PORT" "8099")
  let capacity ← read "JOB_LOG_CAPACITY" "a positive number"
    (fun s => Text.unsignedBelow? 64 s.toList) (value "JOB_LOG_CAPACITY" "2000")
  if capacity = 0 then .error ⟨"JOB_LOG_CAPACITY", "a positive number", "0"⟩
  let terminal ← read "JOB_USE_PTY" "a boolean" switch? (value "JOB_USE_PTY" "true")
  .ok
    { host, port, capacity, terminal
      jobDir := value "JOB_DIR" "/data/jobs"
      workDir := value "TARGET_DIR" "/config/esphome"
      toolchain := value "ESPHOME_BIN" "esphome" }

def engine (s : ServerSettings) : Settings :=
  { (({ jobDir := s.jobDir, workDir := s.workDir : Settings }.withToolchain
      s.toolchain).withCapacity s.capacity) with terminal := s.terminal }

end ServerSettings

end FirmwareJobs

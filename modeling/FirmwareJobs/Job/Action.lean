import FirmwareJobs.Text.Blank
import FirmwareJobs.Text.LowerCase
import FirmwareJobs.Text.Quoted

/-! # Actions

The operations that a job performs with a configuration document: build the firmware, build it and
upload it to a device, or follow the log of a device.
-/

namespace FirmwareJobs

inductive Action where
  | compile
  | ota
  | logs
  deriving Repr, DecidableEq

namespace Action

def word : Action → String
  | .compile => "compile"
  | .ota => "ota"
  | .logs => "logs"

def title : Action → String
  | .compile => "Compile"
  | .ota => "Ota"
  | .logs => "Logs"

def needsDevice : Action → Bool
  | .compile => false
  | .ota | .logs => true

def ofWord? (w : String) : Option Action :=
  if w = "compile" then some .compile
  else if w = "ota" then some .ota
  else if w = "logs" then some .logs
  else none

/-- The action that a text names in any letter case, with blanks around it. -/
def parse? (text : String) : Option Action :=
  ofWord? (String.ofList (Text.lower (Text.trim text.toList)))

def unknownMessage (text : String) : String := "unknown action: " ++ Text.quoted text

@[simp] theorem ofWord?_word (a : Action) : ofWord? a.word = some a := by
  cases a <;> rfl

end Action

end FirmwareJobs

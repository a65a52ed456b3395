import FirmwareJobs.Capture.Escape
import FirmwareJobs.Job.Action
import FirmwareJobs.Text.LowerCase

/-! # Cleaning captured lines

Before a line is stored it loses the carriage returns around it and its escape sequences. While
the log of a device is followed, the chatter of its update service is dropped.
-/

namespace FirmwareJobs.Capture

open Text

def mentions (word : String) (line : List Char) : Bool := occurs word.toList line

/-- Handshakes of the update service, seen only while a device log is followed. -/
def isChatter (action : Action) (line : List Char) : Bool :=
  action == .logs &&
    let line := lower line
    mentions "esphome.ota" line && (mentions "handshake" line || mentions "read magic" line)

/-- The line to store, `none` if it is to be dropped. -/
def clean? (action : Action) (raw : String) : Option String :=
  let line := Escape.strip (stripWhile (· == '\r') raw.toList)
  if isChatter action line then none else some (String.ofList line)

end FirmwareJobs.Capture

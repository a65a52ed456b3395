import FirmwareJobs.Capture.Cleaning
import FirmwareJobs.Job.Live
import FirmwareJobs.Machine.Launch

/-! # A job at work

The toolchain of a job runs on a host and its lines go to a log file. A line is written to the
file before it is published. A log that cannot be opened or written changes nothing else.
-/

namespace FirmwareJobs.Toolchain

structure Workbench where
  job : Job
  host : Machine.Host

/-- What the runs of one job have in common. -/
structure Plan where
  settings : Settings
  inherited : Environment
  logPath : String

namespace Workbench

/-- Open the log for appending; `none` if that fails. -/
def openLog (b : Workbench) (plan : Plan) : Option Files.Place × Workbench :=
  match b.host.files.openAppend plan.settings.home plan.logPath with
  | .ok (place, files) => (some place, { b with host := { b.host with files } })
  | .error _ => (none, b)

def logged (files : Files.Tree) (log : Option Files.Place) (line : String) : Files.Tree :=
  match log with
  | none => files
  | some place => (files.append place (Text.Utf8.ofString line ++ [10])).toOption.getD files

/-- The time that it takes to write a line to the log. -/
def lineNanos : Nat := 50000

/-- Write a line to the log, without publishing it. -/
def store (b : Workbench) (log : Option Files.Place) (line : String) : Workbench :=
  { b with host := { b.host with
      files := logged b.host.files log line, now := b.host.now + lineNanos } }

/-- Write a line to the log and publish it. -/
def emit (b : Workbench) (log : Option Files.Place) (line : String) (origin : Origin) :
    Workbench :=
  { b.store log line with job := b.job.publish line origin }

/-- Emit a captured line, unless it is chatter. -/
def output (b : Workbench) (log : Option Files.Place) (raw : String) : Workbench :=
  match Capture.clean? b.job.action raw with
  | some line => b.emit log line .output
  | none => b

/-- Report a failure as if the toolchain had printed it. -/
def fail (b : Workbench) (log : Option Files.Place) (message : String) : Workbench :=
  let b := b.emit log message .output
  { b with job := b.job.setSummary message }

def report (b : Workbench) (plan : Plan) (message : String) : Workbench :=
  let (log, b) := b.openLog plan
  b.fail log message

end Workbench

end FirmwareJobs.Toolchain

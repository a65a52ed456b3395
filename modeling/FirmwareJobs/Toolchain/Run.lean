import FirmwareJobs.Capture.Lines
import FirmwareJobs.Toolchain.Supervision
import FirmwareJobs.Toolchain.Workbench

/-! # One run of the toolchain

A run starts with a line that shows the command. Then its process is supervised until it ends, or
until it is stopped because the job is to be canceled.
-/

namespace FirmwareJobs.Toolchain

/-- Whether the process is watched, was asked to end, or was killed. -/
inductive Stage where
  | watching
  | asked (killAt : Nat)
  | killed
  deriving Repr, DecidableEq

structure Run where
  child : Machine.Child
  log : Option Files.Place
  /-- The streams that are still open. -/
  readers : List (Nat × Capture.Splitter)
  supervision : Supervision := {}
  pollAt : Nat
  stage : Stage := .watching

/-- A run that goes on, or the exit code. -/
inductive Progress (α : Type) where
  | going (a : α)
  | over (code : Int32)

/-- Take up what the process has told. -/
def Workbench.hear (b : Workbench) (log : Option Files.Place) : Notice → Workbench
  | .line raw => b.output log raw
  | .closed | .exited _ | .tick => b

namespace Run

def failureCode : Int32 := 1

def defaults : Environment := [("PYTHONUNBUFFERED", "1"), ("PYTHONIOENCODING", "utf-8")]

/-- The environment of a toolchain process: that of the server, then defaults for what it lacks,
then the variables of the settings. -/
def environment (inherited extra : Environment) : Environment :=
  (inherited.setAll (defaults.filter fun (name, _) => (inherited.get? name).isNone)).setAll extra

def commandLine (command : List String) : String := "INFO CMD: " ++ " ".intercalate command

def start (plan : Plan) (command : List String) (b : Workbench) : Workbench × Progress Run :=
  let (log, b) := b.openLog plan
  let b := b.emit log (commandLine command) .engine
  if b.job.cancelRequested then (b, .over canceledCode)
  else if command.isEmpty then (b.fail log ToolchainFault.empty.message, .over failureCode)
  else
    let environment := environment plan.inherited plan.settings.environment
    match b.host.launch command environment plan.settings with
    | .error fault => (b.fail log ("Failed to start: " ++ fault.message), .over failureCode)
    | .ok (child, host) =>
      ({ job := b.job.setPid (some child.process), host },
        .going
          { child, log, readers := child.streams.map fun s => (s, {})
            pollAt := host.now + pollNanos })

/-- Read from a stream: the lines that are complete, and the reader unless the stream has ended. -/
def readStream (host : Machine.Host) (pipe : Nat) (splitter : Capture.Splitter) :
    List String × Option Capture.Splitter × Machine.Host :=
  let (bytes, host) := host.take pipe
  let (lines, splitter) := splitter.feed bytes
  if host.isDry pipe then (lines ++ splitter.finish.1.toList, none, host.removePipe pipe)
  else (lines, some splitter, host)

def readStreams (host : Machine.Host) :
    List (Nat × Capture.Splitter) →
      List String × List (Nat × Capture.Splitter) × Machine.Host
  | [] => ([], [], host)
  | (pipe, splitter) :: rest =>
    let (lines, reader, host) := readStream host pipe splitter
    let (more, readers, host) := readStreams host rest
    (lines ++ more, (reader.map fun s => (pipe, s)).toList ++ readers, host)

/-- What there is to notice. -/
def notices (run : Run) (host : Machine.Host) :
    List Notice × List (Nat × Capture.Splitter) × Machine.Host :=
  let (lines, readers, host) := readStreams host run.readers
  let closed := if readers.isEmpty ∧ !run.readers.isEmpty then [Notice.closed] else []
  let exited := if run.supervision.exit.isSome then []
    else ((host.exit? run.child.process).map fun e => Notice.exited e.result).toList
  let ticks := if run.pollAt ≤ host.now then [Notice.tick] else []
  (lines.map .line ++ closed ++ exited ++ ticks, readers, host)

def close (run : Run) (b : Workbench) (code : Int32) : Workbench × Progress Run :=
  ({ job := b.job.setPid none, host := b.host.remove run.child.process }, .over code)

/-- Ask the process to end. -/
def terminate (run : Run) (b : Workbench) : Workbench × Progress Run :=
  let (_, host) := b.host.signal run.child.process Machine.Signal.terminate
  ({ b with host }, .going { run with stage := .asked (host.now + graceNanos) })

/-- Whether there is something to read or to notice. -/
def isCalled (run : Run) (host : Machine.Host) : Bool :=
  run.pollAt ≤ host.now
    || run.readers.any (fun (pipe, _) =>
      ((host.pipe? pipe).any fun p => !p.content.isEmpty) || host.isDry pipe)
    || (run.supervision.exit.isNone && (host.exit? run.child.process).isSome)

/-- Take up notices until there is a verdict. What is not taken up then is lost. -/
def attend (log : Option Files.Place) :
    Supervision → Workbench → List Notice → Workbench × Supervision × Option Verdict
  | s, b, [] => (b, s, none)
  | s, b, notice :: rest =>
    let s := s.note b.host.now notice
    let b := b.hear log notice
    match s.verdict? b.host.now b.job.cancelRequested with
    | some v => (b, s, some v)
    | none => attend log s b rest

/-- Look at a watched process. -/
def watch (run : Run) (b : Workbench) : Workbench × Progress Run :=
  let (notices, readers, host) := run.notices b.host
  let (b, supervision, verdict) := attend run.log run.supervision { b with host } notices
  let run := { run with
    readers, supervision
    pollAt := if notices.isEmpty then run.pollAt else b.host.now + pollNanos }
  match verdict with
  | none => (b, .going run)
  | some .terminate => run.terminate b
  | some (.finished code) => run.close b code

/-- Go on if there is something to do. -/
def advance? (run : Run) (b : Workbench) : Option (Workbench × Progress Run) :=
  let hasEnded := (b.host.exit? run.child.process).isSome
  match run.stage with
  | .watching => if run.isCalled b.host then some (run.watch b) else none
  | .asked killAt =>
    if hasEnded then some (run.close b canceledCode)
    else if killAt ≤ b.host.now then
      let (_, host) := b.host.signal run.child.process Machine.Signal.kill
      some ({ b with host }, .going { run with stage := .killed })
    else none
  | .killed => if hasEnded then some (run.close b canceledCode) else none

/-- When the run wants to be looked at though nothing happens. -/
def nextLook? (run : Run) : Option Nat :=
  match run.stage with
  | .watching => some run.pollAt
  | .asked killAt => some killAt
  | .killed => none

end Run

end FirmwareJobs.Toolchain

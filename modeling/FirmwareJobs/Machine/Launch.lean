import FirmwareJobs.Machine.Schedule
import FirmwareJobs.Settings.Engine

/-! # Starting a process with captured output

The output goes through two pipes, or through one terminal that carries both streams.
-/

namespace FirmwareJobs.Machine

open Text

/-- A started process with the pipes of its output. -/
structure Child where
  process : Nat
  streams : List Nat
  deriving Repr, DecidableEq

namespace Host

def hasNul (s : String) : Bool := s.toList.contains '\x00'

/-- Connect the output of a new process. It has no input. -/
def outputs (h : Host) (terminal : Bool) : Channels × List Nat × Host :=
  let (a, h) := h.newPipe [] true
  if terminal then ([(0, .null), (1, .sink a true), (2, .sink a true)], [a], h)
  else
    let (b, h) := h.newPipe [] true
    ([(0, .null), (1, .sink a false), (2, .sink b false)], [a, b], h)

/-- Start a program in the work directory. -/
def launch (h : Host) (command : List String) (environment : Environment) (settings : Settings) :
    Except Files.Fault (Child × Host) := do
  let hasBadVariable := environment.any fun (n, v) => hasNul n || hasNul v
  if command.any hasNul ∨ hasNul settings.workDir ∨ hasBadVariable then
    .error .nulInCommand
  let here ← h.files.locate settings.home settings.workDir
  match ← h.files.demand here with
  | .directory => .ok ()
  | _ => .error .notDirectory
  let arguments := command.map ByteText.ofString
  let environment := environment.map fun (n, v) => (ByteText.ofString n, ByteText.ofString v)
  let path := (environment.lookup "PATH".toList).getD Program.standardPath
  let program ← Program.find h.files here path (arguments.headD [])
  let (channels, streams, h) := h.outputs settings.terminal
  let activity := Program.start h here h.nextProcess program environment arguments []
  let (process, h) := h.spawn supervisor channels here activity []
  .ok (⟨process, streams⟩, h)

/-- The exit of a process that has ended. -/
def exit? (h : Host) (process : Nat) : Option Exit := (h.process? process).bind (·.exit?)

/-- The most bytes that one read takes. -/
def chunkSize : Nat := 4096

/-- Whether a captured pipe is empty for good. -/
def isDry (h : Host) (pipe : Nat) : Bool :=
  ((h.pipe? pipe).all fun p => p.content.isEmpty) && !h.hasWriters pipe

/-- Take a chunk of what was written to a captured pipe. -/
def take (h : Host) (pipe : Nat) : List UInt8 × Host :=
  match h.pipe? pipe with
  | none => ([], h)
  | some p => (p.content.take chunkSize, h.setPipe { p with content := p.content.drop chunkSize })

end Host

end FirmwareJobs.Machine

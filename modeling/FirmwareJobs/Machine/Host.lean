import FirmwareJobs.Shell.State

/-! # Processes

A host has files, processes, pipes and a clock. A process works on one activity at a time. A
process that has ended stays until its parent has asked for its exit.
-/

namespace FirmwareJobs.Machine

open Text

/-- Something that a copying process reads. -/
inductive Source where
  | input
  | path (name : ByteText)

inductive Activity where
  | shell (s : Shell.State)
  | sleeping (wake : Nat)
  | copying (sources : List Source) (code : Nat)
  | printing (output complaint : ByteText) (code : Nat)
  | ended (e : Exit)

structure Process where
  id : Nat
  parent : Nat
  channels : Channels
  here : Files.Place
  activity : Activity
  pending : List Signal := []
  ignored : List Signal := []
  stopped : Bool := false

namespace Process

def exit? (p : Process) : Option Exit :=
  match p.activity with
  | .ended e => some e
  | _ => none

def isAlive (p : Process) : Bool := p.exit?.isNone

end Process

structure Host where
  files : Files.Tree := {}
  processes : List Process := []
  pipes : List Pipe := []
  now : Nat := 0
  nextProcess : Nat := 1000
  nextPipe : Nat := 1

/-- The parent of processes that no other process started. -/
def supervisor : Nat := 1

namespace Host

def process? (h : Host) (id : Nat) : Option Process := h.processes.find? (·.id == id)

def setProcess (h : Host) (p : Process) : Host :=
  { h with processes := h.processes.map fun q => if q.id = p.id then p else q }

def pipe? (h : Host) (id : Nat) : Option Pipe := h.pipes.find? (·.id == id)

def setPipe (h : Host) (p : Pipe) : Host :=
  { h with pipes := h.pipes.map fun q => if q.id = p.id then p else q }

/-- Whether a process holds a channel of this kind. -/
def holds (h : Host) (f : Channel → Bool) : Bool :=
  h.processes.any fun p => p.isAlive && p.channels.any fun (_, c) => f c

def hasWriters (h : Host) (pipe : Nat) : Bool :=
  h.holds fun
    | .sink id _ => id == pipe
    | _ => false

def hasReaders (h : Host) (pipe : Nat) : Bool :=
  ((h.pipe? pipe).any (·.captured)) ||
    h.holds fun
      | .source id => id == pipe
      | _ => false

def newPipe (h : Host) (content : List UInt8) (captured : Bool) : Nat × Host :=
  (h.nextPipe,
    { h with pipes := h.pipes ++ [⟨h.nextPipe, content, captured⟩], nextPipe := h.nextPipe + 1 })

def removePipe (h : Host) (pipe : Nat) : Host :=
  { h with pipes := h.pipes.filter (·.id != pipe) }

/-- Start a process. -/
def spawn (h : Host) (parent : Nat) (channels : Channels) (here : Files.Place)
    (activity : Activity) (ignored : List Signal) : Nat × Host :=
  let p : Process := { id := h.nextProcess, parent, channels, here, activity, ignored }
  (p.id, { h with processes := h.processes ++ [p], nextProcess := h.nextProcess + 1 })

def remove (h : Host) (id : Nat) : Host :=
  { h with processes := h.processes.filter (·.id != id) }

/-- End a process. Its ended children are forgotten, and so is itself without a parent. -/
def finish (h : Host) (id : Nat) (e : Exit) : Host :=
  match h.process? id with
  | none => h
  | some p =>
    let parentAlive := p.parent = supervisor || (h.process? p.parent).any (·.isAlive)
    let h := { h with processes := h.processes.filter fun q => q.parent != id || q.isAlive }
    if parentAlive then h.setProcess { p with activity := .ended e, channels := [] }
    else h.remove id

/-- Send a signal; `false` if there is no such process. -/
def signal (h : Host) (id : Nat) (s : Signal) : Bool × Host :=
  match h.process? id with
  | none => (false, h)
  | some p =>
    if p.isAlive ∧ s ≠ 0 then (true, h.setProcess { p with pending := p.pending ++ [s] })
    else (true, h)

inductive WriteFault where
  | closed
  | refused (fault : Files.Fault)
  | notOpen

def carriageReturns (bytes : List UInt8) : List UInt8 :=
  bytes.flatMap fun b => if b = 10 then [13, 10] else [b]

def writeTo (h : Host) (c : Channel) (bytes : List UInt8) : Except WriteFault Host :=
  match c with
  | .null => .ok h
  | .full => if bytes.isEmpty then .ok h else .error (.refused .noSpace)
  | .source _ => .error .notOpen
  | .sink pipe terminal =>
    if !h.hasReaders pipe then .error .closed
    else
      match h.pipe? pipe with
      | some p =>
        let bytes := if terminal then carriageReturns bytes else bytes
        .ok (h.setPipe { p with content := p.content ++ bytes })
      | none => .error .closed
  | .file place =>
    match h.files.append place bytes with
    | .ok files => .ok { h with files }
    | .error fault => .error (.refused fault)

def write (h : Host) (cs : Channels) (descriptor : Nat) (bytes : List UInt8) :
    Except WriteFault Host :=
  match cs.get? descriptor with
  | none => .error .notOpen
  | some c => h.writeTo c bytes

/-- What a process finds when it reads: bytes, the end, or nothing yet. -/
inductive Reading where
  | bytes (content : List UInt8)
  | atEnd
  | nothing

def peek (h : Host) (c : Option Channel) : Reading :=
  match c with
  | some (.source pipe) =>
    match h.pipe? pipe with
    | some p =>
      if !p.content.isEmpty then .bytes p.content
      else if h.hasWriters pipe then .nothing
      else .atEnd
    | none => .atEnd
  | _ => .atEnd

/-- Whether more bytes may come on a channel. -/
def mayGrow (h : Host) (c : Option Channel) : Bool :=
  match c with
  | some (.source pipe) => h.hasWriters pipe
  | _ => false

/-- Take bytes that were read out of a channel. -/
def consume (h : Host) (c : Option Channel) (count : Nat) : Host :=
  match c with
  | some (.source pipe) =>
    match h.pipe? pipe with
    | some p => h.setPipe { p with content := p.content.drop count }
    | none => h
  | _ => h

/-- The channel of a file that is opened for writing. -/
def channelOf (files : Files.Tree) (place : Files.Place) : Channel :=
  match files.entry? place with
  | some .sink => .null
  | some .full => .full
  | _ => .file place

end Host

end FirmwareJobs.Machine

import FirmwareJobs.Machine.Program
import FirmwareJobs.Shell.Condition
import FirmwareJobs.Shell.Expansion

/-! # A shell among its processes

What a shell can do to its own state, to its channels and to the processes around it.
-/

namespace FirmwareJobs.Shell

open Text Machine

structure Running where
  host : Host
  process : Machine.Process
  state : State

namespace Running

/-- The host with this shell put back. -/
def keep (r : Running) : Host :=
  r.host.setProcess { r.process with activity := .shell r.state }

def update (r : Running) (f : State → State) : Running := { r with state := f r.state }

def setStatus (r : Running) (status : Nat) : Running := r.update (·.setStatus status)

def push (r : Running) (f : Frame) : Running := r.update (·.push f)

def withParameters (r : Running) (f : Parameters → Parameters) : Running :=
  r.update fun s => { s with parameters := f s.parameters }

/-- Write to a descriptor. A closed pipe sends its signal to the writer. -/
def write (r : Running) (descriptor : Nat) (s : ByteText) : Bool × Running :=
  match r.host.write r.process.channels descriptor (ByteText.toBytes s) with
  | .ok host => (true, { r with host })
  | .error .closed =>
    (false, { r with process := { r.process with pending := r.process.pending ++ [Signal.pipe] } })
  | .error _ => (false, r)

/-- Write the message of a builtin about a line of the script. -/
def complain (r : Running) (line : Nat) (s : ByteText) : Running :=
  (r.write 2 (r.state.parameters.name ++ ": ".toList ++ Parameters.decimal line ++ ": ".toList ++
    s ++ ['\n'])).2

/-- Where messages that are not of a builtin come from. -/
def origin (r : Running) (line : Nat) : ByteText :=
  r.state.parameters.name ++ ": ".toList ++ Parameters.decimal line ++ ": ".toList ++
    if r.state.title.isEmpty then [] else r.state.title ++ ": ".toList

/-- Write a message of the shell itself. -/
def report (r : Running) (line : Nat) (s : ByteText) : Running :=
  (r.write 2 (r.origin line ++ s ++ ['\n'])).2

/-- Leave the shell, after the action for its exit. -/
def exit (r : Running) (status : Nat) : Running :=
  match r.state.traps.lookup 0 with
  | some (c :: cs) =>
    r.update fun s =>
      { s.setStatus status with
        traps := s.traps.filter (·.1 != 0)
        stack := [.script (c :: cs) s.line, .leave status] }
  | _ => r.update fun s => { s with stack := [.leave status] }

/-- Report a fault of a builtin that ends the shell. -/
def fail (r : Running) (line : Nat) (s : ByteText) : Running := (r.complain line s).exit 2

/-- Report a fault of the script that ends the shell. -/
def abort (r : Running) (line : Nat) (s : ByteText) : Running := (r.report line s).exit 2

/-- The status of a finished command. A shell that stops at errors leaves if it is not tested. -/
def settle (r : Running) (status : Nat) : Running :=
  let r := r.setStatus status
  if status ≠ 0 ∧ r.state.parameters.hasOption 'e' ∧ !r.state.isTested then r.exit status else r

/-- Undo what a frame did, when it is dropped. -/
def dropFrame (r : Running) (f : Frame) : Running :=
  match f with
  | .titled before => r.update fun s => { s with title := before }
  | .restore channels => { r with process := { r.process with channels } }
  | .called arguments locals =>
    r.withParameters fun p =>
      locals.foldl (fun p (name, old) =>
        match old with
        | some value => { p with bindings := Parameters.put name value p.bindings }
        | none => p.unset name) { p with arguments }
  | _ => r

/-- Drop the frames up to the first one of a kind, which stays. -/
def unwindFrom (r : Running) (isEnd : Frame → Bool) : List Frame → Running
  | [] => { r with state := { r.state with stack := [] } }
  | f :: rest =>
    if isEnd f then { r with state := { r.state with stack := f :: rest } }
    else (r.dropFrame f).unwindFrom isEnd rest

def unwind (r : Running) (isEnd : Frame → Bool) : Running := r.unwindFrom isEnd r.state.stack

def isLoop : Frame → Bool
  | .tested .. | .again .. | .each .. => true
  | _ => false

def isScope : Frame → Bool
  | .called .. | .sourced => true
  | _ => false

/-- The loops around the current command, up to the function that it stands in. -/
def loopDepth (r : Running) : Nat :=
  ((r.state.stack.takeWhile fun
    | .called .. => false
    | _ => true).filter isLoop).length

/-- Drop the innermost frame. -/
def pop (r : Running) : Running :=
  match r.state.stack with
  | f :: rest => ({ r with state := { r.state with stack := rest } }).dropFrame f
  | [] => r

/-- Go to the loop `n` loops further out. -/
def toLoop (r : Running) : Nat → Running
  | 0 => r.unwind isLoop
  | n + 1 => ((r.unwind isLoop).pop).toLoop n

def breakLoops (r : Running) (n : Nat) : Running :=
  let n := min n r.loopDepth
  if n = 0 then r else (r.toLoop (n - 1)).pop

def continueLoop (r : Running) (n : Nat) : Running :=
  let n := min n r.loopDepth
  if n = 0 then r else r.toLoop (n - 1)

/-- Return from a function or a sourced file; without one the script ends. -/
def returnFrom (r : Running) (status : Nat) : Running :=
  let r := r.setStatus status
  if r.state.stack.any isScope then (r.unwind isScope).pop else r.exit status

/-! ## Redirections -/

/-- The descriptor that a path under `/dev` names. -/
def devicePath? (path : ByteText) : Option Nat :=
  match String.ofList path with
  | "/dev/stdin" => some 0
  | "/dev/stdout" => some 1
  | "/dev/stderr" => some 2
  | _ => none

def faultText (missing : String) (fault : Files.Fault) : String :=
  match fault with
  | .missing | .notDirectory => missing
  | .denied => "Permission denied"
  | .isDirectory => "Is a directory"
  | .nameTooLong => "File name too long"
  | _ => "I/O error"

def connect (r : Running) (descriptor : Nat) (c : Channel) : Running :=
  { r with process := { r.process with channels := r.process.channels.put descriptor c } }

/-- Make one redirection whose target is known. -/
def redirect (r : Running) (descriptor : Nat) (kind : RedirectKind) (target : ByteText) :
    Except ByteText Running :=
  let path := ByteText.toString target
  let files := r.host.files
  let opened (result : Except Files.Fault (Files.Place × Files.Tree)) : Except ByteText Running :=
    match result with
    | .ok (place, files) =>
      .ok (({ r with host := { r.host with files } }).connect descriptor
        (Host.channelOf files place))
    | .error fault =>
      .error ("cannot create ".toList ++ target ++ ": ".toList ++
        (faultText "Directory nonexistent" fault).toList)
  let duplicated (n : Nat) : Except ByteText Running :=
    match r.process.channels.get? n with
    | some c => .ok (r.connect descriptor c)
    | none => .error (Parameters.decimal n ++ ": Bad file descriptor".toList)
  match kind, devicePath? target with
  | .output, some n | .append, some n | .input, some n => duplicated n
  | .output, none => opened (files.create r.process.here path)
  | .append, none => opened (files.openAppend r.process.here path)
  | .input, none =>
    match files.read r.process.here path with
    | .ok content =>
      let (pipe, host) := r.host.newPipe content false
      .ok (({ r with host }).connect descriptor (.source pipe))
    | .error .isDirectory => .ok (r.connect descriptor .null)
    | .error fault =>
      .error ("cannot open ".toList ++ target ++ ": ".toList ++
        (faultText "No such file" fault).toList)
  | .here, _ =>
    let (pipe, host) := r.host.newPipe (ByteText.toBytes target) false
    .ok (({ r with host }).connect descriptor (.source pipe))
  | .duplicate, _ =>
    if target = ['-'] then
      .ok { r with process := { r.process with channels := r.process.channels.drop descriptor } }
    else
      match natural? target with
      | some n => duplicated n
      | none => .error ("Syntax error: Bad fd number".toList)

/-- Make redirections in their order. -/
def redirectAll (r : Running) : List (Redirect × ByteText) → Except ByteText Running
  | [] => .ok r
  | (d, target) :: rest => do (← r.redirect d.descriptor d.kind target).redirectAll rest

/-- Remember the channels if they changed. -/
def restoring (r : Running) (channels : Channels) : Running :=
  if r.process.channels = channels then r else r.push (.restore channels)

/-! ## Child processes -/

/-- Start a child that goes on with some frames. -/
def fork (r : Running) (channels : Channels) (stack : List Frame) (ignored : List Signal) :
    Nat × Running :=
  let child := r.state.child stack
  let child := { child with
    traps := child.traps.filter (!ignored.contains ·.1) ++ ignored.map fun s => (s, []) }
  let (id, host) := r.host.spawn r.process.id channels r.process.here (.shell child)
    (r.state.ignored ++ ignored)
  (id, { r with host })

def searchPath (r : Running) : ByteText :=
  (r.state.parameters.bindings.lookup "PATH".toList).getD Program.standardPath

/-- Why a program cannot be started, and the status for that. -/
def startFault (fault : Files.Fault) : String × Nat :=
  match fault with
  | .missing | .notDirectory => ("not found", 127)
  | .nameTooLong => ("File name too long", 127)
  | .denied => ("Permission denied", 126)
  | _ => ("I/O error", 126)

/-- Start a program as a child. -/
def launch (r : Running) (line : Nat) (channels : Channels)
    (environment : List (ByteText × ByteText)) (arguments : List ByteText) : Nat × Running :=
  let name := arguments.headD []
  let activity : Activity :=
    match Program.find r.host.files r.process.here r.searchPath name with
    | .ok program =>
      Program.start r.host r.process.here r.host.nextProcess program environment arguments
        r.state.ignored
    | .error fault =>
      let (text, code) := startFault fault
      .printing [] (r.origin line ++ name ++ ": ".toList ++ text.toList ++ ['\n']) code
  let (id, host) := r.host.spawn r.process.id channels r.process.here activity r.state.ignored
  (id, { r with host })

/-- Run a command substitution for a command that waits for its output. -/
def substitute (r : Running) (c : Command) (outputs : List ByteText) (source : ByteText) :
    Running :=
  let (pipe, host) := r.host.newPipe [] true
  let r := { r with host }
  let (id, r) := r.fork (r.process.channels.put 1 (.sink pipe false))
    [.script source r.state.line] []
  r.push (.collect c outputs id pipe [])

end Running

end FirmwareJobs.Shell

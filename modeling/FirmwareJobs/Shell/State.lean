import FirmwareJobs.Machine.Channel
import FirmwareJobs.Shell.Command
import FirmwareJobs.Shell.Parameters

/-! # The state of a running shell

What is still to be done is a stack of frames; the first one is next.
-/

namespace FirmwareJobs.Shell

open Text

inductive Frame where
  /-- Lines that were not read yet. -/
  | script (text : ByteText) (line : Nat)
  /-- A script that is read from the input of the shell. -/
  | input
  /-- A command with the outputs of the substitutions that already ran for it. -/
  | run (c : Command) (outputs : List ByteText)
  /-- A substitution is running; its output so far. -/
  | collect (c : Command) (outputs : List ByteText) (process pipe : Nat) (output : List UInt8)
  | sourced
  | titled (before : ByteText)
  | called (arguments : List ByteText) (locals : List (ByteText × Option ByteText))
  | negate
  | ifSo (c : Command)
  | ifNot (c : Command)
  | branch (thenDo elseDo : Command)
  | tested (isUntil : Bool) (condition body : Command) (last : Nat)
  | again (isUntil : Bool) (condition body : Command)
  | each (name : ByteText) (words : List ByteText) (body : Command)
  | restore (channels : Machine.Channels)
  | await (process : Nat)
  | wait (processes : List Nat)
  | reading (names : List ByteText) (raw : Bool) (separators : List Char)
  | arrive (status : Nat)
  | leave (status : Nat)

structure State where
  parameters : Parameters
  functions : List (ByteText × Command) := []
  /-- What signals run; an empty text means that the signal is ignored. -/
  traps : List (Machine.Signal × ByteText) := []
  stack : List Frame
  line : Nat := 1
  /-- What messages name after the line: the sourced file or `eval`. -/
  title : ByteText := []
  /-- The status of the last command substitution of the current command. -/
  substituted : Option Nat := none
  /-- A failing command does not end this shell though it is told to stop at errors. -/
  lenient : Bool := false

namespace State

def push (s : State) (f : Frame) : State := { s with stack := f :: s.stack }

def run (s : State) (c : Command) : State := s.push (.run c [])

def setStatus (s : State) (status : Nat) : State :=
  { s with parameters := { s.parameters with status } }

def status (s : State) : Nat := s.parameters.status

/-- The signals that a program started from here ignores. -/
def ignored (s : State) : List Machine.Signal :=
  s.traps.filterMap fun (n, action) => if action.isEmpty then some n else none

/-- A copy for a child process. Its traps are those of ignored signals. -/
def child (s : State) (stack : List Frame) : State :=
  let tested := s.stack.any fun
    | .negate | .ifSo _ | .ifNot _ | .branch .. | .tested .. => true
    | _ => false
  { s with
    stack, traps := s.traps.filter (·.2.isEmpty), lenient := s.lenient || tested
    substituted := none }

/-- Whether the status of the current command is tested by somebody. -/
def isTested (s : State) : Bool := (s.child []).lenient

/-- Whether the shell stands in a command that must end before a trap runs. -/
def isBusy (s : State) : Bool :=
  match s.stack with
  | .await _ :: _ | .collect .. :: _ => true
  | _ => false

end State

end FirmwareJobs.Shell

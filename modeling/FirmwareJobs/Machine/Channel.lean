import FirmwareJobs.Files.Tree

/-! # Channels of processes

A descriptor of a process is connected to a channel. Pipes keep what was written until it is read.
A terminal is a pipe that gets a carriage return before each line break.
-/

namespace FirmwareJobs.Machine

abbrev Signal := Nat

namespace Signal

def pipe : Signal := 13
def kill : Signal := 9
def terminate : Signal := 15

def named : List (String × Signal) :=
  [("HUP", 1), ("INT", 2), ("QUIT", 3), ("ILL", 4), ("TRAP", 5), ("ABRT", 6), ("BUS", 7),
    ("FPE", 8), ("KILL", 9), ("USR1", 10), ("SEGV", 11), ("USR2", 12), ("PIPE", 13),
    ("ALRM", 14), ("TERM", 15), ("STKFLT", 16), ("CHLD", 17), ("CONT", 18), ("STOP", 19),
    ("TSTP", 20), ("TTIN", 21), ("TTOU", 22), ("URG", 23), ("XCPU", 24), ("XFSZ", 25),
    ("VTALRM", 26), ("PROF", 27), ("WINCH", 28), ("IO", 29), ("PWR", 30), ("SYS", 31)]

/-- Signals that do nothing unless they are handled. -/
def isHarmless (s : Signal) : Bool := [17, 18, 23, 28].contains s

def stops (s : Signal) : Bool := [19, 20, 21, 22].contains s

/-- How a shell reports a child that a signal ended. -/
def report? (s : Signal) : Option String :=
  match s with
  | 2 | 13 => none
  | 1 => some "Hangup"
  | 3 => some "Quit"
  | 4 => some "Illegal instruction"
  | 6 => some "Aborted"
  | 8 => some "Floating point exception"
  | 9 => some "Killed"
  | 10 => some "User defined signal 1"
  | 11 => some "Segmentation fault"
  | 12 => some "User defined signal 2"
  | 14 => some "Alarm clock"
  | 15 => some "Terminated"
  | _ => some "Signal"

end Signal

/-- How a process ended. -/
inductive Exit where
  | code (n : Nat)
  | signal (s : Signal)
  deriving Repr, DecidableEq

namespace Exit

/-- The exit code of a process; a signal counts as its negative number. -/
def result : Exit → Int32
  | .code n => Int32.ofNat n
  | .signal s => -Int32.ofNat s

/-- What a shell sees as the status. -/
def status : Exit → Nat
  | .code n => n
  | .signal s => 128 + s

end Exit

inductive Channel where
  | null
  | full
  | source (pipe : Nat)
  | sink (pipe : Nat) (terminal : Bool)
  | file (place : Files.Place)
  deriving Repr, DecidableEq

abbrev Channels := List (Nat × Channel)

namespace Channels

def get? (cs : Channels) (descriptor : Nat) : Option Channel := cs.lookup descriptor

def drop (cs : Channels) (descriptor : Nat) : Channels := cs.filter (·.1 != descriptor)

def put (cs : Channels) (descriptor : Nat) (c : Channel) : Channels :=
  (descriptor, c) :: drop cs descriptor

end Channels

/-- The bytes in a pipe, and whether somebody outside the processes reads them. -/
structure Pipe where
  id : Nat
  content : List UInt8 := []
  captured : Bool := false
  deriving Repr, DecidableEq

end FirmwareJobs.Machine

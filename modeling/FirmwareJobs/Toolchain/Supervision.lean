/-! # Supervision of a process

While a process runs its supervisor is told about lines of output, the end of the output, the exit
of the process and the passing of time. It goes on until output and process have ended, or for a
while after the process has ended. After each notice it looks whether it is done, or whether the
job is to be canceled.
-/

namespace FirmwareJobs.Toolchain

inductive Notice where
  | line (raw : String)
  | closed
  | exited (code : Int32)
  | tick
  deriving Repr, DecidableEq

inductive Verdict where
  | terminate
  | finished (code : Int32)
  deriving Repr, DecidableEq

structure Supervision where
  exit : Option Int32 := none
  isOpen : Bool := true
  deadline : Option Nat := none
  deriving Repr, DecidableEq

/-- The exit code of a process that was stopped on request. -/
def canceledCode : Int32 := 1

/-- Output that comes later than this after the exit is not waited for. -/
def drainNanos : Nat := 500000000

/-- How long the supervisor waits before it looks again for a request to cancel. -/
def pollNanos : Nat := 200000000

/-- The time that a process has to end by itself when it is asked to. -/
def graceNanos : Nat := 5000000000

namespace Supervision

def verdict? (s : Supervision) (now : Nat) (canceled : Bool) : Option Verdict :=
  if canceled then some .terminate
  else
    match s.exit with
    | some code =>
      if !s.isOpen || s.deadline.any (· ≤ now) then some (.finished code) else none
    | none => none

def note (s : Supervision) (now : Nat) : Notice → Supervision
  | .line _ | .tick => s
  | .closed => { s with isOpen := false }
  | .exited code =>
    if s.exit.isSome then s else { s with exit := some code, deadline := some (now + drainNanos) }

end Supervision

end FirmwareJobs.Toolchain

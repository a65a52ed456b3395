import FirmwareJobs.Text.Real

/-! # Limits of a poll

A client may leave out or exaggerate what it asks for; each value is moved into its range.
-/

namespace FirmwareJobs.Observe

/-- A count of lines from 1 to `most`. -/
def lineLimit (default most : Nat) : Option Int → Nat
  | none => default
  | some n => (max 1 (min n most)).toNat

def tailDefault : Nat := 2000

def tailLimit : Option Int → Nat := lineLimit tailDefault 5000

def waitLimit : Option Int → Nat := lineLimit 200 1000

/-- A negative offset reads from the start. -/
def startOffset (since : Option Int) : Nat := (since.getD 0).toNat

def nanosPerSecond : Nat := 1000000000

/-- How long a poll waits, in nanoseconds: from 1 to 20 seconds, 10 if the number is missing or
not finite. -/
def waitNanos (seconds : Option Text.Real) : Nat :=
  match seconds.bind Text.Real.toBinary? with
  | none => 10 * nanosPerSecond
  | some (negative, b) =>
    if negative then nanosPerSecond
    else max nanosPerSecond (min (b.scaled nanosPerSecond) (20 * nanosPerSecond))

end FirmwareJobs.Observe

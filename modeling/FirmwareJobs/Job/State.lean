/-! # Lifecycle states -/

namespace FirmwareJobs

inductive State where
  | queued
  | running
  | success
  | failed
  | canceled
  deriving Repr, DecidableEq

namespace State

def word : State → String
  | .queued => "queued"
  | .running => "running"
  | .success => "success"
  | .failed => "failed"
  | .canceled => "canceled"

def title : State → String
  | .queued => "Queued"
  | .running => "Running"
  | .success => "Success"
  | .failed => "Failed"
  | .canceled => "Canceled"

def ofWord? (w : String) : Option State :=
  if w = "queued" then some .queued
  else if w = "running" then some .running
  else if w = "success" then some .success
  else if w = "failed" then some .failed
  else if w = "canceled" then some .canceled
  else none

/-- A job in a terminal state never changes again. -/
def isTerminal : State → Bool
  | .queued | .running => false
  | .success | .failed | .canceled => true

@[simp] theorem ofWord?_word (s : State) : ofWord? s.word = some s := by
  cases s <;> rfl

end State

end FirmwareJobs

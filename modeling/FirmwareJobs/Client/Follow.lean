import FirmwareJobs.Client.Operation

/-! # Following a job

A follower asks for the lines after the last one it has seen until it meets a record in a terminal
state. A failed call is tried again, up to three times in a row.
-/

namespace FirmwareJobs.Client

open Api

/-- The offset of the next call and the failures since the last success. -/
structure Follow where
  since : Nat := 0
  failures : Nat := 0
  deriving Repr, DecidableEq

/-- What a reply does to a follower: lines to print and how to go on. -/
inductive FollowStep where
  | onward (lines : List String) (next : Follow)
  | retry (message : String) (next : Follow)
  | ended (lines : List String) (output : String)
  deriving Repr, DecidableEq

namespace Follow

def mostRetries : Nat := 3

def call (id : String) (f : Follow) : Call := followCall id f.since

def step (f : Follow) : Except Fault Page → FollowStep
  | .ok page =>
    if page.job.state.isTerminal then .ended page.lines (describe page.job)
    else .onward page.lines ⟨page.next, 0⟩
  | .error fault =>
    if f.failures < mostRetries then .retry fault.message ⟨f.since, f.failures + 1⟩
    else .ended [] fault.message

end Follow

end FirmwareJobs.Client

import FirmwareJobs.Job.Live
import FirmwareJobs.Log.File
import FirmwareJobs.Observe.Limits

/-! # Reading the log of a job

A reader is answered from the recent lines if they reach back far enough and from the log file
otherwise. `file` is the content of that file, `none` if there is none.
-/

namespace FirmwareJobs.Observe

/-- Some lines and the offset to ask for next. -/
structure Answer where
  record : Record
  lines : List String
  next : Nat
  deriving DecidableEq

/-- Turn a replay into lines. An ended job that has nothing in memory was restored from disk, and
its file is all there is. -/
def resolve (file : Option (List UInt8)) (replay : Log.Replay) (record : Record)
    (since limit : Nat) : Answer :=
  match replay with
  | .lines entries =>
    ⟨record, entries.map Prod.snd, ((entries.getLast?).map Prod.fst).getD since⟩
  | .evicted last => ⟨record, Log.fileTail file limit, last⟩
  | .empty =>
    if record.state.isTerminal then ⟨record, Log.fileTail file limit, since⟩
    else ⟨record, [], since⟩
  | .upToDate => ⟨record, [], since⟩

/-- The lines after `since`, at most `limit`. -/
def tail (job : Job) (file : Option (List UInt8)) (since limit : Nat) : Answer :=
  resolve file (job.replay since limit) job.record since limit

/-- A poll is answered at once, or it waits as a listener. -/
inductive Poll where
  | answered (a : Answer)
  | waiting (listener : Nat)

def poll (job : Job) (file : Option (List UInt8)) (since limit : Nat) : Poll × Job :=
  match job.watch since limit with
  | (.ready replay, job) => (.answered (resolve file replay job.record since limit), job)
  | (.pending listener, job) => (.waiting listener, job)

/-- The answer of a waiting poll, after an event came or the time was over. A poll woken by the
end of the job answers with the record that it was sent. -/
def wake (job : Job) (file : Option (List UInt8)) (listener since limit : Nat) : Answer × Job :=
  let (receipt, job) := job.receive listener
  let job := job.leave listener
  let record := match receipt with
    | .event (.done record) => record
    | _ => job.record
  (resolve file (job.replay since limit) record since limit, job)

/-- What an observer of a job starts from. -/
structure Attachment where
  history : List String
  record : Record
  listener : Option Nat

/-- The lines so far and a listener for the rest. A job that has ended and has no lines in memory
shows its file. -/
def attach (job : Job) (file : Option (List UInt8)) : Attachment × Job :=
  let (history, listener, next) := job.attach
  let history :=
    if history.isEmpty ∧ listener.isNone then Log.fileTail file tailDefault else history
  (⟨history, job.record, listener⟩, next)

end FirmwareJobs.Observe

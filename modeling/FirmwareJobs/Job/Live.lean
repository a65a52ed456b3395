import FirmwareJobs.Job.Record
import FirmwareJobs.Log.Window

/-! # Live jobs

A live job is its record with the recent log, the request to cancel it and its listeners. A
listener has a mailbox of events that it has not received yet. A mailbox that is full when one
more event comes is closed; what it holds can still be received.
-/

namespace FirmwareJobs

open Time

inductive Event where
  | line (number : Nat) (text : String)
  | done (record : Record)
  deriving DecidableEq

structure Mailbox where
  id : Nat
  events : List Event
  isOpen : Bool
  deriving DecidableEq

/-- What a listener finds in its mailbox. -/
inductive Receipt where
  | event (e : Event)
  | pending
  | closed
  deriving DecidableEq

/-- Lines come from the toolchain or from the engine itself. -/
inductive Origin where
  | output
  | engine
  deriving Repr, DecidableEq

structure Job where
  record : Record
  cancelRequested : Bool
  pid : Option Nat
  lastLine : String
  log : Log.Window
  mailboxes : List Mailbox
  nextListener : Nat
  doneSent : Bool
  deriving DecidableEq

/-- The most events that wait in one mailbox. -/
def backlog : Nat := 1024

namespace Mailbox

def isFull (m : Mailbox) : Bool := backlog ≤ m.events.length

/-- Deliver an event to an open mailbox, or close it if it is full. -/
def post (e : Event) (m : Mailbox) : Mailbox :=
  if !m.isOpen then m
  else if m.isFull then { m with isOpen := false }
  else { m with events := m.events ++ [e] }

/-- Deliver the last event. One that does not fit is lost. -/
def postLast (e : Event) (m : Mailbox) : Mailbox := { m.post e with isOpen := false }

def receive (m : Mailbox) : Receipt × Mailbox :=
  match m.events with
  | e :: rest => (.event e, { m with events := rest })
  | [] => (if m.isOpen then .pending else .closed, m)

end Mailbox

/-- What a request to cancel a job achieved. -/
inductive CancelOutcome where
  | unchanged (record : Record)
  | canceled (record : Record)
  | requested (record : Record) (pid : Option Nat)
  deriving DecidableEq

namespace Job

def canceledSummary : String := "Canceled"

def ofRecord (record : Record) (capacity : Nat) : Job :=
  ⟨record, false, none, "", .ofCapacity capacity, [], 0, false⟩

def id (j : Job) : String := j.record.id

def action (j : Job) : Action := j.record.action

def state (j : Job) : State := j.record.state

def isTerminal (j : Job) : Bool := j.record.state.isTerminal

def lastNumber (j : Job) : Nat := j.log.last

def listenerCount (j : Job) : Nat := (j.mailboxes.filter (·.isOpen)).length

def setPid (j : Job) (pid : Option Nat) : Job := { j with pid }

def setSummary (j : Job) (summary : String) : Job :=
  { j with record := { j.record with errorSummary := summary } }

/-- Number a line, keep it in the window and post it to every listener. -/
def publish (j : Job) (line : String) (origin : Origin) : Job :=
  let log := j.log.push line
  { j with
    lastLine := if origin = .output ∧ line ≠ "" then line else j.lastLine
    log
    mailboxes := j.mailboxes.map (Mailbox.post (.line log.last line)) }

/-- Start a queued job. -/
def begin? (j : Job) (now : Instant) : Option Job :=
  if j.state = .queued ∧ !j.cancelRequested then
    some { j with record := { j.record with state := .running, startedAt := some now } }
  else none

/-- The record of a job that was stopped on request. -/
def canceledRecord (r : Record) (now : Instant) : Record :=
  { r with
    state := .canceled, exitCode := some (-1), errorSummary := canceledSummary
    endedAt := some now }

/-- End a job with the exit code of its toolchain. Without a summary of its own, a failed job
takes its last output line. -/
def finish (j : Job) (code : Int32) (now : Instant) : Job :=
  if j.isTerminal then j
  else if j.cancelRequested then { j with record := canceledRecord j.record now }
  else if code = 0 then
    { j with record := { j.record with
        state := .success, exitCode := some 0, errorSummary := "", endedAt := some now } }
  else
    { j with record := { j.record with
        state := .failed, exitCode := some code, endedAt := some now
        errorSummary :=
          if j.record.errorSummary = "" then j.lastLine else j.record.errorSummary } }

/-- End a running job that nobody supervises any more. -/
def interrupt? (j : Job) (summary : String) (now : Instant) : Option Job :=
  if j.state = .running then
    some { j with record := { j.record with
      state := .failed, endedAt := some now, exitCode := some 1, errorSummary := summary } }
  else none

/-- Cancel a queued job at once and ask a running one to stop. -/
def requestCancel (j : Job) (now : Instant) : CancelOutcome × Job :=
  if j.isTerminal then (.unchanged j.record, j)
  else
    let j := { j with cancelRequested := true }
    if j.state = .queued then
      let j := { j with record := canceledRecord j.record now }
      (.canceled j.record, j)
    else (.requested j.record j.pid, j)

/-- Send the record of an ended job to its listeners, once. -/
def notifyDone (j : Job) : Job :=
  if j.doneSent ∨ !j.isTerminal then j
  else
    { j with doneSent := true, mailboxes := j.mailboxes.map (Mailbox.postLast (.done j.record)) }

/-- Open a mailbox for a new listener. -/
def listen (j : Job) : Nat × Job :=
  (j.nextListener,
    { j with
      mailboxes := j.mailboxes ++ [⟨j.nextListener, [], true⟩]
      nextListener := j.nextListener + 1 })

/-- The next event of a listener. -/
def receive (j : Job) (listener : Nat) : Receipt × Job :=
  match j.mailboxes.find? (·.id == listener) with
  | none => (.closed, j)
  | some m =>
    let (receipt, m) := m.receive
    (receipt, { j with mailboxes := j.mailboxes.map fun n => if n.id = listener then m else n })

/-- All events that wait for a listener, and whether more can come. -/
def drain (j : Job) (listener : Nat) : List Event × Bool × Job :=
  match j.mailboxes.find? (·.id == listener) with
  | none => ([], false, j)
  | some m =>
    (m.events, m.isOpen,
      { j with mailboxes := j.mailboxes.map fun n =>
          if n.id = listener then { n with events := [] } else n })

/-- Forget a listener and its mailbox. -/
def leave (j : Job) (listener : Nat) : Job :=
  { j with mailboxes := j.mailboxes.filter (·.id != listener) }

def replay (j : Job) (since limit : Nat) : Log.Replay := j.log.after since limit

/-- The recent lines and, unless the job has ended, a listener that goes on after them. -/
def attach (j : Job) : List String × Option Nat × Job :=
  if j.isTerminal then (j.log.recent, none, j)
  else
    let (listener, next) := j.listen
    (j.log.recent, some listener, next)

/-- The answer of a watch: what is there already, or a listener for what comes next. -/
inductive Watch where
  | ready (replay : Log.Replay)
  | pending (listener : Nat)
  deriving DecidableEq

/-- Lines after `since` if there are any or the job has ended, otherwise a new listener. -/
def watch (j : Job) (since limit : Nat) : Watch × Job :=
  let replay := j.replay since limit
  if j.isTerminal ∨ (replay ≠ .upToDate ∧ replay ≠ .empty) then (.ready replay, j)
  else
    let (listener, next) := j.listen
    (.pending listener, next)

end Job

end FirmwareJobs

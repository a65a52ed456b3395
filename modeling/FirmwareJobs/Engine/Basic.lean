import FirmwareJobs.Engine.Error
import FirmwareJobs.Engine.Store
import FirmwareJobs.Job.Live
import FirmwareJobs.Settings.Engine

/-! # The job engine

The engine has a table of jobs, a queue and one worker that runs the queued jobs one after the
other. Jobs are kept in the order in which they came; the table and the queue refer to them by
their positions.
-/

namespace FirmwareJobs

open Files Time

/-- What the worker does. From `taken` to `saved` it is busy with one job: it begins the job,
saves the record, runs the toolchain, ends the job, saves the record again and tells the
listeners. -/
inductive Worker where
  | absent
  | idle
  | taken (job : Nat)
  | begun (job : Nat)
  | working (job : Nat)
  | ended (job : Nat)
  | saved (job : Nat)
  | stopped
  deriving Repr, DecidableEq

structure Engine where
  settings : Settings
  jobs : List Job
  table : List (String × Nat)
  queue : List Nat
  worker : Worker := .absent
  isStopping : Bool := false
  /-- The saves that failed, with the ids of their jobs. -/
  faults : List (String × Fault) := []
  deriving DecidableEq

namespace Engine

def interruptedSummary : String := "Interrupted by server restart"

def store (e : Engine) : Store := .ofSettings e.settings

def position? (e : Engine) (id : String) : Option Nat := e.table.lookup id

def job? (e : Engine) (id : String) : Option Job := do e.jobs[← e.position? id]?

def setJob (e : Engine) (position : Nat) (job : Job) : Engine :=
  { e with jobs := e.jobs.set position job }

def logPath (e : Engine) (job : Job) : String := e.store.logPath job.id

/-- Enter a job under an id. A job that had the id before is no longer found. -/
def enter (table : List (String × Nat)) (id : String) (position : Nat) : List (String × Nat) :=
  table.filter (·.1 != id) ++ [(id, position)]

/-- Append a job and enter it in the table; a queued one is queued, too. Nobody takes jobs from a
worker that has stopped: such a job is in no queue and waits for the directory to be opened again. -/
def accept (e : Engine) (job : Job) : Engine :=
  { e with
    jobs := e.jobs ++ [job]
    table := enter e.table job.id e.jobs.length
    queue := if job.state = .queued ∧ e.worker ≠ .stopped then e.queue ++ [e.jobs.length]
      else e.queue }

/-- Save a record if possible. -/
def persist (e : Engine) (files : Tree) (r : Record) : Engine × Tree :=
  match e.store.save files r with
  | (.ok (), files) => (e, files)
  | (.error fault, files) => ({ e with faults := e.faults ++ [(r.id, fault)] }, files)

/-! ## Opening -/

/-- Take over a saved record. A job that was running then has failed. -/
def restore (now : Instant) (e : Engine) (files : Tree) (r : Record) : Engine × Tree :=
  let job := Job.ofRecord r e.settings.capacity
  match job.interrupt? interruptedSummary now with
  | some job => (e.accept job).persist files job.record
  | none => (e.accept job, files)

def restoreAll (now : Instant) : Engine → Tree → List Record → Engine × Tree
  | e, files, [] => (e, files)
  | e, files, r :: rest =>
    let (e, files) := restore now e files r
    restoreAll now e files rest

/-- Records in the order of their creation. -/
def oldestFirst (records : List Record) : List Record :=
  records.mergeSort fun a b => a.createdAt.rank ≤ b.createdAt.rank

def newestFirst (records : List Record) : List Record :=
  records.mergeSort fun a b => b.createdAt.rank ≤ a.createdAt.rank

def empty (settings : Settings) : Engine := ⟨settings, [], [], [], .absent, false, []⟩

/-- Open a job directory with the jobs that are saved there. -/
def «open» (settings : Settings) (files : Tree) (now : Instant) :
    Except EngineError (Engine × Tree) :=
  match Store.open files settings with
  | .error fault => .error (.io fault)
  | .ok (store, files) =>
    match store.loadAll files with
    | .error fault => .error (.io fault)
    | .ok records => .ok (restoreAll now (empty settings) files (oldestFirst records))

/-! ## Requests -/

/-- Check an order for a new job and create the log of the job. Its record is to be saved next. -/
def prepare (e : Engine) (files : Tree) (request : Request) (id : String) (now : Instant) :
    Except EngineError (Record × Tree) :=
  match request.validate with
  | .error rejection => .error (.invalid rejection)
  | .ok order =>
    if !files.isFile e.settings.home (e.settings.documentPath order.document) then
      .error (.documentNotFound order.document)
    else
      match e.store.createLog files id with
      | .error fault => .error (.io fault)
      | .ok files =>
        .ok (.fresh id order.document order.action order.device order.clean now, files)

/-- Enter and queue a new job whose record is saved. -/
def enroll (e : Engine) (record : Record) : Engine :=
  e.accept (Job.ofRecord record e.settings.capacity)

/-- Accept a job under a new id. Nothing changes in the engine if that fails. -/
def submit (e : Engine) (files : Tree) (request : Request) (id : String) (now : Instant) :
    Except EngineError Record × Engine × Tree :=
  match e.prepare files request id now with
  | .error fault => (.error fault, e, files)
  | .ok (record, files) =>
    match e.store.save files record with
    | (.error fault, files) => (.error (.io fault), e, files)
    | (.ok (), files) => (.ok record, e.enroll record, files)

/-- All records, newest first. -/
def list (e : Engine) : List Record :=
  newestFirst (e.table.filterMap fun (_, position) => (e.jobs[position]?).map (·.record))

/-- Ask the job with an id to end: what that achieved, where the job stands, and the engine after
it. -/
def withdraw (e : Engine) (id : String) (now : Instant) :
    Except EngineError (CancelOutcome × Nat × Engine) :=
  match e.position? id with
  | none => .error (.notFound id)
  | some position =>
    match e.jobs[position]? with
    | none => .error (.notFound id)
    | some job =>
      let (outcome, job) := job.requestCancel now
      .ok (outcome, position, e.setJob position job)

/-- Tell the listeners of a job that it has ended. -/
def notify (e : Engine) (position : Nat) : Engine :=
  match e.jobs[position]? with
  | some job => e.setJob position job.notifyDone
  | none => e

/-- Cancel a job. One that is queued is canceled at once, its record is saved and its listeners
are told; one that is running is asked to stop. -/
def cancel (e : Engine) (files : Tree) (id : String) (now : Instant) :
    Except EngineError Record × Engine × Tree :=
  match e.withdraw id now with
  | .error fault => (.error fault, e, files)
  | .ok (.canceled record, position, e) =>
    let (e, files) := e.persist files record
    (.ok record, e.notify position, files)
  | .ok (.unchanged record, _, e) | .ok (.requested record _, _, e) => (.ok record, e, files)

def start (e : Engine) : Except EngineError Engine :=
  if e.worker = .absent then .ok { e with worker := .idle } else .error .alreadyStarted

/-- Let the worker stop after the current job, which is canceled. -/
def beginStop (e : Engine) (now : Instant) : Engine :=
  let running := e.table.filterMap fun (_, position) =>
    match e.jobs[position]? with
    | some job => if job.state = .running then some position else none
    | none => none
  running.foldl (fun e position =>
    match e.jobs[position]? with
    | some job => e.setJob position (job.requestCancel now).2
    | none => e) { e with isStopping := true }

/-- Whether the worker will not do anything any more. -/
def isAtRest (e : Engine) : Bool := e.worker == .absent || e.worker == .stopped

/-! ## The worker -/

/-- Take the next job. A worker that is to stop takes none. -/
def takeNext? (e : Engine) : Option Engine :=
  if e.worker ≠ .idle then none
  else if e.isStopping then some { e with worker := .stopped }
  else
    match e.queue with
    | [] => none
    | position :: rest => some { e with queue := rest, worker := .taken position }

/-- Begin the job that was taken, unless it was canceled. -/
def beginTaken? (e : Engine) (now : Instant) : Option Engine :=
  match e.worker with
  | .taken position =>
    match (e.jobs[position]?).bind (·.begin? now) with
    | some job => some { e.setJob position job with worker := .begun position }
    | none => some { e with worker := .idle }
  | _ => none

def saveBegun? (e : Engine) (files : Tree) : Option (Engine × Tree) :=
  match e.worker with
  | .begun position =>
    (e.jobs[position]?).map fun job =>
      { e with worker := .working position }.persist files job.record
  | _ => none

/-- End the job with the exit code of its toolchain. -/
def endWork? (e : Engine) (code : Int32) (now : Instant) : Option Engine :=
  match e.worker with
  | .working position =>
    (e.jobs[position]?).map fun job =>
      { e.setJob position (job.finish code now) with worker := .ended position }
  | _ => none

def saveEnded? (e : Engine) (files : Tree) : Option (Engine × Tree) :=
  match e.worker with
  | .ended position =>
    (e.jobs[position]?).map fun job =>
      { e with worker := .saved position }.persist files job.record
  | _ => none

def notifySaved? (e : Engine) : Option Engine :=
  match e.worker with
  | .saved position =>
    (e.jobs[position]?).map fun job => { e.setJob position job.notifyDone with worker := .idle }
  | _ => none

end Engine

end FirmwareJobs

import FirmwareJobs.Engine.Basic
import FirmwareJobs.Observe.Tail
import FirmwareJobs.Toolchain.Completion

/-! # An engine at work

A service is an engine with the host on which it runs toolchain processes. Requests are answered
at once or wait for something to happen; time passes only while somebody waits.
-/

namespace FirmwareJobs

open Toolchain

structure Service where
  host : Machine.Host
  engine : Engine
  /-- The steps of the job that the worker runs. -/
  pipeline : Option Pipeline := none
  /-- The environment of the server. -/
  inherited : Environment
  /-- The instant at which the clock of the host shows zero. -/
  epoch : Time.Instant
  /-- How many ids were given to new jobs. -/
  issued : Nat := 0

namespace Service

def now (s : Service) : Time.Instant := s.epoch.after s.host.now

/-- The time that a request takes. -/
def requestNanos : Nat := 1000

def spend (s : Service) : Service :=
  { s with host := s.host.passTo (s.host.now + requestNanos) }

def files (s : Service) : Files.Tree := s.host.files

def withFiles (s : Service) (files : Files.Tree) : Service :=
  { s with host := { s.host with files } }

def withEngine (s : Service) (engine : Engine) (files : Files.Tree) : Service :=
  { s with engine }.withFiles files

/-- The id of the `n`-th new job: 32 hexadecimal digits in the form of a random identifier. -/
def idOf (n : Nat) : String :=
  let ds := Text.hexDigits n
  String.ofList (List.replicate (8 - ds.length) '0' ++ ds) ++ "6f1c4a3e9b7d2c5e8f014d36"

/-- Open a job directory on a host. -/
def «open» (host : Machine.Host) (settings : Settings) (inherited : Environment)
    (epoch : Time.Instant) (issued : Nat) : Except EngineError Service :=
  match Engine.open settings host.files (epoch.after host.now) with
  | .error e => .error e
  | .ok (engine, files) =>
    .ok (spend { host := { host with files }, engine, inherited, epoch, issued })

/-! ## Requests -/

def submit (s : Service) (request : Request) : Except EngineError Record × Service :=
  let s := s.spend
  let (answer, engine, files) := s.engine.submit s.files request (idOf (s.issued + 1)) s.now
  let s := s.withEngine engine files
  match answer with
  | .ok record => (.ok record, { s with issued := s.issued + 1 })
  | .error e => (.error e, s)

def cancel (s : Service) (id : String) : Except EngineError Record × Service :=
  let s := s.spend
  let (answer, engine, files) := s.engine.cancel s.files id s.now
  (answer, s.withEngine engine files)

def start (s : Service) : Except EngineError Unit × Service :=
  match s.engine.start with
  | .ok engine => (.ok (), { s with engine })
  | .error e => (.error e, s)

/-- The log file of a job. -/
def logFile (s : Service) (job : Job) : Option (List UInt8) :=
  s.files.content? s.engine.settings.home (s.engine.logPath job)

def job? (s : Service) (position : Nat) : Option Job := s.engine.jobs[position]?

def setJob (s : Service) (position : Nat) (job : Job) : Service :=
  { s with engine := s.engine.setJob position job }

/-! ## The worker -/

def plan (s : Service) (job : Job) : Plan :=
  ⟨s.engine.settings, s.inherited, s.engine.logPath job⟩

/-- Put back a job after its toolchain made progress. -/
def progress (s : Service) (position : Nat) (b : Workbench) (p : Progress Pipeline) :
    Option Service :=
  let s := { (s.setJob position b.job) with host := b.host }
  match p with
  | .going pipeline => some { s with pipeline := some pipeline }
  | .over code =>
    (s.engine.endWork? code s.now).map fun engine => { s with engine, pipeline := none }

/-- The next thing that the worker does, if it does not have to wait. -/
def work? (s : Service) : Option Service :=
  match s.engine.worker with
  | .absent | .stopped => none
  | .idle => s.engine.takeNext?.map fun engine => { s with engine }
  | .taken _ => (s.engine.beginTaken? s.now).map fun engine => { s with engine }
  | .begun _ => (s.engine.saveBegun? s.files).map fun (engine, files) => s.withEngine engine files
  | .ended _ => (s.engine.saveEnded? s.files).map fun (engine, files) => s.withEngine engine files
  | .saved _ => s.engine.notifySaved?.map fun engine => { s with engine }
  | .working position => do
    let job ← s.job? position
    let b : Workbench := ⟨job, s.host⟩
    match s.pipeline with
    | none =>
      let (b, p) := Pipeline.start (s.plan job) b
      s.progress position b p
    | some pipeline =>
      let (b, p) ← pipeline.advance? (s.plan job) b
      s.progress position b p

/-- One turn of the worker or of the processes; `none` if all of them wait. -/
def turn? (s : Service) : Option Service :=
  match s.work? with
  | some s => some s
  | none =>
    if (s.host.round?).isSome then some { s with host := s.host.rounds turnRounds } else none

/-- When somebody wants to go on though nothing happens. -/
def nextWake? (s : Service) : Option Nat :=
  earlier? s.host.nextWake? (s.pipeline.bind (·.nextLook?))

/-- Let time pass until a condition holds, a time comes, or nothing can happen any more. The
condition is looked at after `patience` busy turns, and while everybody waits. -/
def waitFor (holds : Service → Bool) (patience : Nat) (until? : Option Nat) :
    Nat → Nat → Service → Service
  | 0, _, s => s
  | fuel + 1, busy, s =>
    if patience ≤ busy ∧ holds s then s
    else
      match s.turn? with
      | some s => waitFor holds patience until? fuel (if patience ≤ busy then 0 else busy + 1) s
      | none =>
        if holds s ∨ until?.any (· ≤ s.host.now) then s
        else
          match earlier? s.nextWake? until? with
          | some t => waitFor holds patience until? fuel 0 { s with host := s.host.passTo t }
          | none => s

/-- Wait as somebody who looks now and then. -/
def wait (s : Service) (holds : Service → Bool) : Service :=
  s.waitFor holds patience none turns 0

/-- Stop the worker and wait for it. -/
def stop (s : Service) : Service :=
  let s := s.spend
  { s with engine := s.engine.beginStop s.now }.wait fun s => s.engine.isAtRest

/-- Whether a job has ended and its file holds the record that is in memory. -/
def isSaved (s : Service) (position : Nat) : Bool :=
  (s.job? position).any fun job =>
    job.isTerminal &&
      s.engine.store.readRecord? s.files (s.engine.store.recordPath job.id) == some job.record

/-! ## Observers -/

/-- Whether a listener finds something in its mailbox, or finds it closed. -/
def hasNews (s : Service) (position listener : Nat) : Bool :=
  (s.job? position).all fun job => (job.receive listener).1 != .pending

def tail? (s : Service) (position since limit : Nat) : Option Observe.Answer :=
  (s.job? position).map fun job => Observe.tail job (s.logFile job) since limit

/-- Answer a poll, after waiting for news if there are no lines yet. -/
def tailWait? (s : Service) (position since limit nanos : Nat) :
    Option (Observe.Answer × Service) := do
  let job ← s.job? position
  match Observe.poll job (s.logFile job) since limit with
  | (.answered a, job) => some (a, s.setJob position job)
  | (.waiting listener, job) =>
    let deadline := s.host.now + nanos
    let s := s.setJob position job
    let s := s.waitFor (·.hasNews position listener) 0 (some deadline) turns 0
    let job ← s.job? position
    let (a, job) := Observe.wake job (s.logFile job) listener since limit
    some (a, s.setJob position job)

def attach? (s : Service) (position : Nat) : Option (Observe.Attachment × Service) :=
  (s.job? position).map fun job =>
    let (a, job) := Observe.attach job (s.logFile job)
    (a, s.setJob position job)

/-- All events of a listener to the end of its stream. `fuel` bounds their number. -/
def collect (position listener : Nat) : Nat → Service → List Event × Service
  | 0, s => ([], s)
  | fuel + 1, s =>
    let s := s.waitFor (·.hasNews position listener) 0 none turns 0
    match s.job? position with
    | none => ([], s)
    | some job =>
      match job.receive listener with
      | (.event e, job) =>
        let (events, s) := collect position listener fuel (s.setJob position job)
        (e :: events, s)
      | (.pending, _) | (.closed, _) => ([], s)

end Service

end FirmwareJobs

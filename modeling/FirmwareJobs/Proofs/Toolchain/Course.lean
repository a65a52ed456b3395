import FirmwareJobs.Proofs.Job.Audience
import FirmwareJobs.Proofs.Toolchain.Scribe
import FirmwareJobs.Toolchain.Pipeline

/-!
# The course of a job

The worker of a job goes from post to post. At a post it does one thing: it looks whether the job is
to be canceled, opens or writes the log, starts a process, listens to it or notes how it ended.
Before and after each of these, others observe the job or ask to cancel it, and everything else on
the host goes on.
-/

namespace FirmwareJobs

/-- What those do with a running job who do not work on it. -/
def Job.Operation.isForeign (op : Job.Operation) : Bool := op.isCancel || !op.isWork

namespace Toolchain

open Files

theorem steps_ne_nil (record : Record) (document : String) : steps record document ≠ [] := by
  cases h : record.action <;> simp [steps, h]

theorem steps_of_compile {record : Record} (h : record.action = .compile) (document : String) :
    steps record document = [configStep document, compileStep record document] := by
  simp [steps, h]

theorem steps_of_ota {record : Record} (h : record.action = .ota) (document : String) :
    steps record document =
      [configStep document, compileStep record document, uploadStep record document] := by
  simp [steps, h]

theorem steps_of_logs {record : Record} (h : record.action = .logs) (document : String) :
    steps record document = [logsStep record document] := by
  simp [steps, h]

theorem steps_of_sameOrder {r s : Record} (h : Job.SameOrder r s) (document : String) :
    steps s document = steps r document := by
  simp [steps, compileStep, uploadStep, logsStep, cleanOption, deviceOption, h.action, h.clean,
    h.device]

/-- The commands of the steps of a job, in order; none if the toolchain command is invalid. -/
def Plan.calls (plan : Plan) (record : Record) : List (List String) :=
  match plan.settings.toolchainWords with
  | .error _ => []
  | .ok words => (steps record (plan.settings.documentPath record.document)).map (words ++ ·)

theorem Plan.calls_of_ok {plan : Plan} {words : List String}
    (h : plan.settings.toolchainWords = .ok words) (record : Record) :
    plan.calls record =
      (steps record (plan.settings.documentPath record.document)).map (words ++ ·) := by
  simp [calls, h]

theorem Plan.calls_of_error {plan : Plan} {fault : ToolchainFault}
    (h : plan.settings.toolchainWords = .error fault) (record : Record) :
    plan.calls record = [] := by
  simp [calls, h]

theorem Plan.calls_of_sameOrder (plan : Plan) {r s : Record} (h : Job.SameOrder r s) :
    plan.calls s = plan.calls r := by
  simp [calls, h.document, steps_of_sameOrder h]

/-- What became of a step. -/
inductive Outcome where
  /-- Its process could not be started. -/
  | refused
  /-- It was not started any more because the job was to be canceled. -/
  | withdrawn
  | exited (code : Int32)
  /-- Its process was stopped because the job was to be canceled. -/
  | stopped
  deriving DecidableEq

def Outcome.code : Outcome → Int32
  | .refused => Run.failureCode
  | .withdrawn | .stopped => canceledCode
  | .exited code => code

/-- Where the worker is. -/
inductive Post where
  | ready
  | reporting (message : String)
  /-- About to look at the job before the next step; `code` is the code of the step before. -/
  | checking (code : Int32)
  | opening (call : List String)
  | announcing (log : Option Place) (call : List String)
  /-- About to look at the job before the process is started. -/
  | confirming (log : Option Place) (call : List String)
  | launching (log : Option Place) (call : List String)
  /-- About to look at the job and at what is known about the process. -/
  | looking (log : Option Place) (s : Supervision)
  | listening (log : Option Place) (s : Supervision)
  | stopping
  | failing (log : Option Place) (message : String)
  | explaining (message : String)
  | finished (code : Int32)

inductive Move where
  /-- The worker does what is to be done at its post. -/
  | work
  | hear (notice : Notice)
  /-- Others do something with the job. -/
  | meddle (op : Job.Operation)
  /-- Something happens on the host. -/
  | world (host : Machine.Host)

namespace Move

def isCancel : Move → Bool
  | .meddle op => op.isCancel
  | _ => false

end Move

/-- A job with its worker: the commands that were not taken up yet, those that were started, and
what became of the steps. -/
structure Course where
  bench : Workbench
  post : Post := .ready
  ahead : List (List String) := []
  started : List (List String) := []
  outcomes : List Outcome := []

namespace Course

def start (bench : Workbench) : Course := { bench }

/-- A step is over whose process had been started. -/
def conclude (c : Course) (outcome : Outcome) : Course :=
  { c with
    bench := c.bench.operate (.setPid none)
    outcomes := c.outcomes ++ [outcome]
    post := if outcome.code = 0 then .checking 0 else .finished outcome.code }

theorem post_conclude (c : Course) (outcome : Outcome) : (c.conclude outcome).post =
    if outcome.code = 0 then .checking 0 else .finished outcome.code := rfl

/-- The process of a step could not be started. -/
def refuse (c : Course) (log : Option Place) (message : String) : Course :=
  { c with outcomes := c.outcomes ++ [.refused], post := .failing log message }

/-- Start the process of a step. -/
def launch (plan : Plan) (c : Course) (log : Option Place) (call : List String) : Course :=
  if call.isEmpty then c.refuse log ToolchainFault.empty.message
  else
    match c.bench.host.launch call
      (Run.environment plan.inherited plan.settings.environment) plan.settings with
    | .error fault => c.refuse log ("Failed to start: " ++ fault.message)
    | .ok (child, host) =>
      { c with
        bench := ⟨c.bench.job.setPid (some child.process), host⟩
        started := c.started ++ [call], post := .looking log {} }

/-- Go on with a process as the supervisor says. -/
def judge (c : Course) (log : Option Place) (s : Supervision) : Option Verdict → Course
  | none => { c with post := .listening log s }
  | some .terminate => { c with post := .stopping }
  | some (.finished code) => c.conclude (.exited code)

/-- What the worker does next; `none` if it waits for a notice or is done. -/
def work? (plan : Plan) (c : Course) : Option Course :=
  match c.post with
  | .ready =>
    match plan.settings.toolchainWords with
    | .error fault => some { c with post := .reporting fault.message }
    | .ok _ => some { c with post := .checking 0, ahead := plan.calls c.bench.job.record }
  | .reporting message => some { c with
      bench := (c.bench.openLog plan).2, post := .failing (c.bench.openLog plan).1 message }
  | .checking code =>
    match c.ahead with
    | [] => some { c with post := .finished code }
    | call :: ahead =>
      if c.bench.job.cancelRequested then some { c with post := .finished code }
      else some { c with post := .opening call, ahead }
  | .opening call => some { c with
      bench := (c.bench.openLog plan).2, post := .announcing (c.bench.openLog plan).1 call }
  | .announcing log call => some { c with
      bench := c.bench.emit log (Run.commandLine call) .engine, post := .confirming log call }
  | .confirming log call =>
    -- others may have come since the job was looked at last
    if c.bench.job.cancelRequested then
      some { c with outcomes := c.outcomes ++ [.withdrawn], post := .finished canceledCode }
    else some { c with post := .launching log call }
  | .launching log call => some (c.launch plan log call)
  | .looking log s =>
    some (c.judge log s (s.verdict? c.bench.host.now c.bench.job.cancelRequested))
  | .stopping => some (c.conclude .stopped)
  | .failing log message => some { c with
      bench := c.bench.emit log message .output, post := .explaining message }
  | .explaining message => some { c with
      bench := c.bench.operate (.setSummary message), post := .finished Run.failureCode }
  | .listening .. | .finished _ => none

/-- One move; `none` if it is not the time for it. -/
def make? (plan : Plan) (c : Course) : Move → Option Course
  | .work => c.work? plan
  | .hear notice =>
    match c.post with
    | .listening log s => some { c with
        bench := c.bench.hear log notice, post := .looking log (s.note c.bench.host.now notice) }
    | _ => none
  | .meddle op => if op.isForeign then some { c with bench := c.bench.operate op } else none
  | .world host => some { c with bench := { c.bench with host } }

def run? (plan : Plan) (c : Course) (moves : List Move) : Option Course :=
  moves.foldlM (make? plan) c

@[simp] theorem run?_nil (plan : Plan) (c : Course) : c.run? plan [] = some c := rfl

@[simp] theorem run?_cons (plan : Plan) (c : Course) (move : Move) (moves : List Move) :
    c.run? plan (move :: moves) = (c.make? plan move).bind (·.run? plan moves) := rfl

theorem run?_append (plan : Plan) (c : Course) (moves more : List Move) :
    c.run? plan (moves ++ more) = (c.run? plan moves).bind (·.run? plan more) :=
  List.foldlM_append

theorem run?_concat (plan : Plan) (c : Course) (moves : List Move) (move : Move) :
    c.run? plan (moves ++ [move]) = (c.run? plan moves).bind (·.make? plan move) := by
  simp [run?_append]

/-- Whether somebody asked to cancel the job. -/
def wasCanceled (moves : List Move) : Bool := moves.any Move.isCancel

theorem wasCanceled_append (moves more : List Move) :
    wasCanceled (moves ++ more) = (wasCanceled moves || wasCanceled more) := List.any_append

@[simp] theorem wasCanceled_singleton (move : Move) : wasCanceled [move] = move.isCancel := by
  simp [wasCanceled]

/-! ## What a move does -/

/-- The moves that can be made. -/
inductive Step (plan : Plan) (c : Course) : Move → Course → Prop where
  | invalid {fault : ToolchainFault} (hpost : c.post = .ready)
      (hwords : plan.settings.toolchainWords = .error fault) :
      Step plan c .work { c with post := .reporting fault.message }
  | prepare {words : List String} (hpost : c.post = .ready)
      (hwords : plan.settings.toolchainWords = .ok words) :
      Step plan c .work { c with post := .checking 0, ahead := plan.calls c.bench.job.record }
  | report {message : String} (hpost : c.post = .reporting message) :
      Step plan c .work { c with
        bench := (c.bench.openLog plan).2, post := .failing (c.bench.openLog plan).1 message }
  | finish {code : Int32} (hpost : c.post = .checking code) (hahead : c.ahead = []) :
      Step plan c .work { c with post := .finished code }
  | skip {code : Int32} (hpost : c.post = .checking code)
      (hcanceled : c.bench.job.cancelRequested = true) :
      Step plan c .work { c with post := .finished code }
  | next {code : Int32} {call : List String} {ahead : List (List String)}
      (hpost : c.post = .checking code) (hahead : c.ahead = call :: ahead)
      (hcanceled : c.bench.job.cancelRequested = false) :
      Step plan c .work { c with post := .opening call, ahead }
  | openLog {call : List String} (hpost : c.post = .opening call) :
      Step plan c .work { c with
        bench := (c.bench.openLog plan).2, post := .announcing (c.bench.openLog plan).1 call }
  | announce {log : Option Place} {call : List String} (hpost : c.post = .announcing log call) :
      Step plan c .work { c with
        bench := c.bench.emit log (Run.commandLine call) .engine, post := .confirming log call }
  | withdraw {log : Option Place} {call : List String} (hpost : c.post = .confirming log call)
      (hcanceled : c.bench.job.cancelRequested = true) :
      Step plan c .work
        { c with outcomes := c.outcomes ++ [.withdrawn], post := .finished canceledCode }
  | confirm {log : Option Place} {call : List String} (hpost : c.post = .confirming log call)
      (hcanceled : c.bench.job.cancelRequested = false) :
      Step plan c .work { c with post := .launching log call }
  | refuse {log : Option Place} {call : List String} {message : String}
      (hpost : c.post = .launching log call) : Step plan c .work (c.refuse log message)
  | launch {log : Option Place} {call : List String} {child : Machine.Child} {host : Machine.Host}
      (hpost : c.post = .launching log call) :
      Step plan c .work { c with
        bench := ⟨c.bench.job.setPid (some child.process), host⟩
        started := c.started ++ [call], post := .looking log {} }
  | listen {log : Option Place} {s : Supervision} (hpost : c.post = .looking log s) :
      Step plan c .work { c with post := .listening log s }
  | terminate {log : Option Place} {s : Supervision} (hpost : c.post = .looking log s)
      (hcanceled : c.bench.job.cancelRequested = true) :
      Step plan c .work { c with post := .stopping }
  | exit {log : Option Place} {s : Supervision} {code : Int32} (hpost : c.post = .looking log s) :
      Step plan c .work (c.conclude (.exited code))
  | stop (hpost : c.post = .stopping) : Step plan c .work (c.conclude .stopped)
  | fail {log : Option Place} {message : String} (hpost : c.post = .failing log message) :
      Step plan c .work { c with
        bench := c.bench.emit log message .output, post := .explaining message }
  | explain {message : String} (hpost : c.post = .explaining message) :
      Step plan c .work { c with
        bench := c.bench.operate (.setSummary message), post := .finished Run.failureCode }
  | hear {log : Option Place} {s : Supervision} {notice : Notice}
      (hpost : c.post = .listening log s) :
      Step plan c (.hear notice) { c with
        bench := c.bench.hear log notice, post := .looking log (s.note c.bench.host.now notice) }
  | meddle {op : Job.Operation} (hop : op.isForeign = true) :
      Step plan c (.meddle op) { c with bench := c.bench.operate op }
  | world {host : Machine.Host} :
      Step plan c (.world host) { c with bench := { c.bench with host } }

theorem verdict?_eq_terminate {s : Supervision} {now : Nat} {canceled : Bool}
    (h : s.verdict? now canceled = some .terminate) : canceled = true := by
  unfold Supervision.verdict? at h
  cases canceled with
  | true => rfl
  | false =>
    rw [if_neg Bool.false_ne_true] at h
    split at h
    · split_ifs at h
      cases h
    · cases h

theorem step_launch (plan : Plan) {c : Course} {log : Option Place} {call : List String}
    (hpost : c.post = .launching log call) : Step plan c .work (c.launch plan log call) := by
  unfold Course.launch
  split_ifs with hempty
  · exact .refuse hpost
  · split
    · exact .refuse hpost
    · exact .launch hpost

theorem step_judge (plan : Plan) {c : Course} {log : Option Place} {s : Supervision}
    (hpost : c.post = .looking log s) : Step plan c .work
      (c.judge log s (s.verdict? c.bench.host.now c.bench.job.cancelRequested)) := by
  cases hverdict : s.verdict? c.bench.host.now c.bench.job.cancelRequested with
  | none => exact .listen hpost
  | some verdict =>
    cases verdict with
    | terminate => exact .terminate hpost (verdict?_eq_terminate hverdict)
    | finished code => exact .exit hpost

theorem step_of_work? {plan : Plan} {c next : Course} (h : c.work? plan = some next) :
    Step plan c .work next := by
  unfold work? at h
  split at h
  · next hpost =>
    split at h
    · next fault hwords =>
      cases h
      exact .invalid hpost hwords
    · next words hwords =>
      cases h
      exact .prepare hpost hwords
  · next message hpost =>
    cases h
    exact .report hpost
  · next code hpost =>
    split at h
    · next hahead =>
      cases h
      exact .finish hpost hahead
    · next call ahead hahead =>
      split_ifs at h with hcanceled
      · cases h
        exact .skip hpost hcanceled
      · cases h
        exact .next hpost hahead (by simpa using hcanceled)
  · next call hpost =>
    cases h
    exact .openLog hpost
  · next log call hpost =>
    cases h
    exact .announce hpost
  · next log call hpost =>
    split_ifs at h with hcanceled
    · cases h
      exact .withdraw hpost hcanceled
    · cases h
      exact .confirm hpost (by simpa using hcanceled)
  · next log call hpost =>
    cases h
    exact step_launch plan hpost
  · next log s hpost =>
    cases h
    exact step_judge plan hpost
  · next hpost =>
    cases h
    exact .stop hpost
  · next log message hpost =>
    cases h
    exact .fail hpost
  · next message hpost =>
    cases h
    exact .explain hpost
  · contradiction
  · contradiction

theorem step_of_make? {plan : Plan} {c next : Course} {move : Move}
    (h : c.make? plan move = some next) : Step plan c move next := by
  cases move with
  | work => exact step_of_work? h
  | hear notice =>
    unfold make? at h
    dsimp only at h
    split at h
    · next log s hpost =>
      cases h
      exact .hear hpost
    · contradiction
  | meddle op =>
    rw [make?] at h
    split_ifs at h with hop
    cases h
    exact .meddle hop
  | world host =>
    cases h
    exact .world

end Course

end Toolchain

end FirmwareJobs

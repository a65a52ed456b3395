import FirmwareJobs.Client.Follow
import FirmwareJobs.Observe.Tail
import FirmwareJobs.Proofs.Job.Waiting

/-! # A follower and its job

A follower asks for the next page of lines, and the job answers at once or when the follower is
woken. Between these turns the job goes on with its work, which writes every line to the log file
and publishes it.
-/

namespace FirmwareJobs.Client

open Job Observe

inductive Stage where
  | asking (f : Follow)
  | waiting (f : Follow) (listener : Nat)
  | ended (output : String)
  deriving DecidableEq

/-- A job with its log file, and a follower with the offsets it has asked for and the lines it has
printed. -/
structure Dialogue where
  job : Job
  file : List UInt8
  stage : Stage
  asked : List Nat
  printed : List String

inductive Turn where
  | work (op : Job.Operation)
  | request
  | wake

namespace Dialogue

def begin (job : Job) : Dialogue := ⟨job, [], .asking {}, [], []⟩

/-- What a published line adds to the log file. -/
def fileEntry (op : Job.Operation) : List UInt8 :=
  match op.line? with
  | some line => Text.Utf8.ofString line ++ [Log.newline]
  | none => []

/-- The offset that the server reads from a request of the follower. -/
def offset (f : Follow) : Nat := startOffset (some (f.since : Int))

/-- The most lines of a page if the request names no limit. -/
def pageSize : Nat := waitLimit none

def answer (d : Dialogue) (f : Follow) (a : Answer) : Dialogue :=
  match f.step (.ok ⟨a.record, a.lines, a.next⟩) with
  | .onward lines next => { d with stage := .asking next, printed := d.printed ++ lines }
  | .retry _ next => { d with stage := .asking next }
  | .ended lines output => { d with stage := .ended output, printed := d.printed ++ lines }

def request (d : Dialogue) (f : Follow) : Dialogue :=
  let d := { d with asked := d.asked ++ [f.since] }
  match poll d.job (some d.file) (offset f) pageSize with
  | (.answered a, job) => { d with job }.answer f a
  | (.waiting listener, job) => { d with job, stage := .waiting f listener }

def wake (d : Dialogue) (f : Follow) (listener : Nat) : Dialogue :=
  let (a, job) := Observe.wake d.job (some d.file) listener (offset f) pageSize
  { d with job }.answer f a

/-- One turn. A request or a wake that is out of order does nothing. -/
def take (d : Dialogue) : Turn → Dialogue
  | .work op => { d with job := d.job.apply op, file := d.file ++ fileEntry op }
  | .request =>
    match d.stage with
    | .asking f => d.request f
    | _ => d
  | .wake =>
    match d.stage with
    | .waiting f listener => d.wake f listener
    | _ => d

def run (d : Dialogue) (turns : List Turn) : Dialogue := turns.foldl take d

@[simp] theorem run_nil (d : Dialogue) : d.run [] = d := rfl

@[simp] theorem run_concat (d : Dialogue) (turns : List Turn) (t : Turn) :
    d.run (turns ++ [t]) = (d.run turns).take t := List.foldl_concat _ _ _ _

end Dialogue

def Turn.work? : Turn → Option Job.Operation
  | .work op => some op
  | .request | .wake => none

/-- The work done in some turns. -/
def work (turns : List Turn) : List Job.Operation := turns.filterMap Turn.work?

@[simp] theorem work_nil : work [] = [] := rfl

@[simp] theorem work_work (turns : List Turn) (op : Job.Operation) :
    work (turns ++ [.work op]) = work turns ++ [op] := by
  simp [work, Turn.work?]

theorem work_talk (turns : List Turn) {t : Turn} (h : t.work? = none) :
    work (turns ++ [t]) = work turns := by
  simp [work, h]

/-! ## What a turn does -/

namespace Dialogue

theorem offset_eq (f : Follow) : offset f = f.since := by
  simp [offset, startOffset]

theorem answer_of_terminal (d : Dialogue) (f : Follow) {a : Answer}
    (h : a.record.state.isTerminal = true) :
    d.answer f a =
      { d with stage := .ended (describe a.record), printed := d.printed ++ a.lines } := by
  simp [answer, Follow.step, h]

theorem answer_of_live (d : Dialogue) (f : Follow) {a : Answer}
    (h : a.record.state.isTerminal = false) :
    d.answer f a = { d with stage := .asking ⟨a.next, 0⟩, printed := d.printed ++ a.lines } := by
  simp [answer, Follow.step, h]

theorem take_request {d : Dialogue} {f : Follow} (h : d.stage = .asking f) :
    d.take .request = d.request f := by
  simp [take, h]

theorem take_wake {d : Dialogue} {f : Follow} {listener : Nat} (h : d.stage = .waiting f listener) :
    d.take .wake = d.wake f listener := by
  simp [take, h]

theorem take_request_idle {d : Dialogue} (h : ∀ f, d.stage ≠ .asking f) :
    d.take .request = d := by
  cases hstage : d.stage with
  | asking f => exact absurd hstage (h f)
  | waiting => simp [take, hstage]
  | ended => simp [take, hstage]

theorem take_wake_idle {d : Dialogue} (h : ∀ f listener, d.stage ≠ .waiting f listener) :
    d.take .wake = d := by
  cases hstage : d.stage with
  | waiting f listener => exact absurd hstage (h f listener)
  | asking => simp [take, hstage]
  | ended => simp [take, hstage]

/-- A poll is answered from the job as it is, or the job goes on with one more listener. -/
theorem poll_cases (job : Job) (file : Option (List UInt8)) (since limit : Nat) :
    poll job file since limit =
        (.answered (resolve file (job.replay since limit) job.record since limit), job) ∨
      job.isTerminal = false ∧
        poll job file since limit = (.waiting job.nextListener, job.listen.2) := by
  rcases watch_cases job since limit with hw | ⟨hlive, hw⟩
  · left
    simp only [poll, hw]
  · right
    simp only [poll, hw, hlive, and_self]

theorem wake_eq {job : Job} (h : job.Truthful) (file : Option (List UInt8))
    (listener since limit : Nat) :
    Observe.wake job file listener since limit =
      (resolve file (job.replay since limit) job.record since limit,
        (job.receive listener).2.leave listener) := by
  have hsame := sameCore_receive job listener
  have hreplay : ((job.receive listener).2.leave listener).replay since limit =
      job.replay since limit := by
    change (job.receive listener).2.log.after since limit = job.log.after since limit
    rw [hsame.log]
  have hrecord : ((job.receive listener).2.leave listener).record = job.record := hsame.record
  unfold Observe.wake
  cases hreceipt : (job.receive listener).1 with
  | pending => simp only [hreceipt, hreplay, hrecord]
  | closed => simp only [hreceipt, hreplay, hrecord]
  | event x =>
    cases x with
    | line number text => simp only [hreceipt, hreplay, hrecord]
    | done r => simp only [hreceipt, hreplay, (h r (awaits_of_receipt hreceipt)).2]

end Dialogue

end FirmwareJobs.Client

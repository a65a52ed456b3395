import FirmwareJobs.Proofs.Engine.Directory
import FirmwareJobs.Proofs.Engine.Table
import FirmwareJobs.Proofs.Job.Waiting
import FirmwareJobs.Proofs.Job.Worker

/-!
# A shift of the engine

A shift is an engine at work from its opening on: requests come at any time and are served in
stages, the worker goes on between the stages, the toolchain publishes lines and changes files, and
listeners come and go. What has been answered and started so far is kept beside the engine.
-/

namespace FirmwareJobs

open Files Time

/-- What a request under way has still to do. -/
inductive Errand where
  | save (record : Record)
  | enroll (record : Record)
  | close (position : Nat) (record : Record)
  | tell (position : Nat) (record : Record)
  deriving DecidableEq

/-- The ids of the jobs whose submission was answered, for which the toolchain was started, and
whose cancellation was answered with an ended job. The answers about the jobs in `undone` came to
nothing, as the last crash came before the canceled record was saved. -/
structure Chronicle where
  accepted : List String := []
  launched : List String := []
  dismissed : List String := []
  undone : List String := []
  deriving DecidableEq

namespace Errand

/-- The id of the job that a submission is about to add. -/
def newId? : Errand → Option String
  | .save record | .enroll record => some record.id
  | .close .. | .tell .. => none

/-- The job that a cancellation is about to have ended. -/
def position? : Errand → Option Nat
  | .close position _ | .tell position _ => some position
  | .save _ | .enroll _ => none

end Errand

structure Shift where
  engine : Engine
  files : Tree
  errands : List Errand := []
  /-- The positions of the jobs that were begun, in this order. -/
  started : List Nat := []
  chronicle : Chronicle := {}

namespace Job.Operation

/-- What the toolchain does to its job. -/
def isToil : Operation → Bool
  | .publish .. | .setPid _ | .setSummary _ => true
  | _ => false

/-- What listeners do to a job. -/
def isListening : Operation → Bool
  | .attach | .watch .. | .replay .. | .receive _ | .leave _ => true
  | _ => false

end Job.Operation

/-- What can happen next. The worker ends a job with the given code. To `halt` is to let the worker
stop without asking the running job to end, which a cancellation may do later. -/
inductive Move where
  | submit (request : Request) (id : String) (now : Instant)
  | cancel (id : String) (now : Instant)
  | serve (errand : Errand)
  | start
  | halt
  | stop (now : Instant)
  | work (code : Int32) (now : Instant)
  | toil (op : Job.Operation)
  | listen (position : Nat) (op : Job.Operation)
  | change (files : Tree)

namespace Shift

def store (s : Shift) : Store := s.engine.store

/-- A shift at its start. -/
def opening (engine : Engine) (files : Tree) (chronicle : Chronicle) : Shift :=
  { engine, files, chronicle }

/-! ## Moves -/

def submit (s : Shift) (request : Request) (id : String) (now : Instant) : Shift :=
  match s.engine.prepare s.files request id now with
  | .ok (record, files) => { s with files, errands := s.errands ++ [.save record] }
  | .error _ => s

def dismiss (s : Shift) (id : String) : Shift :=
  { s with chronicle := { s.chronicle with dismissed := s.chronicle.dismissed ++ [id] } }

@[simp] theorem engine_dismiss (s : Shift) (id : String) : (s.dismiss id).engine = s.engine := rfl

def cancel (s : Shift) (id : String) (now : Instant) : Shift :=
  match s.engine.withdraw id now with
  | .ok (.canceled record, position, engine) =>
    { s with engine, errands := s.errands ++ [.close position record] }
  | .ok (.unchanged record, _, engine) => { s with engine }.dismiss record.id
  | .ok (.requested _ _, _, engine) => { s with engine }
  | .error _ => s

/-- Do the next thing for a request under way. -/
def serve (s : Shift) (errand : Errand) : Shift :=
  let s := { s with errands := s.errands.erase errand }
  match errand with
  | .save record =>
    match s.store.save s.files record with
    | (.ok (), files) => { s with files, errands := s.errands ++ [.enroll record] }
    | (.error _, files) => { s with files }
  | .enroll record =>
    { s with
      engine := s.engine.enroll record
      chronicle := { s.chronicle with accepted := s.chronicle.accepted ++ [record.id] } }
  | .close position record =>
    let (engine, files) := s.engine.persist s.files record
    { s with engine, files, errands := s.errands ++ [.tell position record] }
  | .tell position record => { s with engine := s.engine.notify position }.dismiss record.id

theorem serve_save_cases (s : Shift) (r : Record) :
    (∃ files, s.store.save s.files r = (.ok (), files) ∧
      s.serve (.save r) =
        { s with files, errands := s.errands.erase (.save r) ++ [.enroll r] }) ∨
    ∃ fault files, s.store.save s.files r = (.error fault, files) ∧
      s.serve (.save r) = { s with files, errands := s.errands.erase (.save r) } := by
  unfold serve store
  dsimp only
  rcases s.engine.store.save s.files r with ⟨outcome, files⟩
  cases outcome with
  | ok => exact .inl ⟨files, rfl, rfl⟩
  | error fault => exact .inr ⟨fault, files, rfl, rfl⟩

theorem serve_enroll (s : Shift) (r : Record) : s.serve (.enroll r) =
    { s with
      engine := s.engine.enroll r
      errands := s.errands.erase (.enroll r)
      chronicle := { s.chronicle with accepted := s.chronicle.accepted ++ [r.id] } } := by
  unfold serve
  rfl

theorem serve_close (s : Shift) (p : Nat) (r : Record) : s.serve (.close p r) =
    { s with
      engine := (s.engine.persist s.files r).1
      files := (s.engine.persist s.files r).2
      errands := s.errands.erase (.close p r) ++ [.tell p r] } := by
  unfold serve
  rfl

theorem serve_tell (s : Shift) (p : Nat) (r : Record) : s.serve (.tell p r) =
    dismiss { s with
      engine := s.engine.notify p
      errands := s.errands.erase (.tell p r) } r.id := by
  unfold serve
  rfl

/-- The next step of the worker. -/
def work (s : Shift) (code : Int32) (now : Instant) : Shift :=
  match s.engine.worker with
  | .absent | .stopped => s
  | .idle => (s.engine.takeNext?).elim s fun engine => { s with engine }
  | .taken position =>
    (s.engine.beginTaken? now).elim s fun engine =>
      { s with
        engine
        started := if engine.worker = .begun position then s.started ++ [position]
          else s.started }
  | .begun position =>
    (s.engine.saveBegun? s.files).elim s fun (engine, files) =>
      { s with
        engine, files
        chronicle := { s.chronicle with
          launched := s.chronicle.launched ++ ((s.engine.jobs[position]?).map Job.id).toList } }
  | .working _ => (s.engine.endWork? code now).elim s fun engine => { s with engine }
  | .ended _ =>
    (s.engine.saveEnded? s.files).elim s fun (engine, files) => { s with engine, files }
  | .saved _ => (s.engine.notifySaved?).elim s fun engine => { s with engine }

/-- Let something happen to the job at a position. -/
def alter (s : Shift) (position : Nat) (op : Job.Operation) : Shift :=
  match s.engine.jobs[position]? with
  | some job => { s with engine := s.engine.setJob position (job.apply op) }
  | none => s

def apply (s : Shift) : Move → Shift
  | .submit request id now => s.submit request id now
  | .cancel id now => s.cancel id now
  | .serve errand => if errand ∈ s.errands then s.serve errand else s
  | .start =>
    match s.engine.start with
    | .ok engine => { s with engine }
    | .error _ => s
  | .halt => { s with engine := { s.engine with isStopping := true } }
  | .stop now => { s with engine := s.engine.beginStop now }
  | .work code now => s.work code now
  | .toil op =>
    match s.engine.worker with
    | .working position => s.alter position op
    | _ => s
  | .listen position op => s.alter position op
  | .change files => { s with files }

def run (s : Shift) (moves : List Move) : Shift := moves.foldl apply s

@[simp] theorem run_nil (s : Shift) : s.run [] = s := rfl

@[simp] theorem run_cons (s : Shift) (m : Move) (moves : List Move) :
    s.run (m :: moves) = (s.apply m).run moves := rfl

/-! ## What may be expected of the others -/

/-- No job has the id and none is about to get it. -/
def IsFresh (s : Shift) (id : String) : Prop :=
  (∀ job ∈ s.engine.jobs, job.id ≠ id) ∧ ∀ errand ∈ s.errands, errand.newId? ≠ some id

instance (s : Shift) (id : String) : Decidable (s.IsFresh id) :=
  inferInstanceAs (Decidable (_ ∧ _))

/-- The job on which the toolchain works. -/
def toiling? (s : Shift) : Option Job :=
  match s.engine.worker with
  | .working position => s.engine.jobs[position]?
  | _ => none

/-- A new id is fresh, the toolchain and the listeners do what they can do, and whoever changes
files leaves the job directory alone, except for the log of the job that the toolchain works on. -/
def Permits (s : Shift) : Move → Prop
  | .submit _ id _ => Store.IsId id ∧ s.IsFresh id
  | .toil op => op.isToil = true
  | .listen _ op => op.isListening = true
  | .change files => s.store.Stands files ∧ ∀ name, IsName name →
      (∀ job, s.toiling? = some job → name ≠ Store.logName job.id) →
      s.store.content? files name = s.store.content? s.files name
  | .cancel .. | .serve _ | .start | .halt | .stop _ | .work .. => True

def Lawful (s : Shift) : List Move → Prop
  | [] => True
  | m :: moves => s.Permits m ∧ (s.apply m).Lawful moves

end Shift

/-! ## Steps -/

/-- Something has happened to a job that changes neither its record nor its log, and announces no
end. -/
structure Job.Touched (j k : Job) : Prop where
  record : k.record = j.record
  log : k.log = j.log
  cancelRequested : j.state = .queued → k.cancelRequested = j.cancelRequested
  done : ∀ r, k.Awaits (.done r) → j.Awaits (.done r)

namespace Job

theorem Touched.refl (j : Job) : Touched j j := ⟨rfl, rfl, fun _ => rfl, fun _ h => h⟩

theorem Touched.state {j k : Job} (h : Touched j k) : k.state = j.state :=
  congrArg Record.state h.record

theorem Touched.trans {i j k : Job} (h : Touched i j) (h' : Touched j k) : Touched i k where
  record := h'.record.trans h.record
  log := h'.log.trans h.log
  cancelRequested hq := (h'.cancelRequested (h.state.trans hq)).trans (h.cancelRequested hq)
  done r hr := h.done r (h'.done r hr)

end Job

/-- Jobs have been touched, and the engine may have been told to stop. -/
structure Engine.Touched (e f : Engine) : Prop where
  settings : f.settings = e.settings
  table : f.table = e.table
  queue : f.queue = e.queue
  worker : f.worker = e.worker
  faults : f.faults = e.faults
  isStopping : e.isStopping = true → f.isStopping = true
  length : f.jobs.length = e.jobs.length
  jobs : ∀ (p : Nat) (k : Job), f.jobs[p]? = some k →
    ∃ j, e.jobs[p]? = some j ∧ Job.Touched j k

namespace Shift

open Store in
/-- Everything that a permitted move can do. -/
inductive Step (s : Shift) : Shift → Prop where
  | touch {engine : Engine} (h : s.engine.Touched engine) : Step s { s with engine }
  | toil {p : Nat} {j k : Job} (hworker : s.engine.worker = .working p)
      (hjob : s.engine.jobs[p]? = some j)
      (hrecord : k.record = { j.record with errorSummary := k.record.errorSummary })
      (hdone : ∀ r, k.Awaits (.done r) → j.Awaits (.done r)) :
      Step s { s with engine := s.engine.setJob p k }
  | change {files : Tree} (hstands : s.store.Stands files)
      (hsame : ∀ name, IsName name → (∀ job, s.toiling? = some job → name ≠ logName job.id) →
        s.store.content? files name = s.store.content? s.files name) : Step s { s with files }
  | order {r : Record} {files : Tree} (hid : IsId r.id) (hfresh : s.IsFresh r.id)
      (hstate : r.state = .queued) (hstart : r.startedAt = none)
      (hlog : s.store.createLog s.files r.id = .ok files) :
      Step s { s with files, errands := s.errands ++ [.save r] }
  | save {r : Record} {files : Tree} (hmem : .save r ∈ s.errands)
      (hsave : s.store.save s.files r = (.ok (), files)) :
      Step s { s with files, errands := s.errands.erase (.save r) ++ [.enroll r] }
  | refuse {r : Record} {files : Tree} {fault : Fault} (hmem : .save r ∈ s.errands)
      (hsave : s.store.save s.files r = (.error fault, files)) :
      Step s { s with files, errands := s.errands.erase (.save r) }
  | enroll {r : Record} (hmem : .enroll r ∈ s.errands) :
      Step s { s with
        engine := s.engine.enroll r
        errands := s.errands.erase (.enroll r)
        chronicle := { s.chronicle with accepted := s.chronicle.accepted ++ [r.id] } }
  | excuse {p : Nat} {j : Job} (hjob : s.engine.jobs[p]? = some j) (hend : j.isTerminal = true) :
      Step s (s.dismiss j.id)
  | withdraw {p : Nat} {j : Job} (now : Instant) (hjob : s.engine.jobs[p]? = some j)
      (hqueued : j.state = .queued) :
      Step s { s with
        engine := s.engine.setJob p
          { j with cancelRequested := true, record := Job.canceledRecord j.record now }
        errands := s.errands ++ [.close p (Job.canceledRecord j.record now)] }
  | close {p : Nat} {r : Record} (hmem : .close p r ∈ s.errands) :
      Step s { s with
        engine := (s.engine.persist s.files r).1
        files := (s.engine.persist s.files r).2
        errands := s.errands.erase (.close p r) ++ [.tell p r] }
  | tell {p : Nat} {r : Record} (hmem : .tell p r ∈ s.errands) :
      Step s ({ s with
        engine := s.engine.notify p, errands := s.errands.erase (.tell p r) }.dismiss r.id)
  | start (hworker : s.engine.worker = .absent) :
      Step s { s with engine := { s.engine with worker := .idle } }
  | rest (hworker : s.engine.worker = .idle) (hstop : s.engine.isStopping = true) :
      Step s { s with engine := { s.engine with worker := .stopped } }
  | take {p : Nat} {queue : List Nat} (hworker : s.engine.worker = .idle)
      (hgoing : s.engine.isStopping = false) (hqueue : s.engine.queue = p :: queue) :
      Step s { s with engine := { s.engine with queue, worker := .taken p } }
  | skip {p : Nat} (hworker : s.engine.worker = .taken p)
      (hbarred : ∀ j, s.engine.jobs[p]? = some j → j.IsBarred) :
      Step s { s with engine := { s.engine with worker := .idle } }
  | begin {p : Nat} {j k : Job} (hworker : s.engine.worker = .taken p)
      (hjob : s.engine.jobs[p]? = some j) (hqueued : j.state = .queued) (now : Instant)
      (hk : k = { j with record := { j.record with state := .running, startedAt := some now } }) :
      Step s { s with
        engine := { s.engine.setJob p k with worker := .begun p }
        started := s.started ++ [p] }
  | launch {p : Nat} {j : Job} (hworker : s.engine.worker = .begun p)
      (hjob : s.engine.jobs[p]? = some j) :
      Step s { s with
        engine := ({ s.engine with worker := .working p }.persist s.files j.record).1
        files := ({ s.engine with worker := .working p }.persist s.files j.record).2
        chronicle := { s.chronicle with launched := s.chronicle.launched ++ [j.id] } }
  | finish {p : Nat} {j : Job} (hworker : s.engine.worker = .working p)
      (hjob : s.engine.jobs[p]? = some j) (code : Int32) (now : Instant) :
      Step s { s with
        engine := { s.engine.setJob p (j.finish code now) with worker := .ended p } }
  | archive {p : Nat} {j : Job} (hworker : s.engine.worker = .ended p)
      (hjob : s.engine.jobs[p]? = some j) :
      Step s { s with
        engine := ({ s.engine with worker := .saved p }.persist s.files j.record).1
        files := ({ s.engine with worker := .saved p }.persist s.files j.record).2 }
  | report {p : Nat} {j : Job} (hworker : s.engine.worker = .saved p)
      (hjob : s.engine.jobs[p]? = some j) :
      Step s { s with engine := { s.engine.setJob p j.notifyDone with worker := .idle } }

end Shift

/-! ## Touching jobs -/

namespace Job

theorem touched_apply {j : Job} {op : Operation} (h : op.isListening = true) :
    Touched j (j.apply op) := by
  have hcore : SameCore j (j.apply op) := by
    cases op <;> first | contradiction | exact sameCore_apply j rfl
  refine ⟨hcore.record, hcore.log, fun _ => hcore.cancelRequested, fun r hr => ?_⟩
  rcases awaits_apply hr with hold | ⟨line, -, hline⟩ | ⟨rfl, -, -⟩
  · exact hold
  · exact nomatch hline
  · contradiction

theorem record_toil {j : Job} {op : Operation} (h : op.isToil = true) :
    (j.apply op).record = { j.record with errorSummary := (j.apply op).record.errorSummary } := by
  cases op <;> first | contradiction | rfl

theorem done_toil {j : Job} {op : Operation} (h : op.isToil = true) (r : Record)
    (hr : (j.apply op).Awaits (.done r)) : j.Awaits (.done r) := by
  rcases awaits_apply hr with hold | ⟨line, -, hline⟩ | ⟨rfl, -, -⟩
  · exact hold
  · exact nomatch hline
  · contradiction

theorem touched_requestCancel {j : Job} (now : Instant) (h : j.state ≠ .queued) :
    Touched j (j.requestCancel now).2 := by
  rcases j.state_cases with hq | hr | ht
  · exact absurd hq h
  · rw [requestCancel_of_running now hr]
    exact ⟨rfl, rfl, fun hq => absurd hq h, fun _ hd => hd⟩
  · rw [requestCancel_of_terminal now ht]
    exact .refl j

end Job

namespace Engine

theorem Touched.refl (e : Engine) : Touched e e :=
  ⟨rfl, rfl, rfl, rfl, rfl, id, rfl, fun _ k hk => ⟨k, hk, .refl k⟩⟩

theorem Touched.trans {e f g : Engine} (h : e.Touched f) (h' : f.Touched g) : e.Touched g where
  settings := h'.settings.trans h.settings
  table := h'.table.trans h.table
  queue := h'.queue.trans h.queue
  worker := h'.worker.trans h.worker
  faults := h'.faults.trans h.faults
  isStopping hs := h'.isStopping (h.isStopping hs)
  length := h'.length.trans h.length
  jobs p k hk := by
    obtain ⟨j, hj, hjk⟩ := h'.jobs p k hk
    obtain ⟨i, hi, hij⟩ := h.jobs p j hj
    exact ⟨i, hi, hij.trans hjk⟩

theorem Touched.ids {e f : Engine} (h : e.Touched f) : f.ids = e.ids := by
  refine List.ext_getElem? fun p => ?_
  rw [Engine.ids, Engine.ids, List.getElem?_map, List.getElem?_map]
  cases hk : f.jobs[p]? with
  | none =>
    rw [List.getElem?_eq_none_iff, h.length, ← List.getElem?_eq_none_iff] at hk
    rw [hk]
  | some k =>
    obtain ⟨j, hj, hjk⟩ := h.jobs p k hk
    rw [hj, Option.map_some, Option.map_some, Job.id, Job.id, hjk.record]

theorem Touched.exists {e f : Engine} (h : e.Touched f) {p : Nat} {j : Job}
    (hj : e.jobs[p]? = some j) : ∃ k, f.jobs[p]? = some k ∧ Job.Touched j k := by
  have hp := (List.getElem?_eq_some_iff.1 hj).1
  have hk := List.getElem?_eq_getElem (h.length ▸ hp)
  obtain ⟨i, hi, hik⟩ := h.jobs p _ hk
  rw [hj] at hi
  exact ⟨_, hk, Option.some.inj hi ▸ hik⟩

theorem touched_setJob {e : Engine} {p : Nat} {j k : Job} (hjob : e.jobs[p]? = some j)
    (h : Job.Touched j k) : e.Touched (e.setJob p k) := by
  refine ⟨rfl, rfl, rfl, rfl, rfl, id, length_setJob e p k, fun q x hx => ?_⟩
  rw [getElem?_setJob hjob] at hx
  split at hx
  · next hq => exact ⟨j, hq ▸ hjob, Option.some.inj hx ▸ h⟩
  · exact ⟨x, hx, .refl x⟩

theorem touched_requestCancels (now : Instant) (positions : List Nat) :
    ∀ e : Engine, (∀ p ∈ positions, ∀ j, e.jobs[p]? = some j → j.state ≠ .queued) →
      e.Touched (positions.foldl (fun e p =>
        match e.jobs[p]? with
        | some job => e.setJob p (job.requestCancel now).2
        | none => e) e) := by
  induction positions with
  | nil => exact fun e _ => .refl e
  | cons p positions ih =>
    intro e hpositions
    rw [List.foldl_cons]
    cases hjob : e.jobs[p]? with
    | none => exact ih e fun q hq => hpositions q (List.mem_cons_of_mem p hq)
    | some job =>
      have htouched := touched_setJob hjob
        (Job.touched_requestCancel now (hpositions p List.mem_cons_self job hjob))
      refine htouched.trans (ih _ fun q hq k hk => ?_)
      obtain ⟨j, hj, hjk⟩ := htouched.jobs q k hk
      rw [hjk.state]
      exact hpositions q (List.mem_cons_of_mem p hq) j hj

theorem touched_halt (e : Engine) : e.Touched { e with isStopping := true } :=
  ⟨rfl, rfl, rfl, rfl, rfl, fun _ => rfl, rfl, fun _ k hk => ⟨k, hk, .refl k⟩⟩

theorem touched_beginStop (e : Engine) (now : Instant) :
    e.Touched (e.beginStop now) ∧ (e.beginStop now).isStopping = true := by
  have hcancels : Touched { e with isStopping := true } (e.beginStop now) := by
    unfold beginStop
    refine touched_requestCancels now _ _ fun p hp j hj => ?_
    obtain ⟨⟨id, q⟩, -, hq⟩ := List.mem_filterMap.1 hp
    dsimp only at hq
    split at hq
    · next job hjob =>
      obtain ⟨hrunning, hqp⟩ := Option.ite_none_right_eq_some.1 hq
      obtain rfl := Option.some.inj hqp
      obtain rfl : job = j := Option.some.inj (hjob.symm.trans hj)
      rw [hrunning]
      decide
    · contradiction
  exact ⟨e.touched_halt.trans hcancels, hcancels.isStopping rfl⟩

/-! ## Requests -/

theorem prepare_eq_ok {e : Engine} {files files' : Tree} {request : Request} {id : String}
    {now : Instant} {r : Record} (h : e.prepare files request id now = .ok (r, files')) :
    r.id = id ∧ r.state = .queued ∧ r.startedAt = none ∧
      e.store.createLog files id = .ok files' := by
  unfold prepare at h
  split at h
  · contradiction
  · split_ifs at h
    split at h
    · contradiction
    · next hlog =>
      obtain ⟨rfl, rfl⟩ := Prod.mk.inj (Except.ok.inj h)
      exact ⟨rfl, rfl, rfl, hlog⟩

theorem withdraw_cases (e : Engine) (id : String) (now : Instant) :
    (∃ fault, e.withdraw id now = .error fault) ∨
      ∃ p j, e.position? id = some p ∧ e.jobs[p]? = some j ∧
        e.withdraw id now =
          .ok ((j.requestCancel now).1, p, e.setJob p (j.requestCancel now).2) := by
  unfold withdraw
  split
  · exact .inl ⟨_, rfl⟩
  · next p hp =>
    split
    · exact .inl ⟨_, rfl⟩
    · next j hj => exact .inr ⟨p, j, hp, hj, rfl⟩

end Engine

namespace Shift

theorem step_submit (s : Shift) {request : Request} {id : String} {now : Instant}
    (hid : Store.IsId id) (hfresh : s.IsFresh id) :
    s.submit request id now = s ∨ s.Step (s.submit request id now) := by
  unfold submit
  split
  · next r files hprepare =>
    obtain ⟨rfl, hstate, hstart, hlog⟩ := Engine.prepare_eq_ok hprepare
    exact .inr (.order hid hfresh hstate hstart hlog)
  · exact .inl rfl

theorem step_cancel (s : Shift) (id : String) (now : Instant) :
    s.cancel id now = s ∨ s.Step (s.cancel id now) := by
  unfold cancel
  rcases s.engine.withdraw_cases id now with ⟨fault, h⟩ | ⟨p, j, -, hj, h⟩
  · rw [h]
    exact .inl rfl
  · rw [h]
    rcases j.state_cases with hq | hr | ht
    · rw [Job.requestCancel_of_queued now hq]
      exact .inr (.withdraw now hj hq)
    · have htouched := Engine.touched_setJob hj
        (Job.touched_requestCancel now (hr ▸ by decide : j.state ≠ .queued))
      rw [Job.requestCancel_of_running now hr] at htouched ⊢
      exact .inr (.touch htouched)
    · have hsame : s.engine.setJob p j = s.engine := by
        obtain ⟨hlt, rfl⟩ := List.getElem?_eq_some_iff.1 hj
        rw [Engine.setJob, List.set_getElem_self]
      rw [Job.requestCancel_of_terminal now ht]
      dsimp only
      rw [hsame]
      exact .inr (.excuse hj ht)

theorem step_serve (s : Shift) {errand : Errand} (h : errand ∈ s.errands) :
    s.Step (s.serve errand) := by
  cases errand with
  | save r =>
    rcases s.serve_save_cases r with ⟨files, hsave, hserve⟩ | ⟨fault, files, hsave, hserve⟩ <;>
      rw [hserve]
    · exact .save h hsave
    · exact .refuse h hsave
  | enroll r => exact .enroll h
  | close p r => exact .close h
  | tell p r => exact .tell h

theorem step_take (s : Shift) (hworker : s.engine.worker = .idle) (code : Int32) (now : Instant) :
    s.work code now = s ∨ s.Step (s.work code now) := by
  unfold work
  simp only [hworker, Engine.takeNext?, ne_eq, not_true_eq_false, if_false]
  by_cases hstop : s.engine.isStopping = true
  · rw [if_pos hstop]
    exact .inr (.rest hworker hstop)
  · rw [if_neg hstop]
    cases hqueue : s.engine.queue with
    | nil => exact .inl rfl
    | cons p queue => exact .inr (.take hworker (by simpa using hstop) hqueue)

theorem step_begin (s : Shift) {p : Nat} (hworker : s.engine.worker = .taken p) (code : Int32)
    (now : Instant) : s.Step (s.work code now) := by
  unfold work
  simp only [hworker, Engine.beginTaken?]
  cases hbegin : (s.engine.jobs[p]?).bind (·.begin? now) with
  | none =>
    refine .skip hworker fun j hj => ?_
    by_contra hbarred
    rw [Job.IsBarred, not_or, not_not, Bool.not_eq_true] at hbarred
    rw [hj, Option.bind_some, Job.begin?_of_startable now hbarred.1 hbarred.2] at hbegin
    contradiction
  | some k =>
    obtain ⟨j, hj, hk⟩ := Option.bind_eq_some_iff.1 hbegin
    obtain ⟨hqueued, -, hk⟩ := Job.begin?_eq_some hk
    dsimp only [Option.elim_some]
    rw [if_pos rfl]
    exact .begin hworker hj hqueued now hk

theorem step_work (s : Shift) (code : Int32) (now : Instant) :
    s.work code now = s ∨ s.Step (s.work code now) := by
  cases hworker : s.engine.worker with
  | absent | stopped => exact .inl (by rw [work, hworker])
  | idle => exact s.step_take hworker code now
  | taken p => exact .inr (s.step_begin hworker code now)
  | begun p =>
    unfold work
    simp only [hworker, Engine.saveBegun?]
    cases hjob : s.engine.jobs[p]? with
    | none => exact .inl rfl
    | some j => exact .inr (.launch hworker hjob)
  | working p =>
    unfold work
    simp only [hworker, Engine.endWork?]
    cases hjob : s.engine.jobs[p]? with
    | none => exact .inl rfl
    | some j => exact .inr (.finish hworker hjob code now)
  | ended p =>
    unfold work
    simp only [hworker, Engine.saveEnded?]
    cases hjob : s.engine.jobs[p]? with
    | none => exact .inl rfl
    | some j => exact .inr (.archive hworker hjob)
  | saved p =>
    unfold work
    simp only [hworker, Engine.notifySaved?]
    cases hjob : s.engine.jobs[p]? with
    | none => exact .inl rfl
    | some j => exact .inr (.report hworker hjob)

/-- A permitted move is a step or changes nothing. -/
theorem step_apply (s : Shift) {m : Move} (h : s.Permits m) :
    s.apply m = s ∨ s.Step (s.apply m) := by
  cases m with
  | submit request id now => exact s.step_submit h.1 h.2
  | cancel id now => exact s.step_cancel id now
  | serve errand =>
    rw [apply]
    split_ifs with hmem
    · exact .inr (s.step_serve hmem)
    · exact .inl rfl
  | start =>
    by_cases hworker : s.engine.worker = .absent
    · refine .inr ?_
      rw [apply, Engine.start, if_pos hworker]
      exact .start hworker
    · refine .inl ?_
      rw [apply, Engine.start, if_neg hworker]
  | halt => exact .inr (.touch s.engine.touched_halt)
  | stop now => exact .inr (.touch (s.engine.touched_beginStop now).1)
  | work code now => exact s.step_work code now
  | toil op =>
    rw [apply]
    split
    · next p hworker =>
      rw [alter]
      split
      · next j hjob => exact .inr (.toil hworker hjob (Job.record_toil h) (Job.done_toil h))
      · exact .inl rfl
    · exact .inl rfl
  | listen p op =>
    rw [apply, alter]
    split
    · next j hjob => exact .inr (.touch (Engine.touched_setJob hjob (Job.touched_apply h)))
    · exact .inl rfl
  | change files => exact .inr (.change h.1 h.2)

/-- What every step preserves holds after every lawful run. -/
theorem run_induction {P : Shift → Prop} (hstep : ∀ s s', P s → Step s s' → P s') {s : Shift}
    (hs : P s) {moves : List Move} (h : s.Lawful moves) : P (s.run moves) := by
  induction moves generalizing s with
  | nil => exact hs
  | cons m moves ih =>
    refine ih ?_ h.2
    rcases s.step_apply h.1 with hsame | hnext
    · rw [hsame]
      exact hs
    · exact hstep _ _ hs hnext

/-! ## Requests in one go -/

theorem erase_concat {α : Type} [DecidableEq α] {a : α} {l : List α} (h : a ∉ l) :
    (l ++ [a]).erase a = l := by
  rw [List.erase_append_right _ h, List.erase_cons_head, List.append_nil]

theorem mem_erase_concat {α : Type} [DecidableEq α] {a b x : α} {l : List α} (hx : x ∈ l)
    (hne : x ≠ a) : x ∈ l.erase a ++ [b] :=
  List.mem_append_left _ ((List.mem_erase_of_ne hne).2 hx)

/-- The stages of a submission with nothing in between are what the engine does to submit a job. -/
theorem run_submit {s : Shift} {request : Request} {id : String} {now : Instant} {r : Record}
    {engine : Engine} {files : Tree} (hfresh : s.IsFresh id)
    (h : s.engine.submit s.files request id now = (.ok r, engine, files)) :
    s.run [.submit request id now, .serve (.save r), .serve (.enroll r)] =
      { s with
        engine, files
        chronicle := { s.chronicle with accepted := s.chronicle.accepted ++ [r.id] } } := by
  unfold Engine.submit at h
  split at h
  · exact nomatch (Prod.mk.inj h).1
  · next record ordered hprepare =>
    split at h
    · exact nomatch (Prod.mk.inj h).1
    · next saved hsave =>
      obtain ⟨hr, hrest⟩ := Prod.mk.inj h
      obtain ⟨rfl, rfl⟩ := Prod.mk.inj hrest
      obtain rfl := Except.ok.inj hr
      obtain ⟨rfl, -⟩ := Engine.prepare_eq_ok hprepare
      have hnew : ∀ errand ∈ s.errands, errand.newId? ≠ some record.id := hfresh.2
      have hsaveNew : Errand.save record ∉ s.errands := fun hmem => hnew _ hmem rfl
      have henrollNew : Errand.enroll record ∉ s.errands := fun hmem => hnew _ hmem rfl
      have hserve : serve { s with files := ordered, errands := s.errands ++ [.save record] }
          (.save record) = { s with files := saved, errands := s.errands ++ [.enroll record] } := by
        rcases serve_save_cases { s with files := ordered, errands := s.errands ++ [.save record] }
          record with ⟨files, hok, hserve⟩ | ⟨fault, files, hfail, -⟩
        · obtain rfl := (Prod.mk.inj (hsave.symm.trans hok)).2
          rw [hserve, erase_concat hsaveNew]
        · exact absurd (Prod.mk.inj (hsave.symm.trans hfail)).1 (by simp)
      simp only [run_cons, run_nil, apply, submit, hprepare, List.mem_append, List.mem_singleton,
        or_true, if_true, hserve, serve_enroll, erase_concat henrollNew]

/-- The stages of a cancellation with nothing in between are what the engine does to cancel a job
that waits. -/
theorem run_cancel {s : Shift} {id : String} {now : Instant} {p : Nat} {j : Job}
    (hp : s.engine.position? id = some p) (hj : s.engine.jobs[p]? = some j)
    (hqueued : j.state = .queued) (hidle : ∀ errand ∈ s.errands, errand.position? ≠ some p) :
    ∃ engine files, s.engine.cancel s.files id now =
        (.ok (Job.canceledRecord j.record now), engine, files) ∧
      s.run [.cancel id now, .serve (.close p (Job.canceledRecord j.record now)),
          .serve (.tell p (Job.canceledRecord j.record now))] =
        ({ s with engine, files }).dismiss j.id := by
  have hwithdraw : s.engine.withdraw id now = .ok (.canceled (Job.canceledRecord j.record now), p,
      s.engine.setJob p
        { j with cancelRequested := true, record := Job.canceledRecord j.record now }) := by
    rw [Engine.withdraw, hp]
    dsimp only
    rw [hj]
    dsimp only
    rw [Job.requestCancel_of_queued now hqueued]
  have hcloseNew : ∀ r, Errand.close p r ∉ s.errands := fun r hmem => hidle _ hmem rfl
  have htellNew : ∀ r, Errand.tell p r ∉ s.errands := fun r hmem => hidle _ hmem rfl
  refine ⟨_, _, by rw [Engine.cancel, hwithdraw], ?_⟩
  simp only [run_cons, run_nil, apply, cancel, hwithdraw, List.mem_append, List.mem_singleton,
    or_true, if_true, serve_close, serve_tell, erase_concat (hcloseNew _),
    erase_concat (htellNew _)]
  rfl

end Shift

end FirmwareJobs

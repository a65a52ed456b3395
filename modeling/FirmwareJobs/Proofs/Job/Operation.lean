import FirmwareJobs.Job.Live
import FirmwareJobs.Proofs.Log.Retention

/-! # Operations on a live job

Everything that the engine and the observers of a job do to it, as steps of one machine. A run
applies a list of operations in order. The log of a job follows from the lines published in the
run, and its record changes only by starting, finishing, canceling and setting a summary.
-/

namespace FirmwareJobs.Job

open Time

inductive Operation where
  | publish (line : String) (origin : Origin)
  | start (now : Instant)
  | finish (code : Int32) (now : Instant)
  | cancel (now : Instant)
  | setPid (pid : Option Nat)
  | setSummary (summary : String)
  | notifyDone
  | attach
  | watch (since limit : Nat)
  | replay (since limit : Nat)
  | receive (listener : Nat)
  | leave (listener : Nat)
  deriving DecidableEq

/-- The job after one operation; a replay only looks at it. -/
def apply (j : Job) : Operation → Job
  | .publish line origin => j.publish line origin
  | .start now => (j.begin? now).getD j
  | .finish code now => j.finish code now
  | .cancel now => (j.requestCancel now).2
  | .setPid pid => j.setPid pid
  | .setSummary summary => j.setSummary summary
  | .notifyDone => j.notifyDone
  | .attach => j.attach.2.2
  | .watch since limit => (j.watch since limit).2
  | .replay _ _ => j
  | .receive listener => (j.receive listener).2
  | .leave listener => j.leave listener

def run (j : Job) (ops : List Operation) : Job := ops.foldl apply j

@[simp] theorem run_nil (j : Job) : j.run [] = j := rfl

@[simp] theorem run_cons (j : Job) (op : Operation) (ops : List Operation) :
    j.run (op :: ops) = (j.apply op).run ops := rfl

@[simp] theorem run_append (j : Job) (ops more : List Operation) :
    j.run (ops ++ more) = (j.run ops).run more := List.foldl_append

/-- A property holds after the whole run, or some operation was the first to end it. -/
theorem holds_or_stops {P : Job → Prop} {j : Job} (ops : List Operation) (h : P j) :
    P (j.run ops) ∨ ∃ before op after, ops = before ++ op :: after ∧ P (j.run before) ∧
      ¬ P ((j.run before).apply op) := by
  induction ops using List.reverseRecOn with
  | nil => exact .inl h
  | append_singleton ops op ih =>
    rcases ih with hholds | ⟨before, stop, after, rfl, hbefore, hstop⟩
    · by_cases hnext : P ((j.run ops).apply op)
      · exact .inl (by simpa using hnext)
      · exact .inr ⟨ops, op, [], rfl, hholds, hnext⟩
    · exact .inr ⟨before, stop, after ++ [op], by simp, hbefore, hstop⟩

namespace Operation

def line? : Operation → Option String
  | .publish line _ => some line
  | _ => none

end Operation

/-- The lines that a run publishes. -/
def published (ops : List Operation) : List String := ops.filterMap Operation.line?

@[simp] theorem published_nil : published [] = [] := rfl

@[simp] theorem published_append (ops more : List Operation) :
    published (ops ++ more) = published ops ++ published more := List.filterMap_append

theorem published_cons (op : Operation) (ops : List Operation) :
    published (op :: ops) = published [op] ++ published ops :=
  published_append [op] ops

theorem published_singleton_of_none {op : Operation} (h : op.line? = none) :
    published [op] = [] := by
  simp [published, h]

/-! ## What an operation changes -/

theorem begin?_eq_some {j next : Job} {now : Instant} (h : j.begin? now = some next) :
    j.state = .queued ∧ j.cancelRequested = false ∧
      next = { j with record := { j.record with state := .running, startedAt := some now } } := by
  unfold begin? at h
  split at h
  · rename_i hq
    exact ⟨hq.1, by simpa using hq.2, by simpa using h.symm⟩
  · contradiction

theorem finish_of_terminal {j : Job} (code : Int32) (now : Instant) (h : j.isTerminal = true) :
    j.finish code now = j := by
  rw [finish, if_pos h]

/-- The record with which a job ends that has not ended yet. -/
def finalRecord (j : Job) (code : Int32) (now : Instant) : Record :=
  if j.cancelRequested then canceledRecord j.record now
  else if code = 0 then
    { j.record with
      state := .success, exitCode := some 0, errorSummary := "", endedAt := some now }
  else
    { j.record with
      state := .failed, exitCode := some code, endedAt := some now
      errorSummary := if j.record.errorSummary = "" then j.lastLine else j.record.errorSummary }

theorem finish_of_live {j : Job} (code : Int32) (now : Instant) (h : j.isTerminal = false) :
    j.finish code now = { j with record := j.finalRecord code now } := by
  rw [finish, if_neg (by simp [h]), finalRecord]
  split_ifs <;> rfl

theorem requestCancel_of_terminal {j : Job} (now : Instant) (h : j.isTerminal = true) :
    j.requestCancel now = (.unchanged j.record, j) := by
  rw [requestCancel, if_pos h]

theorem requestCancel_of_queued {j : Job} (now : Instant) (h : j.state = .queued) :
    j.requestCancel now = (.canceled (canceledRecord j.record now),
      { j with cancelRequested := true, record := canceledRecord j.record now }) := by
  have hr : j.record.state = .queued := h
  simp [requestCancel, isTerminal, state, hr, State.isTerminal]

theorem requestCancel_of_running {j : Job} (now : Instant) (h : j.state = .running) :
    j.requestCancel now = (.requested j.record j.pid, { j with cancelRequested := true }) := by
  have hr : j.record.state = .running := h
  simp [requestCancel, isTerminal, state, hr, State.isTerminal]

theorem apply_start (j : Job) (now : Instant) :
    j.apply (.start now) = j ∨ j.state = .queued ∧ j.cancelRequested = false ∧
      j.apply (.start now) =
        { j with record := { j.record with state := .running, startedAt := some now } } := by
  change (j.begin? now).getD j = j ∨ _ ∧ _ ∧ (j.begin? now).getD j = _
  cases hb : j.begin? now with
  | none => exact .inl rfl
  | some next => exact .inr (begin?_eq_some hb)

theorem apply_finish (j : Job) (code : Int32) (now : Instant) :
    j.isTerminal = true ∧ j.apply (.finish code now) = j ∨
      j.isTerminal = false ∧
        j.apply (.finish code now) = { j with record := j.finalRecord code now } := by
  cases hend : j.isTerminal with
  | true => exact .inl ⟨rfl, finish_of_terminal code now hend⟩
  | false => exact .inr ⟨rfl, finish_of_live code now hend⟩

theorem state_cases (j : Job) :
    j.state = .queued ∨ j.state = .running ∨ j.isTerminal = true := by
  unfold isTerminal state
  cases j.record.state <;> simp [State.isTerminal]

theorem apply_cancel (j : Job) (now : Instant) :
    j.isTerminal = true ∧ j.apply (.cancel now) = j ∨
      j.state = .running ∧ j.apply (.cancel now) = { j with cancelRequested := true } ∨
      j.state = .queued ∧ j.apply (.cancel now) =
        { j with cancelRequested := true, record := canceledRecord j.record now } := by
  change _ ∧ (j.requestCancel now).2 = _ ∨ _ ∧ (j.requestCancel now).2 = _ ∨
    _ ∧ (j.requestCancel now).2 = _
  rcases j.state_cases with h | h | h
  · exact .inr (.inr ⟨h, by rw [requestCancel_of_queued now h]⟩)
  · exact .inr (.inl ⟨h, by rw [requestCancel_of_running now h]⟩)
  · exact .inl ⟨h, by rw [requestCancel_of_terminal now h]⟩

theorem attach_of_terminal {j : Job} (h : j.isTerminal = true) :
    j.attach = (j.log.recent, none, j) := by
  simp [attach, h]

theorem attach_of_live {j : Job} (h : j.isTerminal = false) :
    j.attach = (j.log.recent, some j.nextListener, j.listen.2) := by
  simp [attach, h, listen]

theorem attach_fst (j : Job) : j.attach.1 = j.log.recent := by
  cases h : j.isTerminal with
  | true => rw [attach_of_terminal h]
  | false => rw [attach_of_live h]

theorem watch_cases (j : Job) (since limit : Nat) :
    j.watch since limit = (.ready (j.replay since limit), j) ∨
      j.isTerminal = false ∧
        j.watch since limit = (.pending j.nextListener, j.listen.2) := by
  unfold watch
  by_cases h : j.isTerminal = true ∨
      (j.replay since limit ≠ .upToDate ∧ j.replay since limit ≠ .empty)
  · left
    simp only [if_pos h]
  · right
    simp only [if_neg h, listen, and_true]
    simpa using fun ht => h (.inl ht)

theorem attach_cases (j : Job) :
    j.attach.2.2 = j ∨ j.isTerminal = false ∧ j.attach.2.2 = j.listen.2 := by
  cases h : j.isTerminal with
  | true => exact .inl (by rw [attach_of_terminal h])
  | false => exact .inr ⟨rfl, by rw [attach_of_live h]⟩

theorem notifyDone_of_silent {j : Job} (h : j.doneSent = true ∨ j.isTerminal = false) :
    j.notifyDone = j := by
  rw [notifyDone, if_pos (by simpa using h)]

theorem notifyDone_of_due {j : Job} (hsent : j.doneSent = false) (hend : j.isTerminal = true) :
    j.notifyDone = { j with
      doneSent := true, mailboxes := j.mailboxes.map (Mailbox.postLast (.done j.record)) } := by
  rw [notifyDone, if_neg (by simp [hsent, hend])]

/-- Operations of listeners and messages to them leave the rest of the job alone. -/
structure SameCore (j next : Job) : Prop where
  record : next.record = j.record
  cancelRequested : next.cancelRequested = j.cancelRequested
  lastLine : next.lastLine = j.lastLine
  log : next.log = j.log

theorem SameCore.refl (j : Job) : SameCore j j := ⟨rfl, rfl, rfl, rfl⟩

theorem sameCore_receive (j : Job) (listener : Nat) : SameCore j (j.receive listener).2 := by
  unfold receive
  cases j.mailboxes.find? (·.id == listener) with
  | none => exact .refl j
  | some m => exact ⟨rfl, rfl, rfl, rfl⟩

theorem sameCore_notifyDone (j : Job) : SameCore j j.notifyDone := by
  unfold notifyDone
  split
  · exact .refl j
  · exact ⟨rfl, rfl, rfl, rfl⟩

theorem sameCore_attach (j : Job) : SameCore j j.attach.2.2 := by
  rcases attach_cases j with h | ⟨-, h⟩
  · rw [h]; exact .refl j
  · rw [h]; exact ⟨rfl, rfl, rfl, rfl⟩

theorem sameCore_watch (j : Job) (since limit : Nat) : SameCore j (j.watch since limit).2 := by
  rcases watch_cases j since limit with h | ⟨-, h⟩
  · rw [h]; exact .refl j
  · rw [h]; exact ⟨rfl, rfl, rfl, rfl⟩

namespace Operation

/-- The operations that can change the record, the flag, the last line or the log of a job. -/
def isCore : Operation → Bool
  | .publish .. | .start _ | .finish .. | .cancel _ | .setSummary _ => true
  | _ => false

end Operation

theorem sameCore_apply (j : Job) {op : Operation} (h : op.isCore = false) :
    SameCore j (j.apply op) := by
  cases op with
  | publish | start | finish | cancel | setSummary => contradiction
  | setPid => exact ⟨rfl, rfl, rfl, rfl⟩
  | notifyDone => exact sameCore_notifyDone j
  | attach => exact sameCore_attach j
  | watch since limit => exact sameCore_watch j since limit
  | replay => exact .refl j
  | receive listener => exact sameCore_receive j listener
  | leave => exact ⟨rfl, rfl, rfl, rfl⟩

/-! ## The log -/

theorem log_apply (j : Job) (op : Operation) :
    (j.apply op).log = j.log.pushAll (published [op]) := by
  cases op with
  | publish line origin => rfl
  | start now =>
    rcases j.apply_start now with h | ⟨-, -, h⟩ <;> rw [h] <;> rfl
  | finish code now =>
    rcases j.apply_finish code now with ⟨-, h⟩ | ⟨-, h⟩ <;> rw [h] <;> rfl
  | cancel now =>
    rcases j.apply_cancel now with ⟨-, h⟩ | ⟨-, h⟩ | ⟨-, h⟩ <;> rw [h] <;> rfl
  | setSummary summary => rfl
  | setPid | notifyDone | attach | watch | replay | receive | leave =>
    exact (sameCore_apply j rfl).log

/-- The window of a job holds what the run has published. -/
theorem log_run (j : Job) (ops : List Operation) :
    (j.run ops).log = j.log.pushAll (published ops) := by
  induction ops generalizing j with
  | nil => rfl
  | cons op ops ih =>
    rw [run_cons, ih, log_apply, published_cons op ops, Log.Window.pushAll_append]

theorem log_run_ofRecord (record : Record) (capacity : Nat) (ops : List Operation) :
    ((ofRecord record capacity).run ops).log = .holding capacity (published ops) := by
  rw [log_run]
  exact Log.Window.pushAll_ofCapacity capacity (published ops)

/-! ## The end of a job -/

theorem ne_queued_of_terminal {j : Job} (h : j.isTerminal = true) : j.state ≠ .queued := by
  intro hq
  have hr : j.record.state = .queued := hq
  simp [isTerminal, hr, State.isTerminal] at h

theorem record_apply_of_terminal {j : Job} {op : Operation} (h : j.isTerminal = true)
    (hop : ∀ summary, op ≠ .setSummary summary) : (j.apply op).record = j.record := by
  cases op with
  | publish line origin => rfl
  | start now =>
    rcases j.apply_start now with hs | ⟨hq, -, -⟩
    · rw [hs]
    · exact absurd hq (ne_queued_of_terminal h)
  | finish code now =>
    change (j.finish code now).record = j.record
    rw [finish_of_terminal code now h]
  | cancel now =>
    change (j.requestCancel now).2.record = j.record
    rw [requestCancel_of_terminal now h]
  | setSummary summary => exact absurd rfl (hop summary)
  | setPid | notifyDone | attach | watch | replay | receive | leave =>
    exact (sameCore_apply j rfl).record

theorem isTerminal_apply {j : Job} (op : Operation) (h : j.isTerminal = true) :
    (j.apply op).isTerminal = true := by
  by_cases hop : ∃ summary, op = .setSummary summary
  · obtain ⟨summary, rfl⟩ := hop
    exact h
  · rw [isTerminal, record_apply_of_terminal h (by simpa using hop)]
    exact h

theorem isTerminal_run {j : Job} (ops : List Operation) (h : j.isTerminal = true) :
    (j.run ops).isTerminal = true := by
  induction ops generalizing j with
  | nil => exact h
  | cons op ops ih => exact ih (isTerminal_apply op h)

theorem record_run_of_terminal {j : Job} {ops : List Operation} (h : j.isTerminal = true)
    (hops : ∀ summary, .setSummary summary ∉ ops) : (j.run ops).record = j.record := by
  induction ops generalizing j with
  | nil => rfl
  | cons op ops ih =>
    have hop : ∀ summary, op ≠ .setSummary summary := fun summary he =>
      hops summary (he ▸ List.mem_cons_self)
    have hrest : ∀ summary, .setSummary summary ∉ ops := fun summary hm =>
      hops summary (List.mem_cons_of_mem _ hm)
    rw [run_cons, ih (isTerminal_apply op h) hrest]
    exact record_apply_of_terminal h hop

/-! ## A record for concrete runs -/

def noon : Instant := ⟨⟨2024, 1, 1⟩, 43200, 0, by decide⟩

def specimen : Record := .fresh "a" "name: lamp" .compile "" false noon

end FirmwareJobs.Job

import FirmwareJobs.Proofs.Job.Worker

/-! # How a job ends

Until a job ends, its record collects the start and the summary, and the job remembers its last
output line and whether someone asked to cancel it. The operation that ends the job completes the
record from these, and under a worker nothing changes the record any more.
-/

namespace FirmwareJobs.Job

open Time

/-- The last output line that is not empty; the engine's own lines do not count. -/
def lastOutput (ops : List Operation) : String :=
  ((ops.filterMap Operation.output?).getLast?).getD ""

/-- The last summary that was set. -/
def lastSummary (ops : List Operation) : String :=
  ((ops.filterMap Operation.summary?).getLast?).getD ""

def wasCanceled (ops : List Operation) : Bool := ops.any Operation.isCancel

theorem lastOutput_concat (ops : List Operation) (op : Operation) :
    lastOutput (ops ++ [op]) = op.output?.getD (lastOutput ops) := by
  cases h : op.output? with
  | none => simp [lastOutput, h]
  | some line => simp [lastOutput, h]

theorem lastSummary_concat (ops : List Operation) (op : Operation) :
    lastSummary (ops ++ [op]) = op.summary?.getD (lastSummary ops) := by
  cases h : op.summary? with
  | none => simp [lastSummary, h]
  | some summary => simp [lastSummary, h]

theorem wasCanceled_append (ops more : List Operation) :
    wasCanceled (ops ++ more) = (wasCanceled ops || wasCanceled more) := List.any_append

theorem wasCanceled_concat (ops : List Operation) (op : Operation) :
    wasCanceled (ops ++ [op]) = (wasCanceled ops || op.isCancel) := by
  rw [wasCanceled_append]
  simp [wasCanceled]

/-! ## Until a job ends -/

/-- What a job that was made fresh has collected while it has not ended. -/
structure Collected (ops : List Operation) (j : Job) : Prop where
  lastLine : j.lastLine = lastOutput ops
  cancelRequested : j.cancelRequested = wasCanceled ops
  errorSummary : j.record.errorSummary = lastSummary ops
  endedAt : j.record.endedAt = none
  exitCode : j.record.exitCode = none
  startedAt : j.state = .running ↔ j.record.startedAt.isSome = true

theorem Collected.next {ops : List Operation} {j next : Job} {op : Operation}
    (h : Collected ops j) (hline : next.lastLine = op.output?.getD j.lastLine)
    (hcancel : next.cancelRequested = (j.cancelRequested || op.isCancel))
    (hsummary : next.record.errorSummary = op.summary?.getD j.record.errorSummary)
    (hended : next.record.endedAt = none) (hcode : next.record.exitCode = none)
    (hstarted : next.state = .running ↔ next.record.startedAt.isSome = true) :
    Collected (ops ++ [op]) next := by
  refine ⟨?_, ?_, ?_, hended, hcode, hstarted⟩
  · rw [lastOutput_concat, hline, h.lastLine]
  · rw [wasCanceled_concat, hcancel, h.cancelRequested]
  · rw [lastSummary_concat, hsummary, h.errorSummary]

theorem Collected.of_sameCore {ops : List Operation} {j next : Job} {op : Operation}
    (h : Collected ops j) (hsame : SameCore j next) (hop : op.isCore = false) :
    Collected (ops ++ [op]) next := by
  have hquiet : op.output? = none ∧ op.summary? = none ∧ op.isCancel = false := by
    cases op with
    | publish | setSummary | cancel => contradiction
    | _ => exact ⟨rfl, rfl, rfl⟩
  obtain ⟨houtput, hsummary, hcancel⟩ := hquiet
  apply h.next
  · rw [hsame.lastLine, houtput, Option.getD_none]
  · rw [hsame.cancelRequested, hcancel, Bool.or_false]
  · rw [hsame.record, hsummary, Option.getD_none]
  · rw [hsame.record, h.endedAt]
  · rw [hsame.record, h.exitCode]
  · rw [state, hsame.record]
    exact h.startedAt

theorem collected_fresh (id document : String) (action : Action) (device : String) (clean : Bool)
    (now : Instant) (capacity : Nat) :
    Collected [] (ofRecord (.fresh id document action device clean now) capacity) := by
  refine ⟨rfl, rfl, rfl, rfl, rfl, ?_⟩
  simp [ofRecord, Record.fresh, state]

theorem isTerminal_eq_false {j : Job} {op : Operation} (h : (j.apply op).isTerminal = false) :
    j.isTerminal = false := by
  by_contra hend
  rw [isTerminal_apply op (by simpa using hend)] at h
  contradiction

theorem collected_apply {ops : List Operation} {j : Job} (op : Operation) (h : Collected ops j)
    (hlive : (j.apply op).isTerminal = false) : Collected (ops ++ [op]) (j.apply op) := by
  cases op with
  | publish line origin =>
    refine h.next ?_ (Bool.or_false _).symm rfl h.endedAt h.exitCode h.startedAt
    cases origin with
    | output => by_cases hempty : line = "" <;> simp [apply, publish, Operation.output?, hempty]
    | engine => rfl
  | start now =>
    rcases j.apply_start now with hs | ⟨-, -, hs⟩ <;> rw [hs]
    · exact h.next rfl (Bool.or_false _).symm rfl h.endedAt h.exitCode h.startedAt
    · refine h.next rfl (Bool.or_false _).symm rfl h.endedAt h.exitCode ?_
      simp [state]
  | finish code now =>
    rw [apply, isTerminal_finish] at hlive
    contradiction
  | cancel now =>
    have hbefore := isTerminal_eq_false hlive
    rcases j.apply_cancel now with ⟨hend, -⟩ | ⟨-, hs⟩ | ⟨-, hs⟩
    · rw [hbefore] at hend
      contradiction
    · rw [hs]
      exact h.next rfl (Bool.or_true _).symm rfl h.endedAt h.exitCode h.startedAt
    · rw [hs] at hlive
      contradiction
  | setSummary summary =>
    exact h.next rfl (Bool.or_false _).symm rfl h.endedAt h.exitCode h.startedAt
  | setPid | notifyDone | attach | watch | replay | receive | leave =>
    exact h.of_sameCore (sameCore_apply j rfl) rfl

theorem collected_run {j : Job} (ops : List Operation) (h : Collected [] j)
    (hlive : (j.run ops).isTerminal = false) : Collected ops (j.run ops) := by
  induction ops using List.reverseRecOn with
  | nil => exact h
  | append_singleton ops op ih =>
    rw [run_append, run_cons, run_nil] at hlive ⊢
    exact collected_apply op (ih (isTerminal_eq_false hlive)) hlive

/-! ## The end of a job -/

/-- A live job ends by being canceled in the queue or by being finished. -/
theorem ending_cases {j : Job} {op : Operation} (hlive : j.isTerminal = false)
    (hend : (j.apply op).isTerminal = true) :
    (∃ now, op = .cancel now ∧ j.state = .queued ∧
      (j.apply op).record = canceledRecord j.record now) ∨
    ∃ code now, op = .finish code now ∧ (j.apply op).record = j.finalRecord code now := by
  have hsame {next : Job} (hstate : next.state = j.state) (hterminal : next.isTerminal = true) :
      False := by
    have hnext : j.state.isTerminal = true := hstate ▸ hterminal
    exact Bool.false_ne_true (hlive.symm.trans hnext)
  cases op with
  | cancel now =>
    rcases j.apply_cancel now with ⟨-, hs⟩ | ⟨-, hs⟩ | ⟨hq, hs⟩
    · exact (hsame (congrArg state hs) hend).elim
    · rw [hs] at hend
      exact (hsame rfl hend).elim
    · exact .inl ⟨now, rfl, hq, by rw [hs]⟩
  | finish code now =>
    exact .inr ⟨code, now, rfl, by rw [apply, finish_of_live code now hlive]⟩
  | start now =>
    rcases j.apply_start now with hs | ⟨-, -, hs⟩ <;> rw [hs] at hend
    · exact (hsame rfl hend).elim
    · contradiction
  | publish | setSummary => exact (hsame rfl hend).elim
  | setPid | notifyDone | attach | watch | replay | receive | leave =>
    exact (hsame (congrArg Record.state (sameCore_apply j rfl).record) hend).elim

theorem ends_or_lives {j : Job} (ops : List Operation) (hlive : j.isTerminal = false) :
    (j.run ops).isTerminal = false ∨ ∃ before op after, ops = before ++ op :: after ∧
      (j.run before).isTerminal = false ∧ ((j.run before).apply op).isTerminal = true := by
  simpa using holds_or_stops (P := fun j => j.isTerminal = false) ops hlive

theorem not_finished_of_live {j : Job} {ops : List Operation}
    (hlive : (j.run ops).isTerminal = false) : ∀ op ∈ ops, op.isFinish = false := by
  intro op hm
  cases op with
  | finish code now =>
    obtain ⟨before, after, rfl⟩ := List.append_of_mem hm
    have hend : ((j.run before).apply (.finish code now)).isTerminal = true :=
      isTerminal_finish _ code now
    rw [run_append, run_cons, isTerminal_run after hend] at hlive
    contradiction
  | _ => rfl

theorem Supervised.no_summary {j : Job} {before after : List Operation} {op : Operation}
    (h : j.Supervised (before ++ op :: after)) (hlive : (j.run before).isTerminal = false)
    (hend : ((j.run before).apply op).isTerminal = true) (summary : String) :
    .setSummary summary ∉ after := by
  intro hm
  obtain ⟨mid, rest, rfl⟩ := List.append_of_mem hm
  have hsplit : before ++ op :: (mid ++ .setSummary summary :: rest) =
      (before ++ op :: mid) ++ .setSummary summary :: rest := by simp
  rw [hsplit] at h
  obtain ⟨hbegun, hfinish⟩ := h.at_split
  rcases ending_cases hlive hend with ⟨now, rfl, hq, -⟩ | ⟨code, now, rfl, -⟩
  · apply hbegun
    rw [begun_append, begun_of_queued before hq, begun, begun_of_barred mid (isBarred_cancel _ now)]
    rfl
  · have hno := hfinish (.finish code now) (by simp)
    contradiction

/-- Once a job has ended, its record stays as it is. -/
theorem Supervised.frozen {j : Job} {before after : List Operation}
    (h : j.Supervised (before ++ after)) (hstart : j.isTerminal = false)
    (hend : (j.run before).isTerminal = true) :
    (j.run (before ++ after)).record = (j.run before).record := by
  rcases ends_or_lives before hstart with hlive | ⟨first, op, rest, rfl, hlive, hop⟩
  · rw [hlive] at hend
    contradiction
  · rw [List.append_assoc, List.cons_append] at h
    rw [run_append]
    refine record_run_of_terminal hend fun summary hm => ?_
    exact h.no_summary hlive hop summary (List.mem_append_right _ hm)

/-! ## What the record says -/

/-- The job was finished with this code, first after the operations `before`, and nobody had asked
to cancel it. -/
structure FinishedAfter (before ops : List Operation) (code : Int32) (r : Record) : Prop where
  split : ∃ now after, ops = before ++ .finish code now :: after ∧ r.endedAt = some now
  first : ∀ op ∈ before, op.isFinish = false
  uncanceled : wasCanceled before = false
  exitCode : r.exitCode = some code

/-- The members of a record agree with its state and with the operations that led to it. -/
structure Coherent (ops : List Operation) (r : Record) : Prop where
  queued : r.state = .queued → r.startedAt = none ∧ r.endedAt = none ∧ r.exitCode = none
  running : r.state = .running →
    r.startedAt.isSome = true ∧ r.endedAt = none ∧ r.exitCode = none
  success : r.state = .success → r.errorSummary = "" ∧ ∃ before, FinishedAfter before ops 0 r
  failed : r.state = .failed → ∃ before code, FinishedAfter before ops code r ∧ code ≠ 0 ∧
    r.errorSummary =
      if lastSummary before = "" then lastOutput before else lastSummary before
  canceled : r.state = .canceled → r.exitCode = some (-1) ∧ r.errorSummary = canceledSummary ∧
    r.endedAt.isSome = true ∧ wasCanceled ops = true

theorem Collected.coherent {ops : List Operation} {j : Job} (h : Collected ops j)
    (hlive : j.isTerminal = false) : Coherent ops j.record := by
  have hends {s : State} (hs : j.record.state = s) : s.isTerminal = false := hs ▸ hlive
  constructor
  · intro hs
    refine ⟨?_, h.endedAt, h.exitCode⟩
    have hnot : ¬ j.record.startedAt.isSome = true := fun hsome => by
      have hrunning : j.record.state = .running := h.startedAt.mpr hsome
      rw [hs] at hrunning
      contradiction
    simpa using hnot
  · exact fun hs => ⟨h.startedAt.mp hs, h.endedAt, h.exitCode⟩
  · exact fun hs => absurd (hends hs) (by decide)
  · exact fun hs => absurd (hends hs) (by decide)
  · exact fun hs => absurd (hends hs) (by decide)

theorem coherent_of_success {ops : List Operation} {r : Record} (hs : r.state = .success)
    (h : r.errorSummary = "" ∧ ∃ before, FinishedAfter before ops 0 r) : Coherent ops r :=
  ⟨by simp [hs], by simp [hs], fun _ => h, by simp [hs], by simp [hs]⟩

theorem coherent_of_failed {ops : List Operation} {r : Record} (hs : r.state = .failed)
    (h : ∃ before code, FinishedAfter before ops code r ∧ code ≠ 0 ∧ r.errorSummary =
      if lastSummary before = "" then lastOutput before else lastSummary before) :
    Coherent ops r :=
  ⟨by simp [hs], by simp [hs], by simp [hs], fun _ => h, by simp [hs]⟩

theorem coherent_canceledRecord {ops : List Operation} (r : Record) (now : Instant)
    (h : wasCanceled ops = true) : Coherent ops (canceledRecord r now) := by
  have hs : (canceledRecord r now).state = .canceled := rfl
  exact ⟨by simp [hs], by simp [hs], by simp [hs], by simp [hs], fun _ => ⟨rfl, rfl, rfl, h⟩⟩

theorem coherent_finalRecord {before after : List Operation} {j : Job} {code : Int32}
    {now : Instant} (h : Collected before j) (hfirst : ∀ op ∈ before, op.isFinish = false) :
    Coherent (before ++ .finish code now :: after) (j.finalRecord code now) := by
  by_cases hcancel : j.cancelRequested = true
  · rw [finalRecord, if_pos hcancel]
    apply coherent_canceledRecord
    rw [h.cancelRequested] at hcancel
    rw [wasCanceled_append, hcancel, Bool.true_or]
  · have huncanceled : wasCanceled before = false := by
      rw [← h.cancelRequested]
      simpa using hcancel
    rw [finalRecord, if_neg hcancel]
    by_cases hcode : code = 0
    · subst hcode
      rw [if_pos rfl]
      apply coherent_of_success rfl
      exact ⟨rfl, before, ⟨now, after, rfl, rfl⟩, hfirst, huncanceled, rfl⟩
    · rw [if_neg hcode, h.lastLine, h.errorSummary]
      apply coherent_of_failed rfl
      exact ⟨before, code, ⟨⟨now, after, rfl, rfl⟩, hfirst, huncanceled, rfl⟩, hcode, rfl⟩

theorem Supervised.coherent {j : Job} {ops : List Operation} (h : j.Supervised ops)
    (hfresh : Collected [] j) (hstart : j.isTerminal = false) :
    Coherent ops (j.run ops).record := by
  rcases ends_or_lives ops hstart with hlive | ⟨before, op, after, rfl, hlive, hend⟩
  · exact (collected_run ops hfresh hlive).coherent hlive
  · have hcollected := collected_run before hfresh hlive
    have hrecord : (j.run (before ++ op :: after)).record = ((j.run before).apply op).record := by
      rw [run_append, run_cons]
      exact record_run_of_terminal hend (h.no_summary hlive hend)
    rw [hrecord]
    rcases ending_cases hlive hend with ⟨now, rfl, -, hop⟩ | ⟨code, now, rfl, hop⟩
    · rw [hop]
      apply coherent_canceledRecord
      simp [wasCanceled, Operation.isCancel]
    · rw [hop]
      exact coherent_finalRecord hcollected (not_finished_of_live hlive)

end FirmwareJobs.Job

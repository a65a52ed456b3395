import FirmwareJobs.Proofs.Job.Worker

/-! # The core of a job

Listeners do not influence what a job does: two jobs with the same record, flag, last line and log
stay alike under the same operations.
-/

namespace FirmwareJobs.Job

open Time

theorem SameCore.symm {j k : Job} (h : SameCore j k) : SameCore k j :=
  ⟨h.record.symm, h.cancelRequested.symm, h.lastLine.symm, h.log.symm⟩

theorem SameCore.trans {i j k : Job} (h : SameCore i j) (h' : SameCore j k) : SameCore i k :=
  ⟨h'.record.trans h.record, h'.cancelRequested.trans h.cancelRequested,
    h'.lastLine.trans h.lastLine, h'.log.trans h.log⟩

theorem SameCore.state {j k : Job} (h : SameCore j k) : k.state = j.state :=
  congrArg Record.state h.record

theorem SameCore.isTerminal {j k : Job} (h : SameCore j k) : k.isTerminal = j.isTerminal :=
  congrArg (fun r => r.state.isTerminal) h.record

theorem SameCore.finalRecord {j k : Job} (h : SameCore j k) (code : Int32) (now : Instant) :
    k.finalRecord code now = j.finalRecord code now := by
  unfold Job.finalRecord
  rw [h.record, h.cancelRequested, h.lastLine]

/-- An operation does the same to jobs with the same core. -/
theorem SameCore.apply {j k : Job} (h : SameCore j k) (op : Operation) :
    SameCore (j.apply op) (k.apply op) := by
  cases op with
  | publish line origin =>
    refine ⟨h.record, h.cancelRequested, ?_, ?_⟩
    · change (if _ then line else k.lastLine) = if _ then line else j.lastLine
      rw [h.lastLine]
    · change k.log.push line = j.log.push line
      rw [h.log]
  | start now =>
    change SameCore ((j.begin? now).getD j) ((k.begin? now).getD k)
    by_cases hs : j.state = .queued ∧ j.cancelRequested = false
    · have hk : k.state = .queued ∧ k.cancelRequested = false := by
        rwa [h.state, h.cancelRequested]
      rw [begin?_of_startable now hs.1 hs.2, begin?_of_startable now hk.1 hk.2]
      refine ⟨?_, h.cancelRequested, h.lastLine, h.log⟩
      simp only [Option.getD_some, h.record]
    · have hj : j.IsBarred := by
        rw [not_and_or] at hs
        simpa [IsBarred] using hs
      have hk : k.IsBarred := isBarred_of_sameCore h hj
      rw [begin?_of_barred now hj, begin?_of_barred now hk]
      exact h
  | finish code now =>
    change SameCore (j.finish code now) (k.finish code now)
    cases hend : j.isTerminal with
    | true =>
      rw [finish_of_terminal code now hend, finish_of_terminal code now (h.isTerminal.trans hend)]
      exact h
    | false =>
      rw [finish_of_live code now hend, finish_of_live code now (h.isTerminal.trans hend)]
      exact ⟨h.finalRecord code now, h.cancelRequested, h.lastLine, h.log⟩
  | cancel now =>
    change SameCore (j.requestCancel now).2 (k.requestCancel now).2
    rcases j.state_cases with hs | hs | hs
    · rw [requestCancel_of_queued now hs, requestCancel_of_queued now (h.state.trans hs)]
      refine ⟨?_, rfl, h.lastLine, h.log⟩
      simp only [h.record]
    · rw [requestCancel_of_running now hs, requestCancel_of_running now (h.state.trans hs)]
      exact ⟨h.record, rfl, h.lastLine, h.log⟩
    · rw [requestCancel_of_terminal now hs,
        requestCancel_of_terminal now (h.isTerminal.trans hs)]
      exact h
  | setSummary summary =>
    refine ⟨?_, h.cancelRequested, h.lastLine, h.log⟩
    change { k.record with errorSummary := summary } = { j.record with errorSummary := summary }
    rw [h.record]
  | setPid | notifyDone | attach | watch | replay | receive | leave =>
    exact ((sameCore_apply j rfl).symm.trans h).trans (sameCore_apply k rfl)

end FirmwareJobs.Job

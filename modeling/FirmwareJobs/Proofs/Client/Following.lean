import FirmwareJobs.Proofs.Client.Dialogue
import FirmwareJobs.Proofs.Job.Core
import FirmwareJobs.Proofs.Job.Ending
import FirmwareJobs.Proofs.Observe.Tail
import Mathlib.Data.List.TakeDrop

/-! # What a follower prints

A follower prints the log of its job in order, page by page, as long as nothing is evicted. It stops
at the first answer with a record in a terminal state, so what is left of the log then is printed
only if it fits in that one page.
-/

namespace FirmwareJobs.Client

open Job Observe Time

/-- A run of the engine: only the worker finishes the job and sets summaries, and lines are
published before the job ends. -/
def Conducted (j : Job) (ops : List Job.Operation) : Prop :=
  Obeys (fun before op => j.Permits before op ∧
    (op.line?.isSome = true → (j.run before).isTerminal = false)) ops

instance (j : Job) (ops : List Job.Operation) : Decidable (Conducted j ops) :=
  inferInstanceAs (Decidable (Obeys _ ops))

theorem Conducted.supervised {j : Job} {ops : List Job.Operation} (h : Conducted j ops) :
    j.Supervised ops := Obeys.imp h fun _ _ hop => hop.1

theorem line?_of_ended {j : Job} {ops : List Job.Operation} {op : Job.Operation}
    (h : Conducted j (ops ++ [op])) (hend : (j.run ops).isTerminal = true) : op.line? = none := by
  by_contra hline
  have hlive := (Obeys.at_split h).2 (Option.isSome_iff_ne_none.mpr hline)
  rw [hend] at hlive
  contradiction

theorem ne_setSummary_of_ended {j : Job} {ops : List Job.Operation} {op : Job.Operation}
    (h : j.Supervised (ops ++ [op])) (hstart : j.isTerminal = false)
    (hend : (j.run ops).isTerminal = true) (summary : String) : op ≠ .setSummary summary := by
  rcases ends_or_lives ops hstart with hlive | ⟨before, last, after, rfl, hlive, hlast⟩
  · rw [hlive] at hend
    contradiction
  · rw [List.append_assoc, List.cons_append] at h
    rintro rfl
    exact h.no_summary hlive hlast summary (by simp)

/-! ## The state of a dialogue -/

/-- How far the follower has come in the log of a job whose record is `r`. -/
def OnStage (r : Record) (log : List String) (asked : List Nat) (printed : List String) :
    Stage → Prop
  | .asking f => f.since ≤ log.length ∧ printed = log.take f.since
  | .waiting f _ =>
    (f.since ≤ log.length ∧ printed = log.take f.since) ∧ asked.getLast? = some f.since
  | .ended output => r.state.isTerminal = true ∧ output = describe r ∧
    ∃ last, asked.getLast? = some last ∧ printed = log.take (last + Dialogue.pageSize)

/-- The job in a dialogue is the one that did the work, and the follower has printed what it was
sent. -/
structure Reading (j : Job) (ops : List Job.Operation) (d : Dialogue) : Prop where
  core : SameCore (j.run ops) d.job
  truthful : d.job.Truthful
  file : published ops = [] → d.file = []
  stage : OnStage (j.run ops).record (published ops) d.asked d.printed d.stage

theorem onStage_answer {d : Dialogue} {f : Follow} {r : Record} {log : List String}
    (hsince : f.since ≤ log.length) (hprinted : d.printed = log.take f.since)
    (hasked : d.asked.getLast? = some f.since) :
    OnStage r log (d.answer f (nextPage r log f.since Dialogue.pageSize)).asked
      (d.answer f (nextPage r log f.since Dialogue.pageSize)).printed
      (d.answer f (nextPage r log f.since Dialogue.pageSize)).stage := by
  have htake (count : Nat) :
      d.printed ++ (log.drop f.since).take count = log.take (f.since + count) := by
    rw [hprinted, List.take_add]
  cases hend : r.state.isTerminal with
  | true =>
    rw [Dialogue.answer_of_terminal d f (a := nextPage r log f.since Dialogue.pageSize) hend]
    exact ⟨hend, rfl, f.since, hasked, htake Dialogue.pageSize⟩
  | false =>
    rw [Dialogue.answer_of_live d f (a := nextPage r log f.since Dialogue.pageSize) hend]
    refine ⟨?_, ?_⟩
    · change f.since + min Dialogue.pageSize (log.length - f.since) ≤ log.length
      omega
    · change d.printed ++ (log.drop f.since).take Dialogue.pageSize =
        log.take (f.since + min Dialogue.pageSize (log.length - f.since))
      rw [← htake, ← List.length_drop, ← List.take_eq_take_min]

theorem job_answer (d : Dialogue) (f : Follow) (a : Answer) : (d.answer f a).job = d.job := by
  cases hend : a.record.state.isTerminal with
  | true => rw [Dialogue.answer_of_terminal d f hend]
  | false => rw [Dialogue.answer_of_live d f hend]

theorem file_answer (d : Dialogue) (f : Follow) (a : Answer) : (d.answer f a).file = d.file := by
  cases hend : a.record.state.isTerminal with
  | true => rw [Dialogue.answer_of_terminal d f hend]
  | false => rw [Dialogue.answer_of_live d f hend]

/-! ## What turns preserve -/

section

variable {record : Record} {capacity : Nat} {ops : List Job.Operation} {d : Dialogue}

/-- Nothing is evicted, so the job answers with the next page. -/
theorem resolve_of_reading (h : Reading (ofRecord record capacity) ops d)
    (hfew : (published ops).length ≤ capacity) {f : Follow}
    (hsince : f.since ≤ (published ops).length) :
    resolve (some d.file) (d.job.replay (Dialogue.offset f) Dialogue.pageSize) d.job.record
        (Dialogue.offset f) Dialogue.pageSize =
      nextPage ((ofRecord record capacity).run ops).record (published ops) f.since
        Dialogue.pageSize := by
  rw [Dialogue.offset_eq, replay, h.core.log, h.core.record, log_run_ofRecord]
  refine resolve_of_kept (some d.file) _ ?_ hsince (by decide) fun hnone _ => ?_
  · omega
  · rw [h.file hnone]
    rfl

theorem Reading.answer (h : Reading (ofRecord record capacity) ops d) {f : Follow}
    (hsince : f.since ≤ (published ops).length)
    (hprinted : d.printed = (published ops).take f.since)
    (hasked : d.asked.getLast? = some f.since) :
    Reading (ofRecord record capacity) ops
      (d.answer f (nextPage ((ofRecord record capacity).run ops).record (published ops) f.since
        Dialogue.pageSize)) where
  core := by rw [job_answer]; exact h.core
  truthful := by rw [job_answer]; exact h.truthful
  file := by rw [file_answer]; exact h.file
  stage := onStage_answer hsince hprinted hasked

theorem Reading.request (h : Reading (ofRecord record capacity) ops d)
    (hfew : (published ops).length ≤ capacity) {f : Follow} (hstage : d.stage = .asking f) :
    Reading (ofRecord record capacity) ops (d.request f) := by
  obtain ⟨hsince, hprinted⟩ : f.since ≤ (published ops).length ∧
      d.printed = (published ops).take f.since := by
    have hs := h.stage
    rwa [hstage] at hs
  have hasked : (d.asked ++ [f.since]).getLast? = some f.since := by simp
  unfold Dialogue.request
  rcases Dialogue.poll_cases d.job (some d.file) (Dialogue.offset f) Dialogue.pageSize with
    hpoll | ⟨-, hpoll⟩
  · have hnext : Reading (ofRecord record capacity) ops { d with asked := d.asked ++ [f.since] } :=
      ⟨h.core, h.truthful, h.file, by rw [hstage]; exact ⟨hsince, hprinted⟩⟩
    simp only [hpoll, resolve_of_reading h hfew hsince]
    exact hnext.answer hsince hprinted hasked
  · simp only [hpoll]
    exact ⟨h.core.trans ⟨rfl, rfl, rfl, rfl⟩, truthful_listen h.truthful, h.file,
      ⟨hsince, hprinted⟩, hasked⟩

theorem Reading.wake (h : Reading (ofRecord record capacity) ops d)
    (hfew : (published ops).length ≤ capacity) {f : Follow} {listener : Nat}
    (hstage : d.stage = .waiting f listener) :
    Reading (ofRecord record capacity) ops (d.wake f listener) := by
  obtain ⟨⟨hsince, hprinted⟩, hasked⟩ : (f.since ≤ (published ops).length ∧
      d.printed = (published ops).take f.since) ∧ d.asked.getLast? = some f.since := by
    have hs := h.stage
    rwa [hstage] at hs
  have hnext : Reading (ofRecord record capacity) ops
      { d with job := (d.job.receive listener).2.leave listener } := by
    have hreceive := h.core.trans (sameCore_receive d.job listener)
    exact ⟨hreceive.trans ⟨rfl, rfl, rfl, rfl⟩,
      truthful_leave (truthful_receive h.truthful listener) listener, h.file, h.stage⟩
  simp only [Dialogue.wake, Dialogue.wake_eq h.truthful, resolve_of_reading h hfew hsince]
  exact hnext.answer hsince hprinted hasked

theorem Reading.work (h : Reading (ofRecord record capacity) ops d) {op : Job.Operation}
    (hlive : record.state.isTerminal = false)
    (hops : Conducted (ofRecord record capacity) (ops ++ [op])) :
    Reading (ofRecord record capacity) (ops ++ [op]) (d.take (.work op)) := by
  have hsummary (hend : ((ofRecord record capacity).run ops).isTerminal = true) :
      ∀ summary, op ≠ .setSummary summary :=
    ne_setSummary_of_ended hops.supervised hlive hend
  have happly : (ofRecord record capacity).run (ops ++ [op]) =
      ((ofRecord record capacity).run ops).apply op := run_append _ ops [op]
  have hmore (f : Follow) (hf : f.since ≤ (published ops).length ∧
      d.printed = (published ops).take f.since) : f.since ≤ (published (ops ++ [op])).length ∧
        d.printed = (published (ops ++ [op])).take f.since := by
    rw [published_append, List.length_append, List.take_append_of_le_length hf.1]
    exact ⟨hf.1.trans (Nat.le_add_right _ _), hf.2⟩
  refine ⟨?_, truthful_apply h.truthful fun hend => hsummary (h.core.isTerminal.symm.trans hend),
    fun hnone => ?_, ?_⟩
  · rw [happly]
    exact h.core.apply op
  · rw [published_append, List.append_eq_nil_iff] at hnone
    have hline : op.line? = none := by
      cases hl : op.line? with
      | none => rfl
      | some line => simp [published, hl] at hnone
    simp [Dialogue.take, Dialogue.fileEntry, hline, h.file hnone.1]
  · have hs := h.stage
    change OnStage _ _ d.asked d.printed d.stage
    cases hstage : d.stage with
    | asking f =>
      rw [hstage] at hs
      exact hmore f hs
    | waiting f listener =>
      rw [hstage] at hs
      exact ⟨hmore f hs.1, hs.2⟩
    | ended output =>
      rw [hstage] at hs
      have hend : ((ofRecord record capacity).run ops).isTerminal = true := hs.1
      rw [happly, record_apply_of_terminal hend (hsummary hend), published_append,
        published_singleton_of_none (line?_of_ended hops hend), List.append_nil]
      exact hs

theorem reading_run (hlive : record.state.isTerminal = false) (turns : List Turn)
    (hops : Conducted (ofRecord record capacity) (work turns))
    (hfew : (published (work turns)).length ≤ capacity) :
    Reading (ofRecord record capacity) (work turns)
      ((Dialogue.begin (ofRecord record capacity)).run turns) := by
  induction turns using List.reverseRecOn with
  | nil =>
    exact ⟨.refl _, truthful_ofRecord record capacity, fun _ => rfl, Nat.zero_le _, rfl⟩
  | append_singleton turns t ih =>
    rw [Dialogue.run_concat]
    cases t with
    | work op =>
      rw [work_work] at hops hfew ⊢
      rw [published_append, List.length_append] at hfew
      exact (ih (Obeys.of_concat hops) (by omega)).work hlive hops
    | request =>
      rw [work_talk turns rfl] at hops hfew ⊢
      by_cases hstage : ∃ f,
          ((Dialogue.begin (ofRecord record capacity)).run turns).stage = .asking f
      · obtain ⟨f, hf⟩ := hstage
        rw [Dialogue.take_request hf]
        exact (ih hops hfew).request hfew hf
      · rw [Dialogue.take_request_idle (not_exists.mp hstage)]
        exact ih hops hfew
    | wake =>
      rw [work_talk turns rfl] at hops hfew ⊢
      by_cases hstage : ∃ f listener,
          ((Dialogue.begin (ofRecord record capacity)).run turns).stage = .waiting f listener
      · obtain ⟨f, listener, hf⟩ := hstage
        rw [Dialogue.take_wake hf]
        exact (ih hops hfew).wake hfew hf
      · rw [Dialogue.take_wake_idle fun f listener hf => hstage ⟨f, listener, hf⟩]
        exact ih hops hfew

theorem ended_of_answer {d : Dialogue} {f : Follow} {a : Answer}
    (h : a.record.state.isTerminal = true) : ∃ output, (d.answer f a).stage = .ended output :=
  ⟨describe a.record, by rw [Dialogue.answer_of_terminal d f h]⟩

/-- The first answer after the end of the job ends the dialogue. -/
theorem Reading.ends (h : Reading (ofRecord record capacity) ops d)
    (hfew : (published ops).length ≤ capacity)
    (hend : ((ofRecord record capacity).run ops).isTerminal = true) (f : Follow) :
    (d.stage = .asking f → ∃ output, (d.take .request).stage = .ended output) ∧
      ∀ listener, d.stage = .waiting f listener →
        ∃ output, (d.take .wake).stage = .ended output := by
  have hs := h.stage
  constructor
  · intro hstage
    rw [hstage] at hs
    rw [Dialogue.take_request hstage, Dialogue.request]
    rcases Dialogue.poll_cases d.job (some d.file) (Dialogue.offset f) Dialogue.pageSize with
      hpoll | ⟨hlive, -⟩
    · simp only [hpoll, resolve_of_reading h hfew hs.1]
      exact ended_of_answer hend
    · rw [h.core.isTerminal, hend] at hlive
      contradiction
  · intro listener hstage
    rw [hstage] at hs
    rw [Dialogue.take_wake hstage, Dialogue.wake]
    simp only [Dialogue.wake_eq h.truthful, resolve_of_reading h hfew hs.1.1]
    exact ended_of_answer hend

end

/-- What the follower of a job prints and returns. The log is printed in order, and it is printed
to its end just if the last page had room for what was left of it. -/
structure Followed (j : Job) (ops : List Job.Operation) (d : Dialogue) : Prop where
  printed_prefix : d.printed <+: published ops
  ends : (j.run ops).isTerminal = true → ∀ f,
    (d.stage = .asking f → ∃ output, (d.take .request).stage = .ended output) ∧
      ∀ listener, d.stage = .waiting f listener →
        ∃ output, (d.take .wake).stage = .ended output
  output_eq : ∀ output, d.stage = .ended output →
    (j.run ops).isTerminal = true ∧ output = describe (j.run ops).record
  printed_all_iff : ∀ output, d.stage = .ended output → ∃ last, d.asked.getLast? = some last ∧
    d.printed = (published ops).take (last + 200) ∧
      (d.printed = published ops ↔ (published ops).length ≤ last + 200)

theorem printed_prefix_of_onStage {r : Record} {log printed : List String} {asked : List Nat}
    {stage : Stage} (h : OnStage r log asked printed stage) : printed <+: log := by
  cases stage with
  | asking f => exact h.2 ▸ List.take_prefix _ _
  | waiting f listener => exact h.1.2 ▸ List.take_prefix _ _
  | ended output =>
    obtain ⟨-, -, last, -, hprinted⟩ := h
    exact hprinted ▸ List.take_prefix _ _

/-- A follower of a job that evicts nothing, whatever happens between its requests. -/
theorem followed_of_conducted (id document : String) (action : Action) (device : String)
    (clean : Bool) (now : Instant) (capacity : Nat) (turns : List Turn)
    (hops : Conducted (ofRecord (.fresh id document action device clean now) capacity)
      (work turns))
    (hfew : (published (work turns)).length ≤ capacity) :
    Followed (ofRecord (.fresh id document action device clean now) capacity) (work turns)
      ((Dialogue.begin (ofRecord (.fresh id document action device clean now) capacity)).run
        turns) := by
  have hlive : (Record.fresh id document action device clean now).state.isTerminal = false := rfl
  have h := reading_run hlive turns hops hfew
  have hs := h.stage
  refine ⟨printed_prefix_of_onStage hs, h.ends hfew, fun output hstage => ?_,
    fun output hstage => ?_⟩
  · rw [hstage] at hs
    exact ⟨hs.1, hs.2.1⟩
  · rw [hstage] at hs
    obtain ⟨-, -, last, hlast, hprinted⟩ := hs
    refine ⟨last, hlast, hprinted, ?_⟩
    rw [hprinted]
    exact List.take_eq_self_iff _

/-- A build that is followed from before its first line to its end. -/
def watchedBuild : List Turn :=
  [.work (.start noon), .request, .work (.publish "a" .output), .wake,
    .work (.publish "b" .output), .work (.finish 0 noon), .request]

theorem followed_watchedBuild :
    Conducted (ofRecord specimen 10) (work watchedBuild) ∧
      (published (work watchedBuild)).length ≤ 10 ∧
      Followed (ofRecord specimen 10) (work watchedBuild)
        ((Dialogue.begin (ofRecord specimen 10)).run watchedBuild) := by
  have hops : Conducted (ofRecord specimen 10) (work watchedBuild) := by decide
  have hfew : (published (work watchedBuild)).length ≤ 10 := by decide
  exact ⟨hops, hfew, followed_of_conducted "a" "name: lamp" .compile "" false noon 10 watchedBuild
    hops hfew⟩

/-- A build that has ended with more than one page of lines when it is followed. -/
def longBuild : List Turn :=
  .work (.start noon) :: List.replicate 201 (.work (.publish "x" .output)) ++
    [.work (.finish 0 noon), .work .notifyDone, .request]

theorem longBuild_not_printed :
    (published (work longBuild)).length ≤ 2000 ∧
      ((Dialogue.begin (ofRecord specimen 2000)).run longBuild).stage =
        .ended "a Success compile name: lamp (exit 0)" ∧
      ((Dialogue.begin (ofRecord specimen 2000)).run longBuild).printed ≠
        published (work longBuild) := by
  refine ⟨by decide +kernel, by decide +kernel, fun h => ?_⟩
  have hlength := congrArg List.length h
  revert hlength
  decide +kernel

end FirmwareJobs.Client

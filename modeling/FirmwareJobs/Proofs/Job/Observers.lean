import FirmwareJobs.Proofs.Job.Stream

/-! # What observers of a job see

An observer that attaches to a job gets the retained lines and from then on hears every line that
follows them. A watch that has to wait hears the same without the retained lines.
-/

namespace FirmwareJobs.Job

open Time

/-- What a listener can rely on that was registered when `first` lines had been published, whatever
operations follow. -/
structure Listened (j : Job) (listener first : Nat) (ops : List Operation) : Prop where
  heard_inOrder : j.InOrder first ops (j.heard listener ops)
  delivered_inOrder : j.InOrder first ops (j.delivered listener ops)
  waiting_le : ((j.run ops).waiting listener).length ≤ backlog
  complete : .leave listener ∉ ops → ¬ j.WasCutOff listener ops →
    (∀ before, ¬ j.AnnouncedAfter before ops) →
      j.delivered listener ops = lineEvents first (published ops)
  announced : ∀ before, j.AnnouncedAfter before ops →
    (∃ before', j.AnnouncedAfter before' ops ∧ j.delivered listener ops =
        lineEvents first (published before') ++ [.done (j.run before').record]) ∨
      .leave listener ∈ ops ∨ j.WasCutOff listener ops
  record_eq : ∀ before, j.AnnouncedAfter before ops → (∀ summary, .setSummary summary ∉ ops) →
    (j.run before).record = (j.run ops).record
  cutOff : ∀ before op after, ops = before ++ op :: after →
    (j.run before).CutsOff listener op → .leave listener ∉ ops →
      j.delivered listener ops = lineEvents first (published before) ∧
        (j.run ops).heard listener
            (List.replicate ((j.run ops).waiting listener).length (.receive listener)) =
          (j.run ops).waiting listener ∧
        (((j.run ops).run
            (List.replicate ((j.run ops).waiting listener).length (.receive listener))).receive
          listener).1 = .closed

/-- A record that was announced as the last one stays the record of the job. -/
theorem record_of_announced {j : Job} {before ops : List Operation}
    (h : j.AnnouncedAfter before ops) (hops : ∀ summary, .setSummary summary ∉ ops) :
    (j.run before).record = (j.run ops).record := by
  obtain ⟨hend, after, rfl⟩ := h
  rw [run_append]
  refine (record_run_of_terminal hend fun summary hm => ?_).symm
  exact hops summary (List.mem_append_right _ hm)

namespace Registered

variable {j : Job} {listener : Nat}

theorem delivered_inOrder (h : j.Registered listener) (ops : List Operation) :
    j.InOrder j.lastNumber ops (j.delivered listener ops) := by
  cases h.outcome ops with
  | listening _ all => exact .inl ⟨published ops, List.prefix_rfl, all⟩
  | left before after split some =>
    exact inOrder_of_prefix_lines j ⟨_, split.symm⟩ some
  | cutOff before op after split _ some =>
    exact inOrder_of_prefix_lines j ⟨_, split.symm⟩ some
  | ended before _ announced some _ => exact inOrder_of_prefix_done announced some

theorem length_waiting_le (h : j.Registered listener) (ops : List Operation) :
    ((j.run ops).waiting listener).length ≤ backlog := by
  cases hbox : (j.run ops).mailbox? listener with
  | none =>
    rw [waiting_of_none hbox]
    exact Nat.zero_le _
  | some m =>
    rw [waiting_eq hbox]
    exact (orderly_run ops h.orderly).bounded m (List.mem_of_find?_eq_some hbox)

theorem delivered_of_unannounced (h : j.Registered listener) {ops : List Operation}
    (hstay : .leave listener ∉ ops) (hcut : ¬ j.WasCutOff listener ops)
    (hopen : ∀ before, ¬ j.AnnouncedAfter before ops) :
    j.delivered listener ops = lineEvents j.lastNumber (published ops) := by
  cases h.outcome ops with
  | listening _ all => exact all
  | left before after split _ => exact absurd (split ▸ by simp) hstay
  | cutOff before op after split cut _ => exact absurd ⟨before, op, after, split, cut⟩ hcut
  | ended before _ announced _ _ => exact absurd announced (hopen before)

theorem delivered_of_announced (h : j.Registered listener) {before ops : List Operation}
    (hannounced : j.AnnouncedAfter before ops) :
    (∃ before', j.AnnouncedAfter before' ops ∧ j.delivered listener ops =
        lineEvents j.lastNumber (published before') ++ [.done (j.run before').record]) ∨
      .leave listener ∈ ops ∨ j.WasCutOff listener ops := by
  cases h.outcome ops with
  | listening listens _ =>
    have hsent := doneSent_of_announced hannounced
    exact absurd listens (not_listens_of_doneSent (orderly_run ops h.orderly) hsent listener)
  | left before after split _ => exact .inr (.inl (split ▸ by simp))
  | cutOff before op after split cut _ => exact .inr (.inr ⟨before, op, after, split, cut⟩)
  | ended before _ announced _ all =>
    by_cases hstay : .leave listener ∈ ops
    · exact .inr (.inl hstay)
    · exact .inl ⟨before, announced, all hstay⟩

theorem listened (h : j.Registered listener) (ops : List Operation) :
    j.Listened listener j.lastNumber ops where
  heard_inOrder := inOrder_of_prefix (h.delivered_inOrder ops) (List.prefix_append _ _)
  delivered_inOrder := h.delivered_inOrder ops
  waiting_le := h.length_waiting_le ops
  complete := h.delivered_of_unannounced
  announced _ := h.delivered_of_announced
  record_eq _ := record_of_announced
  cutOff before op after split hcut hstay := by
    subst split
    have hstay' : .leave listener ∉ after := fun hm => hstay (by simp [hm])
    obtain ⟨hall, m, hbox, hclosed⟩ := (h.delivered_of_cutsOff after hcut).2 hstay'
    exact ⟨hall, drain_of_closed (orderly_run _ h.orderly) hbox hclosed⟩

end Registered

theorem registered_listen {j : Job} (hj : j.Orderly) (hlive : j.isTerminal = false) :
    j.listen.2.Registered j.nextListener :=
  ⟨orderly_listen hlive hj, mailbox?_listen_self hj.ids⟩

theorem registered_attach {j : Job} (hj : j.Orderly) {listener : Nat}
    (h : j.attach.2.1 = some listener) : j.attach.2.2.Registered listener := by
  cases hend : j.isTerminal with
  | true =>
    rw [attach_of_terminal hend] at h
    contradiction
  | false =>
    rw [attach_of_live hend] at h ⊢
    obtain rfl := Option.some.inj h
    exact registered_listen hj hend

theorem registered_watch {j : Job} (hj : j.Orderly) {since limit listener : Nat}
    (h : (j.watch since limit).1 = .pending listener) :
    (j.watch since limit).2.Registered listener := by
  rcases watch_cases j since limit with hw | ⟨hlive, hw⟩
  · rw [hw] at h
    contradiction
  · rw [hw] at h ⊢
    obtain rfl : j.nextListener = listener := by simpa using h
    exact registered_listen hj hlive

/-- Observers lose, repeat and reorder nothing, whatever is done to the job before and after they
come. -/
theorem observers_hear_all (record : Record) (capacity : Nat) (before after : List Operation) :
    let job := (ofRecord record capacity).run before
    job.attach.1 = (published before).rtake (max capacity 1) ∧
      (∀ listener, job.attach.2.1 = some listener →
        job.attach.2.2.Listened listener (published before).length after) ∧
      ∀ since limit listener, (job.watch since limit).1 = .pending listener →
        (job.watch since limit).2.Listened listener (published before).length after := by
  intro job
  have hj : job.Orderly := orderly_run before (orderly_ofRecord record capacity)
  have hlog : job.log = .holding capacity (published before) :=
    log_run_ofRecord record capacity before
  refine ⟨?_, fun listener h => ?_, fun since limit listener h => ?_⟩
  · rw [attach_fst, hlog, Log.Window.recent_holding]
  · have hlast : job.attach.2.2.lastNumber = (published before).length := by
      rw [lastNumber, (sameCore_attach job).log, hlog, Log.Window.last_holding]
    rw [← hlast]
    exact (registered_attach hj h).listened after
  · have hlast : (job.watch since limit).2.lastNumber = (published before).length := by
      rw [lastNumber, (sameCore_watch job since limit).log, hlog, Log.Window.last_holding]
    rw [← hlast]
    exact (registered_watch hj h).listened after

theorem observers_hear_canceled_specimen :
    let job := (ofRecord specimen 1).run [.publish "a" .output, .publish "b" .output]
    job.attach.1 = ["b"] ∧ job.attach.2.1 = some 0 ∧
      job.attach.2.2.Listened 0 2
        [.publish "c" .engine, .cancel noon, .notifyDone, .receive 0, .receive 0] := by
  obtain ⟨hhistory, hlistened, -⟩ := observers_hear_all specimen 1
    [.publish "a" .output, .publish "b" .output]
    [.publish "c" .engine, .cancel noon, .notifyDone, .receive 0, .receive 0]
  exact ⟨hhistory, rfl, hlistened 0 rfl⟩

/-- A window that is made for no line keeps one all the same. -/
theorem attach_without_capacity :
    ((ofRecord specimen 0).run [.publish "a" .output]).attach.1 ≠ ["a"].rtake (min 1 0) := by
  decide

end FirmwareJobs.Job

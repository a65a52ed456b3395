import FirmwareJobs.Proofs.Job.Ending

/-! # The life of a job

A job is queued, then runs, then ends. What was ordered never changes, the job starts at most once,
and at every moment its record says what its state and the operations done to it allow.
-/

namespace FirmwareJobs.Job

open Time

/-! ## The members that never change -/

structure SameOrder (r next : Record) : Prop where
  id : next.id = r.id
  createdAt : next.createdAt = r.createdAt
  document : next.document = r.document
  action : next.action = r.action
  device : next.device = r.device
  clean : next.clean = r.clean

theorem SameOrder.refl (r : Record) : SameOrder r r := ⟨rfl, rfl, rfl, rfl, rfl, rfl⟩

theorem SameOrder.trans {r s t : Record} (h : SameOrder r s) (h' : SameOrder s t) :
    SameOrder r t :=
  ⟨h'.id.trans h.id, h'.createdAt.trans h.createdAt, h'.document.trans h.document,
    h'.action.trans h.action, h'.device.trans h.device, h'.clean.trans h.clean⟩

theorem sameOrder_finalRecord (j : Job) (code : Int32) (now : Instant) :
    SameOrder j.record (j.finalRecord code now) := by
  unfold finalRecord
  by_cases hcancel : j.cancelRequested = true
  · rw [if_pos hcancel]
    exact ⟨rfl, rfl, rfl, rfl, rfl, rfl⟩
  · rw [if_neg hcancel]
    by_cases hcode : code = 0
    · rw [if_pos hcode]
      exact ⟨rfl, rfl, rfl, rfl, rfl, rfl⟩
    · rw [if_neg hcode]
      exact ⟨rfl, rfl, rfl, rfl, rfl, rfl⟩

theorem sameOrder_apply (j : Job) (op : Operation) : SameOrder j.record (j.apply op).record := by
  cases op with
  | start now =>
    rcases j.apply_start now with hs | ⟨-, -, hs⟩ <;> rw [hs]
    · exact .refl j.record
    · exact ⟨rfl, rfl, rfl, rfl, rfl, rfl⟩
  | finish code now =>
    rcases j.apply_finish code now with ⟨-, hs⟩ | ⟨-, hs⟩ <;> rw [hs]
    · exact .refl j.record
    · exact sameOrder_finalRecord j code now
  | cancel now =>
    rcases j.apply_cancel now with ⟨-, hs⟩ | ⟨-, hs⟩ | ⟨-, hs⟩ <;> rw [hs]
    · exact .refl j.record
    · exact .refl j.record
    · exact ⟨rfl, rfl, rfl, rfl, rfl, rfl⟩
  | publish | setSummary => exact ⟨rfl, rfl, rfl, rfl, rfl, rfl⟩
  | setPid | notifyDone | attach | watch | replay | receive | leave =>
    rw [(sameCore_apply j rfl).record]
    exact .refl j.record

theorem sameOrder_run (j : Job) (ops : List Operation) :
    SameOrder j.record (j.run ops).record := by
  induction ops generalizing j with
  | nil => exact .refl j.record
  | cons op ops ih => exact (sameOrder_apply j op).trans (ih (j.apply op))

/-! ## All together -/

/-- What a run does to a job: it moves from state to state, keeps what was ordered, freezes the
record at the end, starts the job at most once and not after a request to cancel it, and leaves a
record that agrees with the state. -/
structure Lifecycle (j : Job) (ops : List Operation) : Prop where
  moves : ∀ before op after, ops = before ++ op :: after →
    Moves (j.run before).state ((j.run before).apply op).state
  sameOrder : SameOrder j.record (j.run ops).record
  frozen : ∀ before after, ops = before ++ after → (j.run before).isTerminal = true →
    (j.run ops).record = (j.run before).record
  begun_once : (j.begun ops).length ≤ 1
  not_begun : ∀ before now after, ops = before ++ .cancel now :: after →
    j.begun ops = j.begun before
  coherent : Coherent ops (j.run ops).record

/-- Every job that was made fresh goes through its life in order, as long as only its worker
finishes it and sets summaries. -/
theorem lifecycle_of_supervised (id document : String) (action : Action) (device : String)
    (clean : Bool) (now : Instant) (capacity : Nat) (ops : List Operation)
    (h : (ofRecord (.fresh id document action device clean now) capacity).Supervised ops) :
    (ofRecord (.fresh id document action device clean now) capacity).Lifecycle ops where
  moves before op after split := by
    subst split
    refine moves_apply _ op fun hfinish hq => ?_
    have hpermits := h.at_split
    cases op with
    | finish code now => exact hpermits (begun_of_queued before hq)
    | _ => contradiction
  sameOrder := sameOrder_run _ ops
  frozen before after split hend := by
    subst split
    exact h.frozen rfl hend
  begun_once := length_begun_le _ ops
  not_begun before now after split := by
    rw [split, begun_append, begun, begun_of_barred after (isBarred_cancel _ now)]
    exact List.append_nil _
  coherent := h.coherent (collected_fresh id document action device clean now capacity) rfl

/-- A build that prints two lines and fails. -/
def failedBuild : List Operation :=
  [.start noon, .publish "error: no pin" .output, .publish "" .output, .publish "stopped" .engine,
    .finish 2 noon, .cancel noon]

theorem lifecycle_of_failedBuild :
    (ofRecord specimen 1).Supervised failedBuild ∧ (ofRecord specimen 1).Lifecycle failedBuild ∧
      ((ofRecord specimen 1).run failedBuild).record.errorSummary = "error: no pin" := by
  have h : (ofRecord specimen 1).Supervised failedBuild := by decide
  exact ⟨h, lifecycle_of_supervised "a" "name: lamp" .compile "" false noon 1 failedBuild h, rfl⟩

end FirmwareJobs.Job

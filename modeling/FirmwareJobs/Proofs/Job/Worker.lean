import FirmwareJobs.Proofs.Job.Operation

/-! # The worker of a job

A worker starts a queued job and finishes it. A job starts at most once, and never after someone
asked to cancel it. The worker sets a summary only while it works on the job.
-/

namespace FirmwareJobs.Job

open Time

namespace Operation

def isCancel : Operation → Bool
  | .cancel _ => true
  | _ => false

def isFinish : Operation → Bool
  | .finish .. => true
  | _ => false

/-- An output line that can serve as a summary. -/
def output? : Operation → Option String
  | .publish line .output => if line = "" then none else some line
  | _ => none

def summary? : Operation → Option String
  | .setSummary summary => some summary
  | _ => none

end Operation

/-! ## Starting a job -/

/-- The record that an operation hands to the worker. -/
def begunAt (j : Job) : Operation → List Record
  | .start now => ((j.begin? now).map (·.record)).toList
  | _ => []

/-- The records with which the job starts in a run. -/
def begun (j : Job) : List Operation → List Record
  | [] => []
  | op :: ops => j.begunAt op ++ (j.apply op).begun ops

theorem begun_append (j : Job) (ops more : List Operation) :
    j.begun (ops ++ more) = j.begun ops ++ (j.run ops).begun more := by
  induction ops generalizing j with
  | nil => rfl
  | cons op ops ih => simp [begun, ih]

theorem begin?_of_startable {j : Job} (now : Instant) (hq : j.state = .queued)
    (hc : j.cancelRequested = false) :
    j.begin? now =
      some { j with record := { j.record with state := .running, startedAt := some now } } := by
  simp [begin?, hq, hc]

/-- The job must not start any more. -/
def IsBarred (j : Job) : Prop := j.state ≠ .queued ∨ j.cancelRequested = true

theorem begin?_of_barred {j : Job} (now : Instant) (h : j.IsBarred) : j.begin? now = none := by
  cases hb : j.begin? now with
  | none => rfl
  | some next =>
    obtain ⟨hq, hc, -⟩ := begin?_eq_some hb
    rcases h with hs | hs
    · exact absurd hq hs
    · rw [hc] at hs
      contradiction

theorem isBarred_of_terminal {j : Job} (h : j.isTerminal = true) : j.IsBarred :=
  .inl (ne_queued_of_terminal h)

theorem isBarred_cancel (j : Job) (now : Instant) : (j.apply (.cancel now)).IsBarred := by
  rcases j.apply_cancel now with ⟨hend, h⟩ | ⟨-, h⟩ | ⟨-, h⟩ <;> rw [h]
  · exact isBarred_of_terminal hend
  · exact .inr rfl
  · exact .inr rfl

theorem isBarred_start (j : Job) (now : Instant) : (j.apply (.start now)).IsBarred := by
  change ((j.begin? now).getD j).IsBarred
  by_cases h : j.state = .queued ∧ j.cancelRequested = false
  · rw [begin?_of_startable now h.1 h.2]
    exact .inl (fun hq => nomatch hq)
  · have hbarred : j.IsBarred := by
      rw [not_and_or] at h
      simpa [IsBarred] using h
    rw [begin?_of_barred now hbarred]
    exact hbarred

theorem isTerminal_finish (j : Job) (code : Int32) (now : Instant) :
    (j.finish code now).isTerminal = true := by
  cases h : j.isTerminal with
  | true => rwa [finish_of_terminal code now h]
  | false =>
    rw [finish_of_live code now h, isTerminal, finalRecord]
    split_ifs <;> rfl

theorem isBarred_of_sameCore {j next : Job} (hsame : SameCore j next) (h : j.IsBarred) :
    next.IsBarred := by
  rwa [IsBarred, state, hsame.record, hsame.cancelRequested]

theorem isBarred_apply {j : Job} (op : Operation) (h : j.IsBarred) : (j.apply op).IsBarred := by
  cases op with
  | start now => exact isBarred_start j now
  | cancel now => exact isBarred_cancel j now
  | finish code now => exact isBarred_of_terminal (isTerminal_finish j code now)
  | publish | setSummary => exact h
  | setPid | notifyDone | attach | watch | replay | receive | leave =>
    exact isBarred_of_sameCore (sameCore_apply j rfl) h

theorem begunAt_of_barred {j : Job} (op : Operation) (h : j.IsBarred) : j.begunAt op = [] := by
  cases op with
  | start now => simp [begunAt, begin?_of_barred now h]
  | _ => rfl

theorem begun_of_barred {j : Job} (ops : List Operation) (h : j.IsBarred) : j.begun ops = [] := by
  induction ops generalizing j with
  | nil => rfl
  | cons op ops ih => rw [begun, begunAt_of_barred op h, ih (isBarred_apply op h), List.append_nil]

theorem begunAt_of_not_barred {j : Job} {op : Operation} (h : ¬ (j.apply op).IsBarred) :
    j.begunAt op = [] := by
  cases op with
  | start now => exact absurd (isBarred_start j now) h
  | _ => rfl

theorem length_begun_le (j : Job) (ops : List Operation) : (j.begun ops).length ≤ 1 := by
  induction ops generalizing j with
  | nil => exact Nat.zero_le _
  | cons op ops ih =>
    by_cases hbarred : (j.apply op).IsBarred
    · rw [begun, begun_of_barred ops hbarred, List.append_nil]
      cases op with
      | start now => exact Option.length_toList_le
      | _ => exact Nat.zero_le _
    · rw [begun, begunAt_of_not_barred hbarred]
      exact ih (j.apply op)

/-! ## The states of a job -/

/-- The moves between states that a job makes. -/
def Moves (before after : State) : Prop :=
  after = before ∨ before = .queued ∧ (after = .running ∨ after = .canceled) ∨
    before = .running ∧ (after = .success ∨ after = .failed ∨ after = .canceled)

theorem moves_of_record {j next : Job} (h : next.record = j.record) : Moves j.state next.state :=
  .inl (congrArg Record.state h)

theorem state_finalRecord (j : Job) (code : Int32) (now : Instant) :
    (j.finalRecord code now).state = .success ∨ (j.finalRecord code now).state = .failed ∨
      (j.finalRecord code now).state = .canceled := by
  unfold finalRecord
  split_ifs
  · exact .inr (.inr rfl)
  · exact .inl rfl
  · exact .inr (.inl rfl)
  · exact .inr (.inl rfl)

theorem moves_apply (j : Job) (op : Operation) (h : op.isFinish = true → j.state ≠ .queued) :
    Moves j.state (j.apply op).state := by
  cases op with
  | start now =>
    rcases j.apply_start now with hs | ⟨hq, -, hs⟩ <;> rw [hs]
    · exact .inl rfl
    · exact .inr (.inl ⟨hq, .inl rfl⟩)
  | finish code now =>
    rcases j.apply_finish code now with ⟨-, hs⟩ | ⟨hlive, hs⟩ <;> rw [hs]
    · exact .inl rfl
    · rcases j.state_cases with hq | hrunning | hend
      · exact absurd hq (h rfl)
      · exact .inr (.inr ⟨hrunning, state_finalRecord j code now⟩)
      · rw [hlive] at hend
        contradiction
  | cancel now =>
    rcases j.apply_cancel now with ⟨-, hs⟩ | ⟨-, hs⟩ | ⟨hq, hs⟩ <;> rw [hs]
    · exact .inl rfl
    · exact .inl rfl
    · exact .inr (.inl ⟨hq, .inr rfl⟩)
  | publish | setSummary => exact .inl rfl
  | setPid | notifyDone | attach | watch | replay | receive | leave =>
    exact moves_of_record (sameCore_apply j rfl).record

theorem ne_queued_apply {j : Job} (op : Operation) (h : j.state ≠ .queued) :
    (j.apply op).state ≠ .queued := by
  intro hq
  rcases moves_apply j op fun _ => h with hsame | ⟨hbefore, -⟩ | ⟨-, hs | hs | hs⟩
  · exact h (hsame ▸ hq)
  · exact h hbefore
  · rw [hs] at hq
    contradiction
  · rw [hs] at hq
    contradiction
  · rw [hs] at hq
    contradiction

theorem ne_queued_run {j : Job} (ops : List Operation) (h : j.state ≠ .queued) :
    (j.run ops).state ≠ .queued := by
  induction ops generalizing j with
  | nil => exact h
  | cons op ops ih => exact ih (ne_queued_apply op h)

theorem begun_of_queued {j : Job} (ops : List Operation) (h : (j.run ops).state = .queued) :
    j.begun ops = [] := by
  induction ops generalizing j with
  | nil => rfl
  | cons op ops ih =>
    have hat : j.begunAt op = [] := by
      cases op with
      | start now =>
        cases hb : j.begin? now with
        | none => simp [begunAt, hb]
        | some next =>
          have hrunning : (j.apply (.start now)).state ≠ .queued := by
            rw [apply, hb, (begin?_eq_some hb).2.2]
            exact fun hq => nomatch hq
          exact absurd h (ne_queued_run ops hrunning)
      | _ => rfl
    rw [begun, hat, ih h, List.append_nil]

/-! ## The order of work -/

/-- Every operation of a run is allowed after the operations before it. -/
def Obeys (rule : List Operation → Operation → Prop) (ops : List Operation) : Prop :=
  ∀ i, ∀ h : i < ops.length, rule (ops.take i) ops[i]

instance (rule : List Operation → Operation → Prop) (ops : List Operation)
    [∀ before op, Decidable (rule before op)] : Decidable (Obeys rule ops) :=
  inferInstanceAs (Decidable (∀ i, ∀ h : i < ops.length, rule (ops.take i) ops[i]))

section

variable {rule : List Operation → Operation → Prop} {before after ops : List Operation}
  {op : Operation}

theorem Obeys.at_split (h : Obeys rule (before ++ op :: after)) : rule before op := by
  have hi : before.length < (before ++ op :: after).length := by simp
  simpa using h before.length hi

theorem Obeys.of_concat (h : Obeys rule (ops ++ [op])) : Obeys rule ops := by
  intro i hi
  have hlater : i < (ops ++ [op]).length := by
    rw [List.length_append]
    omega
  have hop := h i hlater
  rwa [List.take_append_of_le_length hi.le, List.getElem_append_left hi] at hop

theorem Obeys.imp {weaker : List Operation → Operation → Prop} (h : Obeys rule ops)
    (himp : ∀ before op, rule before op → weaker before op) : Obeys weaker ops :=
  fun i hi => himp _ _ (h i hi)

end

/-- What a worker may do after the operations `before`: it finishes only what it started, and sets
summaries only until then. -/
def Permits (j : Job) (before : List Operation) : Operation → Prop
  | .finish .. => j.begun before ≠ []
  | .setSummary _ => j.begun before ≠ [] ∧ ∀ op ∈ before, op.isFinish = false
  | _ => True

instance (j : Job) (before : List Operation) (op : Operation) :
    Decidable (j.Permits before op) := by
  unfold Permits
  split <;> infer_instance

/-- A run in which finishing and setting a summary are left to the worker. -/
def Supervised (j : Job) (ops : List Operation) : Prop := Obeys j.Permits ops

instance (j : Job) (ops : List Operation) : Decidable (j.Supervised ops) :=
  inferInstanceAs (Decidable (Obeys j.Permits ops))

end FirmwareJobs.Job

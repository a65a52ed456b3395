import FirmwareJobs.Proofs.Job.Orderly
import Mathlib.Logic.Function.Basic

/-! # The audience of a job

Observers reach a job through subscriptions. An observer holds at most one: a call that can open a
new one gives up the old one, and no observer can use the subscription of another. Between their
calls the engine works on the job.
-/

namespace FirmwareJobs.Job

open Time

namespace Operation

/-- The operations of the engine, as opposed to those of observers. -/
def isWork : Operation → Bool
  | .publish .. | .start _ | .finish .. | .cancel _ | .setPid _ | .setSummary _ | .notifyDone =>
    true
  | .attach | .watch .. | .replay .. | .receive _ | .leave _ => false

end Operation

abbrev Work := { op : Operation // op.isWork = true }

inductive Call where
  | attach
  | watch (since limit : Nat)
  | replay (since limit : Nat)
  | receive
  | leave
  deriving DecidableEq

/-- What an observer gets for a call. -/
inductive Reply where
  | attached (history : List String) (record : Record) (live : Bool)
  | answered (replay : Log.Replay) (record : Record)
  | waiting
  | received (receipt : Receipt)
  | left
  deriving DecidableEq

inductive Move (Name : Type) where
  | work (op : Work)
  | call (name : Name) (c : Call)

/-- A job and the listeners that its observers have with it. -/
structure Audience (Name : Type) where
  job : Job
  seat : Name → Option Nat

namespace Audience

variable {Name : Type}

/-- A job without observers. -/
def empty (j : Job) : Audience Name := ⟨j, fun _ => none⟩

/-- The job is in order, and its observers have different listeners of it. -/
structure Seated (w : Audience Name) : Prop where
  orderly : w.job.Orderly
  known : ∀ name listener, w.seat name = some listener → listener < w.job.nextListener
  distinct : ∀ name other listener,
    w.seat name = some listener → w.seat other = some listener → name = other

theorem seated_empty {j : Job} (h : j.Orderly) : (empty j : Audience Name).Seated :=
  ⟨h, fun _ _ hs => (nomatch hs), fun _ _ _ hs => (nomatch hs)⟩

theorem seated_apply {w : Audience Name} (h : w.Seated) (op : Operation) :
    ({ w with job := w.job.apply op } : Audience Name).Seated :=
  ⟨orderly_apply op h.orderly,
    fun name l hl => (h.known name l hl).trans_le (nextListener_le_apply w.job op), h.distinct⟩

variable [DecidableEq Name]

/-- Use another listener, or none, in place of the old one. -/
def sit (w : Audience Name) (name : Name) (job : Job) (listener : Option Nat) : Audience Name where
  job := match w.seat name with
    | some old => job.leave old
    | none => job
  seat := Function.update w.seat name listener

def call (w : Audience Name) (name : Name) : Call → Reply × Audience Name
  | .attach =>
    let (history, listener, job) := w.job.attach
    (.attached history w.job.record listener.isSome, w.sit name job listener)
  | .watch since limit =>
    match w.job.watch since limit with
    | (.ready replay, job) => (.answered replay job.record, w.sit name job none)
    | (.pending listener, job) => (.waiting, w.sit name job (some listener))
  | .replay since limit => (.answered (w.job.replay since limit) w.job.record, w)
  | .receive =>
    match w.seat name with
    | some listener =>
      let (receipt, job) := w.job.receive listener
      (.received receipt, { w with job })
    | none => (.received .closed, w)
  | .leave => (.left, w.sit name w.job none)

def move (w : Audience Name) : Move Name → Audience Name
  | .work op => { w with job := w.job.apply op }
  | .call name c => (w.call name c).2

def run (w : Audience Name) (moves : List (Move Name)) : Audience Name := moves.foldl move w

/-- What a move gives to one of the observers. -/
def repliesAt (w : Audience Name) (name : Name) : Move Name → List Reply
  | .work _ => []
  | .call other c => if other = name then [(w.call other c).1] else []

/-- All that an observer gets in a run. -/
def replies (w : Audience Name) (name : Name) : List (Move Name) → List Reply
  | [] => []
  | m :: moves => w.repliesAt name m ++ (w.move m).replies name moves

@[simp] theorem run_nil (w : Audience Name) : w.run [] = w := rfl

@[simp] theorem run_cons (w : Audience Name) (m : Move Name) (moves : List (Move Name)) :
    w.run (m :: moves) = (w.move m).run moves := rfl

/-! ## What a call does -/

/-- A job registers a new listener, or it declines and stays as it is. -/
inductive Registers (j : Job) : Option Nat → Job → Prop
  | declined : Registers j none j
  | registered (live : j.isTerminal = false) : Registers j (some j.nextListener) j.listen.2

/-- A call changes the seat of its observer, takes an event out of its mailbox or changes
nothing. -/
inductive CallStep (w : Audience Name) (name : Name) : Audience Name → Prop
  | sits {listener : Option Nat} {job : Job} (registers : Registers w.job listener job) :
      CallStep w name (w.sit name job listener)
  | receives {listener : Nat} (seated : w.seat name = some listener) :
      CallStep w name { w with job := (w.job.receive listener).2 }
  | stays : CallStep w name w

theorem registers_attach (j : Job) : Registers j j.attach.2.1 j.attach.2.2 := by
  cases hend : j.isTerminal with
  | true =>
    rw [attach_of_terminal hend]
    exact .declined
  | false =>
    rw [attach_of_live hend]
    exact .registered hend

theorem callStep (w : Audience Name) (name : Name) (c : Call) :
    CallStep w name (w.call name c).2 := by
  cases c with
  | attach => exact .sits (registers_attach w.job)
  | watch since limit =>
    rcases watch_cases w.job since limit with hw | ⟨hlive, hw⟩
    · simp only [call, hw]
      exact .sits .declined
    · simp only [call, hw]
      exact .sits (.registered hlive)
  | replay => exact .stays
  | receive =>
    cases hseat : w.seat name with
    | none => simpa only [call, hseat] using .stays
    | some listener => simpa only [call, hseat] using .receives hseat
  | leave => exact .sits .declined

/-! ## Seats -/

theorem nextListener_sit (w : Audience Name) (name : Name) (job : Job) (listener : Option Nat) :
    (w.sit name job listener).job.nextListener = job.nextListener := by
  unfold sit
  cases w.seat name <;> rfl

theorem orderly_sit {w : Audience Name} {name : Name} {job : Job} (listener : Option Nat)
    (h : job.Orderly) : (w.sit name job listener).job.Orderly := by
  cases hseat : w.seat name with
  | none => simpa only [sit, hseat] using h
  | some old => simpa only [sit, hseat] using orderly_leave old h

theorem Registers.orderly {j job : Job} {listener : Option Nat} (h : Registers j listener job)
    (hj : j.Orderly) : job.Orderly := by
  cases h with
  | declined => exact hj
  | registered hlive => exact orderly_listen hlive hj

theorem Registers.nextListener_le {j job : Job} {listener : Option Nat}
    (h : Registers j listener job) : j.nextListener ≤ job.nextListener := by
  cases h with
  | declined => exact le_rfl
  | registered => exact Nat.le_succ _

theorem Registers.fresh {j job : Job} {listener : Nat} (h : Registers j (some listener) job) :
    listener = j.nextListener ∧ listener < job.nextListener := by
  cases h with
  | registered => exact ⟨rfl, Nat.lt_succ_self _⟩

theorem seated_sit {w : Audience Name} (h : w.Seated) (name : Name) {job : Job}
    {listener : Option Nat} (hr : Registers w.job listener job) :
    (w.sit name job listener).Seated := by
  have hfresh {other : Name} {l : Nat} (hl : listener = some l) : w.seat other ≠ some l := by
    subst hl
    intro hseat
    exact absurd hr.fresh.1 (h.known other l hseat).ne
  refine ⟨orderly_sit listener (hr.orderly h.orderly), fun other l hl => ?_,
    fun first second l hfirst hsecond => ?_⟩
  · rw [nextListener_sit]
    change Function.update w.seat name listener other = some l at hl
    by_cases ho : other = name
    · rw [ho, Function.update_self] at hl
      subst hl
      exact hr.fresh.2
    · rw [Function.update_of_ne ho] at hl
      exact (h.known other l hl).trans_le hr.nextListener_le
  · change Function.update w.seat name listener first = some l at hfirst
    change Function.update w.seat name listener second = some l at hsecond
    by_cases hf : first = name <;> by_cases hs : second = name
    · exact hf.trans hs.symm
    · rw [hf, Function.update_self] at hfirst
      rw [Function.update_of_ne hs] at hsecond
      exact absurd hsecond (hfresh hfirst)
    · rw [hs, Function.update_self] at hsecond
      rw [Function.update_of_ne hf] at hfirst
      exact absurd hfirst (hfresh hsecond)
    · rw [Function.update_of_ne hf] at hfirst
      rw [Function.update_of_ne hs] at hsecond
      exact h.distinct first second l hfirst hsecond

theorem seated_move {w : Audience Name} (h : w.Seated) (m : Move Name) : (w.move m).Seated := by
  cases m with
  | work op => exact seated_apply h op
  | call name c =>
    change (w.call name c).2.Seated
    have hstep := callStep w name c
    generalize (w.call name c).2 = next at hstep ⊢
    cases hstep with
    | sits hr => exact seated_sit h name hr
    | receives hseat => exact seated_apply h (.receive _)
    | stays => exact h

end Audience

end FirmwareJobs.Job

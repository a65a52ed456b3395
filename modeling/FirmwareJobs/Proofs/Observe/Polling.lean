import FirmwareJobs.Proofs.Client.Dialogue
import FirmwareJobs.Proofs.Job.Core
import FirmwareJobs.Proofs.Observe.Tail

/-! # Polling the log of a job

A poller starts at offset 0, asks with any limits at any moments, at once or by a call that may
wait, and passes on the offset of each answer. It goes on until an answer has no lines and the
record of a job that has ended. Between its steps anything else can happen to the job.
-/

namespace FirmwareJobs.Observe

open Job

/-- The end is the last change: nothing is published and no summary is set after it. -/
def Settled (j : Job) (ops : List Operation) : Prop :=
  Obeys (fun before op =>
    (j.run before).isTerminal = true → op.line? = none ∧ op.summary? = none) ops

instance (j : Job) (ops : List Operation) : Decidable (Settled j ops) :=
  inferInstanceAs (Decidable (Obeys _ ops))

/-- A job that has ended without a line has none in its log file. -/
def FileOf (j : Job) (file : Option (List UInt8)) : Prop :=
  j.isTerminal = true → j.lastNumber = 0 → Log.fileLines (file.getD []) = []

instance (j : Job) (file : Option (List UInt8)) : Decidable (FileOf j file) :=
  inferInstanceAs (Decidable (_ → _ → _))

def isEvicted : Log.Replay → Bool
  | .evicted _ => true
  | .lines _ | .upToDate | .empty => false

/-- A call for at least one line that does not find its offset evicted. -/
structure Serves (j : Job) (file : Option (List UInt8)) (since limit : Nat) : Prop where
  limit_pos : 1 ≤ limit
  kept : isEvicted (j.replay since limit) = false
  file : FileOf j file

/-! ## Pollers -/

/-- A poller asks, waits as a listener, has been woken, perhaps with the record of the ended job,
or is done. -/
inductive Stage where
  | asking
  | waiting (limit listener : Nat)
  | woken (limit : Nat) (announced : Option Record)
  | ended (record : Record)

structure Poller where
  since : Nat
  lines : List String
  stage : Stage

namespace Poller

def start : Poller := ⟨0, [], .asking⟩

/-- Keep the lines of an answer and go on from its offset, or stop. -/
def hear (p : Poller) (a : Answer) : Poller where
  since := a.next
  lines := p.lines ++ a.lines
  stage := if a.record.state.isTerminal ∧ a.lines = [] then .ended a.record else .asking

end Poller

theorem Poller.stage_hear (p : Poller) (a : Answer) :
    (p.hear a).stage = .asking ∨
      a.record.state.isTerminal = true ∧ a.lines = [] ∧ (p.hear a).stage = .ended a.record := by
  by_cases h : a.record.state.isTerminal = true ∧ a.lines = []
  · exact .inr ⟨h.1, h.2, if_pos h⟩
  · exact .inl (if_neg h)

theorem Poller.stage_hear_of_end (p : Poller) {a : Answer}
    (hend : a.record.state.isTerminal = true) (hnone : a.lines = []) :
    (p.hear a).stage = .ended a.record := if_pos ⟨hend, hnone⟩

/-- The record in the announcement of the end. -/
def announced? : Receipt → Option Record
  | .event (.done r) => some r
  | _ => none

theorem event_of_announced? {receipt : Receipt} {r : Record} (h : announced? receipt = some r) :
    receipt = .event (.done r) := by
  cases receipt with
  | event e =>
    cases e with
    | line => contradiction
    | done r' => rw [Option.some.inj h]
  | pending | closed => contradiction

/-- What becomes of a poller in a run. The steps of a call that waits can lie apart: the listener
receives, it is given up by a `leave` among the other operations, and the answer is made from the
job as it is then. -/
inductive Polled (j : Job) : List Operation → Poller → Prop
  | start (ops : List Operation) : Polled j ops .start
  | other {ops : List Operation} {p : Poller} (polled : Polled j ops p) (op : Operation) :
      Polled j (ops ++ [op]) p
  | tail {ops : List Operation} {p : Poller} {file : Option (List UInt8)} {limit : Nat}
      (polled : Polled j ops p) (asks : p.stage = .asking)
      (serves : Serves (j.run ops) file p.since limit) :
      Polled j (ops ++ [.replay p.since limit])
        (p.hear (Observe.tail (j.run ops) file p.since limit))
  | answered {ops : List Operation} {p : Poller} {file : Option (List UInt8)} {limit : Nat}
      {a : Answer} (polled : Polled j ops p) (asks : p.stage = .asking)
      (serves : Serves (j.run ops) file p.since limit)
      (ready : (poll (j.run ops) file p.since limit).1 = .answered a) :
      Polled j (ops ++ [.watch p.since limit]) (p.hear a)
  | waits {ops : List Operation} {p : Poller} {file : Option (List UInt8)}
      {limit listener : Nat} (polled : Polled j ops p) (asks : p.stage = .asking)
      (waiting : (poll (j.run ops) file p.since limit).1 = .waiting listener) :
      Polled j (ops ++ [.watch p.since limit]) { p with stage := .waiting limit listener }
  | wakes {ops : List Operation} {p : Poller} {limit listener : Nat} (polled : Polled j ops p)
      (waiting : p.stage = .waiting limit listener) :
      Polled j (ops ++ [.receive listener])
        { p with stage := .woken limit (announced? ((j.run ops).receive listener).1) }
  | resumes {ops : List Operation} {p : Poller} {file : Option (List UInt8)} {limit : Nat}
      {announced : Option Record} (polled : Polled j ops p)
      (woken : p.stage = .woken limit announced)
      (serves : Serves (j.run ops) file p.since limit) :
      Polled j (ops ++ [.replay p.since limit])
        (p.hear (resolve file ((j.run ops).replay p.since limit)
          (announced.getD (j.run ops).record) p.since limit))

theorem Serves.of_sameCore {j k : Job} {file : Option (List UInt8)} {since limit : Nat}
    (h : Serves j file since limit) (hsame : SameCore j k) : Serves k file since limit where
  limit_pos := h.limit_pos
  kept := by
    rw [replay, hsame.log]
    exact h.kept
  file := by
    rw [FileOf, hsame.isTerminal, lastNumber, hsame.log]
    exact h.file

theorem wake_fst (job : Job) (file : Option (List UInt8)) (listener since limit : Nat) :
    (wake job file listener since limit).1 =
      resolve file (((job.receive listener).2.leave listener).replay since limit)
        ((announced? (job.receive listener).1).getD
          ((job.receive listener).2.leave listener).record) since limit := by
  unfold wake
  rcases job.receive listener with ⟨receipt, next⟩
  cases receipt with
  | event e => cases e <;> rfl
  | pending | closed => rfl

theorem Polled.wake {j : Job} {ops : List Operation} {p : Poller} {file : Option (List UInt8)}
    {limit listener : Nat} (h : Polled j ops p) (hstage : p.stage = .waiting limit listener)
    (hserves : Serves (j.run ops) file p.since limit) :
    Polled j (ops ++ [.receive listener] ++ [.leave listener] ++ [.replay p.since limit])
      (p.hear (Observe.wake (j.run ops) file listener p.since limit).1) := by
  have hrun : j.run (ops ++ [.receive listener] ++ [.leave listener]) =
      ((j.run ops).receive listener).2.leave listener := by
    rw [run_append, run_append]
    rfl
  have hsame : SameCore (j.run ops) (((j.run ops).receive listener).2.leave listener) :=
    (sameCore_receive (j.run ops) listener).trans ⟨rfl, rfl, rfl, rfl⟩
  have hwoken := (h.wakes hstage).other (.leave listener)
  have hserves' : Serves (j.run (ops ++ [.receive listener] ++ [.leave listener])) file p.since
      limit := by
    rw [hrun]
    exact hserves.of_sameCore hsame
  have hanswer := hwoken.resumes rfl hserves'
  rw [hrun] at hanswer
  rw [wake_fst]
  exact hanswer

/-! ## What a poller has collected -/

/-- A poller of a job with the log `log` has the lines up to its offset. What it was told about the
end is true, and it is done only at the end of the log. -/
structure Sound (j : Job) (log : List String) (p : Poller) : Prop where
  since_le : p.since ≤ log.length
  lines_eq : p.lines = log.take p.since
  woken : ∀ limit r, p.stage = .woken limit (some r) → j.isTerminal = true ∧ r = j.record
  ended : ∀ r, p.stage = .ended r →
    j.isTerminal = true ∧ r = j.record ∧ p.since = log.length

theorem sound_start (j : Job) (log : List String) : Sound j log .start :=
  ⟨Nat.zero_le _, rfl, fun _ _ h => (nomatch h), fun _ h => (nomatch h)⟩

theorem next_of_no_lines {log : List String} {since limit : Nat} {a : Answer}
    (h : ReadsOn log since limit a) (hnone : a.lines = []) : a.next = log.length := by
  have hlines := congrArg List.length h.lines_eq
  rw [hnone, List.length_nil, List.length_drop, List.length_take] at hlines
  have hsince := h.since_le
  have hnext := h.next_le
  have hadvances := h.advances
  omega

theorem Sound.hear {j : Job} {log : List String} {p : Poller} (h : Sound j log p) {limit : Nat}
    (hlimit : 1 ≤ limit) : Sound j log (p.hear (nextPage j.record log p.since limit)) := by
  have hpage := readsOn_nextPage j.record h.since_le hlimit
  refine ⟨hpage.next_le, ?_, ?_, ?_⟩
  · change p.lines ++ (log.drop p.since).take limit =
      log.take (p.since + min limit (log.length - p.since))
    rw [h.lines_eq, List.take_add, ← List.length_drop, ← List.take_eq_take_min]
  · intro _ r hstage
    rcases p.stage_hear (nextPage j.record log p.since limit) with h | ⟨-, -, h⟩ <;>
      rw [h] at hstage <;> contradiction
  · intro r hstage
    rcases p.stage_hear (nextPage j.record log p.since limit) with h | ⟨hend, hnone, h⟩ <;>
      rw [h] at hstage
    · contradiction
    · refine ⟨hend, (Stage.ended.inj hstage).symm, ?_⟩
      exact next_of_no_lines hpage hnone

section

variable {record : Record} {capacity : Nat} {ops : List Operation} {p : Poller}
  {file : Option (List UInt8)} {since limit : Nat}

/-- A job answers with the next page of its log if that is not evicted. -/
theorem resolve_of_room (hkept : (published ops).length ≤ since + max capacity 1)
    (hsince : since ≤ (published ops).length) (hlimit : 1 ≤ limit)
    (hfile : FileOf ((ofRecord record capacity).run ops) file) :
    resolve file (((ofRecord record capacity).run ops).replay since limit)
        ((ofRecord record capacity).run ops).record since limit =
      nextPage ((ofRecord record capacity).run ops).record (published ops) since limit := by
  rw [replay_eq]
  refine resolve_of_kept file _ hkept hsince hlimit fun hnone hend => ?_
  have hlast : ((ofRecord record capacity).run ops).lastNumber = 0 := by
    rw [lastNumber, log_run_ofRecord, hnone]
    rfl
  rw [Log.fileTail, hfile hend hlast, List.drop_nil]

theorem Serves.room (h : Serves ((ofRecord record capacity).run ops) file since limit) :
    (published ops).length ≤ since + max capacity 1 := by
  by_contra hlost
  have hkept := h.kept
  rw [replay_eq, Log.Window.after_of_evicted limit (not_le.mp hlost)] at hkept
  contradiction

theorem resolve_of_serves (h : Serves ((ofRecord record capacity).run ops) file since limit)
    (hsince : since ≤ (published ops).length) :
    resolve file (((ofRecord record capacity).run ops).replay since limit)
        ((ofRecord record capacity).run ops).record since limit =
      nextPage ((ofRecord record capacity).run ops).record (published ops) since limit :=
  resolve_of_room h.room hsince h.limit_pos h.file

theorem Settled.of_concat {j : Job} {op : Operation} (h : Settled j (ops ++ [op])) :
    Settled j ops := Obeys.of_concat h

theorem Settled.last {j : Job} {op : Operation} (h : Settled j (ops ++ [op]))
    (hend : (j.run ops).isTerminal = true) : op.line? = none ∧ op.summary? = none :=
  Obeys.at_split h hend

theorem Settled.of_append {j : Job} {before after : List Operation}
    (h : Settled j (before ++ after)) : Settled (j.run before) after := by
  intro i hi hend
  have hlater : before.length + i < (before ++ after).length := by
    rw [List.length_append]
    omega
  have hop := h (before.length + i) hlater
  rw [List.take_length_add_append, run_append, List.getElem_append_right (Nat.le_add_right _ _)]
    at hop
  simpa only [Nat.add_sub_cancel_left] using hop hend

theorem record_of_settled {j : Job} {op : Operation} (h : Settled j (ops ++ [op]))
    (hend : (j.run ops).isTerminal = true) : (j.run (ops ++ [op])).record = (j.run ops).record := by
  rw [run_append]
  refine record_apply_of_terminal hend fun summary hop => ?_
  have hsummary := (h.last hend).2
  rw [hop] at hsummary
  contradiction

/-- What follows the end of the job publishes nothing and leaves the record alone. -/
theorem Settled.after_end {j : Job} {before after : List Operation}
    (h : Settled j (before ++ after)) (hend : (j.run before).isTerminal = true) :
    published after = [] ∧ (j.run (before ++ after)).record = (j.run before).record := by
  induction after using List.reverseRecOn with
  | nil => exact ⟨rfl, by rw [List.append_nil]⟩
  | append_singleton after op ih =>
    rw [← List.append_assoc] at h
    have hend' : (j.run (before ++ after)).isTerminal = true := by
      rw [run_append]
      exact isTerminal_run after hend
    obtain ⟨hnone, hrecord⟩ := ih h.of_concat
    refine ⟨?_, ?_⟩
    · rw [published_append, hnone, published_singleton_of_none (h.last hend').1, List.append_nil]
    · rw [← List.append_assoc, record_of_settled h hend', hrecord]

theorem truthful_of_settled (hops : Settled (ofRecord record capacity) ops) :
    ((ofRecord record capacity).run ops).Truthful := by
  induction ops using List.reverseRecOn with
  | nil => exact truthful_ofRecord record capacity
  | append_singleton ops op ih =>
    rw [run_append]
    refine truthful_apply (ih hops.of_concat) fun hend summary hop => ?_
    have hsummary := (hops.last hend).2
    rw [hop] at hsummary
    contradiction

theorem Sound.more {op : Operation}
    (h : Sound ((ofRecord record capacity).run ops) (published ops) p)
    (hops : Settled (ofRecord record capacity) (ops ++ [op])) :
    Sound ((ofRecord record capacity).run (ops ++ [op])) (published (ops ++ [op])) p := by
  have hstays (hend : ((ofRecord record capacity).run ops).isTerminal = true) :
      ((ofRecord record capacity).run (ops ++ [op])).isTerminal = true := by
    rw [run_append]
    exact isTerminal_run [op] hend
  refine ⟨?_, ?_, fun limit r hstage => ?_, fun r hstage => ?_⟩
  · rw [published_append, List.length_append]
    exact h.since_le.trans (Nat.le_add_right _ _)
  · rw [published_append, List.take_append_of_le_length h.since_le]
    exact h.lines_eq
  · obtain ⟨hend, hrecord⟩ := h.woken limit r hstage
    exact ⟨hstays hend, hrecord.trans (record_of_settled hops hend).symm⟩
  · obtain ⟨hend, hrecord, hsince⟩ := h.ended r hstage
    refine ⟨hstays hend, hrecord.trans (record_of_settled hops hend).symm, ?_⟩
    rw [published_append, published_singleton_of_none (hops.last hend).1, List.append_nil]
    exact hsince

/-- A poller collects the log in order, without loss or repetition. -/
theorem Polled.sound (h : Polled (ofRecord record capacity) ops p)
    (hops : Settled (ofRecord record capacity) ops) :
    Sound ((ofRecord record capacity).run ops) (published ops) p := by
  -- An answer is made from the job before the operation of the step, and the operation itself can
  -- only add to the log: so each case is `Sound.hear` and then `Sound.more`.
  induction h with
  | start ops => exact sound_start _ _
  | other _ op ih => exact (ih hops.of_concat).more hops
  | tail _ asks serves ih =>
    have hbefore := ih hops.of_concat
    rw [Observe.tail, resolve_of_serves serves hbefore.since_le]
    exact (hbefore.hear serves.limit_pos).more hops
  | @answered ops p file limit a _ asks serves ready ih =>
    have hbefore := ih hops.of_concat
    rcases Client.Dialogue.poll_cases ((ofRecord record capacity).run ops) file p.since limit with
      hpoll | ⟨-, hpoll⟩
    · rw [hpoll, resolve_of_serves serves hbefore.since_le] at ready
      rw [← Poll.answered.inj ready]
      exact (hbefore.hear serves.limit_pos).more hops
    · rw [hpoll] at ready
      contradiction
  | waits _ asks waiting ih =>
    have hbefore := (ih hops.of_concat).more hops
    exact ⟨hbefore.since_le, hbefore.lines_eq, by simp, by simp⟩
  | @wakes ops p limit listener _ waiting ih =>
    have hbefore := (ih hops.of_concat).more hops
    refine ⟨hbefore.since_le, hbefore.lines_eq, fun _ r hstage => ?_, by simp⟩
    obtain ⟨-, hsaid⟩ := Stage.woken.inj hstage
    obtain ⟨hend, hrecord⟩ :=
      truthful_of_settled hops.of_concat r (awaits_of_receipt (event_of_announced? hsaid))
    refine ⟨?_, hrecord.trans (record_of_settled hops hend).symm⟩
    rw [run_append]
    exact isTerminal_run _ hend
  | @resumes ops p file limit announced _ woken serves ih =>
    have hbefore := ih hops.of_concat
    have hrecord : announced.getD ((ofRecord record capacity).run ops).record =
        ((ofRecord record capacity).run ops).record := by
      cases announced with
      | none => rfl
      | some r => exact (hbefore.woken limit r woken).2
    rw [hrecord, resolve_of_serves serves hbefore.since_le]
    exact (hbefore.hear serves.limit_pos).more hops

/-! ## A poller comes to the end -/

/-- Ask once more, unless the poller is done. -/
def Poller.ask (job : Job) (file : Option (List UInt8)) (p : Poller) (limit : Nat) : Poller :=
  match p.stage with
  | .ended _ => p
  | _ => p.hear (tail job file p.since limit)

theorem Poller.asks_of_ended {job : Job} {r : Record} (h : p.stage = .ended r) (limits : List Nat) :
    limits.foldl (Poller.ask job file) p = p := by
  induction limits with
  | nil => rfl
  | cons limit limits ih =>
    rw [List.foldl_cons, Poller.ask, h]
    exact ih

/-- Each call after the end of the job gets lines or is the last one, so a poller is done after one
call more than there are lines left. -/
theorem Sound.ends (h : Sound ((ofRecord record capacity).run ops) (published ops) p)
    (hend : ((ofRecord record capacity).run ops).isTerminal = true)
    (hkept : (published ops).length ≤ p.since + max capacity 1)
    (hfile : FileOf ((ofRecord record capacity).run ops) file) (hstage : p.stage = .asking)
    {limits : List Nat} (hlimits : ∀ limit ∈ limits, 1 ≤ limit)
    (hmany : (published ops).length - p.since < limits.length) :
    ∃ r, (limits.foldl (Poller.ask ((ofRecord record capacity).run ops) file) p).stage =
      .ended r := by
  induction limits generalizing p with
  | nil => contradiction
  | cons limit limits ih =>
    have hlimit : 1 ≤ limit := hlimits limit List.mem_cons_self
    have hpage := readsOn_nextPage ((ofRecord record capacity).run ops).record h.since_le hlimit
    have hask : Poller.ask ((ofRecord record capacity).run ops) file p limit =
        p.hear (nextPage ((ofRecord record capacity).run ops).record (published ops) p.since
          limit) := by
      rw [Poller.ask, hstage]
      exact congrArg p.hear (resolve_of_room hkept h.since_le hlimit hfile)
    rw [List.foldl_cons, hask]
    rcases p.stage_hear (nextPage ((ofRecord record capacity).run ops).record (published ops)
      p.since limit) with hnext | ⟨-, -, hdone⟩
    · -- At the end of the log the answer would have no lines, and the poller would be done.
      have hmore : p.since < (published ops).length := by
        by_contra hall
        have hsince : p.since = (published ops).length := le_antisymm h.since_le (not_lt.mp hall)
        have hdone := p.stage_hear_of_end (a := nextPage _ (published ops) p.since limit) hend
          (by rw [hsince, nextPage_of_end])
        rw [hnext] at hdone
        contradiction
      have hadvances := hpage.advances hmore
      refine ih (h.hear hlimit) ?_ hnext (fun l hl => hlimits l (List.mem_cons_of_mem _ hl)) ?_
      · exact hkept.trans (Nat.add_le_add_right hadvances.le _)
      · have hsince : (p.hear (nextPage ((ofRecord record capacity).run ops).record (published ops)
            p.since limit)).since = p.since + min limit ((published ops).length - p.since) := rfl
        rw [hsince]
        rw [List.length_cons] at hmany
        omega
    · exact ⟨_, by rw [Poller.asks_of_ended hdone]; exact hdone⟩

end

end FirmwareJobs.Observe

import FirmwareJobs.Proofs.Job.Audience
import FirmwareJobs.Proofs.Job.Core

/-! # Observers do not interfere

What an observer gets from a job depends on the work on the job and on its own calls, and on nothing
that other observers do. Two runs are compared from the view of one observer: the engine's side of
the job and the contents of the observer's mailbox are the same in both, its listener need not be.
-/

namespace FirmwareJobs

open Time

namespace Mailbox

/-- A mailbox without the id of its listener. -/
def content (m : Mailbox) : List Event × Bool := (m.events, m.isOpen)

theorem content_post {m n : Mailbox} (e : Event) (h : n.content = m.content) :
    (n.post e).content = (m.post e).content := by
  obtain ⟨hevents, hopen⟩ := Prod.mk.inj h
  have hfull : n.isFull = m.isFull := by rw [isFull, hevents, isFull]
  cases ho : m.isOpen with
  | false => rw [post_of_closed e ho, post_of_closed e (hopen.trans ho), h]
  | true =>
    cases hf : m.isFull with
    | true =>
      rw [post_of_full e ho hf, post_of_full e (hopen.trans ho) (hfull.trans hf), content, hevents]
      rfl
    | false =>
      rw [post_of_room e ho hf, post_of_room e (hopen.trans ho) (hfull.trans hf), content, hevents,
        hopen]
      rfl

theorem content_postLast {m n : Mailbox} (e : Event) (h : n.content = m.content) :
    (n.postLast e).content = (m.postLast e).content :=
  congrArg (fun c => (c.1, false)) (content_post e h)

theorem content_receive {m n : Mailbox} (h : n.content = m.content) :
    n.receive.1 = m.receive.1 ∧ n.receive.2.content = m.receive.2.content := by
  obtain ⟨hevents, hopen⟩ := Prod.mk.inj h
  cases he : m.events with
  | nil => simp [receive, hevents.trans he, he, hopen, content]
  | cons e rest => simp [receive, hevents.trans he, he, hopen, content]

end Mailbox

namespace Job

/-! ## The side of the engine -/

/-- Two jobs that differ at most in their listeners. -/
structure SameEngine (j k : Job) : Prop extends SameCore j k where
  pid : k.pid = j.pid
  doneSent : k.doneSent = j.doneSent

theorem SameEngine.refl (j : Job) : SameEngine j j := ⟨.refl j, rfl, rfl⟩

theorem SameEngine.symm {j k : Job} (h : SameEngine j k) : SameEngine k j :=
  ⟨h.toSameCore.symm, h.pid.symm, h.doneSent.symm⟩

theorem SameEngine.trans {i j k : Job} (h : SameEngine i j) (h' : SameEngine j k) :
    SameEngine i k :=
  ⟨h.toSameCore.trans h'.toSameCore, h'.pid.trans h.pid, h'.doneSent.trans h.doneSent⟩

/-- An operation of an observer leaves the side of the engine alone. -/
theorem sameEngine_apply (j : Job) {op : Operation} (h : op.isWork = false) :
    SameEngine j (j.apply op) := by
  cases op with
  | publish | start | finish | cancel | setPid | setSummary | notifyDone => contradiction
  | attach =>
    change SameEngine j j.attach.2.2
    rcases attach_cases j with ha | ⟨-, ha⟩
    · rw [ha]; exact .refl j
    · rw [ha]; exact ⟨⟨rfl, rfl, rfl, rfl⟩, rfl, rfl⟩
  | watch since limit =>
    change SameEngine j (j.watch since limit).2
    rcases watch_cases j since limit with hw | ⟨-, hw⟩
    · rw [hw]; exact .refl j
    · rw [hw]; exact ⟨⟨rfl, rfl, rfl, rfl⟩, rfl, rfl⟩
  | receive listener =>
    change SameEngine j (j.receive listener).2
    cases hbox : j.mailbox? listener with
    | none => rw [receive_of_none hbox]; exact .refl j
    | some m => rw [receive_of_some hbox]; exact ⟨⟨rfl, rfl, rfl, rfl⟩, rfl, rfl⟩
  | replay => exact .refl j
  | leave => exact ⟨⟨rfl, rfl, rfl, rfl⟩, rfl, rfl⟩

theorem pid_of_work (j : Job) {op : Operation} (h : op.isWork = true)
    (hop : ∀ pid, op ≠ .setPid pid) : (j.apply op).pid = j.pid := by
  cases op with
  | setPid pid => exact absurd rfl (hop pid)
  | start now => rcases j.apply_start now with hs | ⟨-, -, hs⟩ <;> rw [hs]
  | finish code now => rcases j.apply_finish code now with ⟨-, hs⟩ | ⟨-, hs⟩ <;> rw [hs]
  | cancel now => rcases j.apply_cancel now with ⟨-, hs⟩ | ⟨-, hs⟩ | ⟨-, hs⟩ <;> rw [hs]
  | notifyDone =>
    change j.notifyDone.pid = j.pid
    unfold notifyDone
    split <;> rfl
  | publish | setSummary => rfl
  | attach | watch | replay | receive | leave => contradiction

theorem doneSent_notifyDone (j : Job) : j.notifyDone.doneSent = (j.doneSent || j.isTerminal) := by
  cases hsent : j.doneSent <;> cases hend : j.isTerminal <;> simp [notifyDone, hsent, hend]

theorem SameEngine.work {j k : Job} (h : SameEngine j k) (op : Work) :
    SameEngine (j.apply op) (k.apply op) := by
  obtain ⟨op, hop⟩ := op
  refine ⟨h.toSameCore.apply op, ?_, ?_⟩
  · by_cases hpid : ∃ pid, op = .setPid pid
    · obtain ⟨pid, rfl⟩ := hpid
      rfl
    · rw [pid_of_work j hop (not_exists.mp hpid), pid_of_work k hop (not_exists.mp hpid), h.pid]
  · cases op with
    | publish => exact h.doneSent
    | notifyDone =>
      change k.notifyDone.doneSent = j.notifyDone.doneSent
      rw [doneSent_notifyDone, doneSent_notifyDone, h.doneSent, h.isTerminal]
    | start | finish | cancel | setPid | setSummary =>
      rw [(sameListeners_apply j rfl).doneSent, (sameListeners_apply k rfl).doneSent, h.doneSent]
    | attach | watch | replay | receive | leave => contradiction

/-! ## Mailboxes and watches -/

theorem mailbox?_leave_of_ne (j : Job) {listener other : Nat} (h : other ≠ listener) :
    (j.leave other).mailbox? listener = j.mailbox? listener := by
  rw [mailbox?_leave]
  cases hbox : j.mailbox? listener with
  | none => rfl
  | some m => rw [Option.bind_some, id_of_mailbox? hbox, if_neg h]

theorem mailbox?_receive_of_ne (j : Job) {listener other : Nat} (h : other ≠ listener) :
    (j.receive other).2.mailbox? listener = j.mailbox? listener := by
  rw [mailbox?_receive]
  cases hbox : j.mailbox? listener with
  | none => rfl
  | some m => rw [Option.map_some, id_of_mailbox? hbox, if_neg h]

/-- A watch can be answered at once. -/
def Answers (j : Job) (since limit : Nat) : Prop :=
  j.isTerminal = true ∨ (j.replay since limit ≠ .upToDate ∧ j.replay since limit ≠ .empty)

theorem watch_of_answers {j : Job} {since limit : Nat} (h : Answers j since limit) :
    j.watch since limit = (.ready (j.replay since limit), j) := if_pos h

theorem watch_of_waits {j : Job} {since limit : Nat} (h : ¬ Answers j since limit) :
    j.watch since limit = (.pending j.nextListener, j.listen.2) := if_neg h

theorem content_mailboxAfter {j k : Job} (h : SameEngine j k) {m n : Mailbox} (op : Work)
    (hmn : n.content = m.content) :
    (k.mailboxAfter op n).map Mailbox.content = (j.mailboxAfter op m).map Mailbox.content := by
  obtain ⟨op, hop⟩ := op
  cases op with
  | publish line origin =>
    have hlast : k.lastNumber = j.lastNumber := congrArg Log.Window.last h.log
    simp only [mailboxAfter, hlast, Option.map_some, Mailbox.content_post _ hmn]
  | notifyDone =>
    simp only [mailboxAfter, h.doneSent, h.isTerminal, h.record]
    split_ifs
    · exact congrArg some hmn
    · exact congrArg some (Mailbox.content_postLast _ hmn)
  | start | finish | cancel | setPid | setSummary => exact congrArg some hmn
  | attach | watch | replay | receive | leave => contradiction

namespace Audience

variable {Name : Type}

/-! ## The view of one observer -/

/-- The mailbox of an observer that has a listener. -/
def mailbox? (w : Audience Name) (name : Name) : Option Mailbox :=
  (w.seat name).bind w.job.mailbox?

/-- What waits for an observer, and whether more can come. -/
def box (w : Audience Name) (name : Name) : Option (List Event × Bool) :=
  (w.mailbox? name).map Mailbox.content

/-- Two audiences that an observer cannot tell apart. -/
structure Alike (name : Name) (w v : Audience Name) : Prop where
  engine : SameEngine w.job v.job
  box : v.box name = w.box name

theorem Alike.refl (name : Name) (w : Audience Name) : Alike name w w := ⟨.refl w.job, rfl⟩

theorem Alike.symm {name : Name} {w v : Audience Name} (h : Alike name w v) : Alike name v w :=
  ⟨h.engine.symm, h.box.symm⟩

theorem Alike.trans {name : Name} {u v w : Audience Name} (h : Alike name u v)
    (h' : Alike name v w) : Alike name u w :=
  ⟨h.engine.trans h'.engine, h'.box.trans h.box⟩

theorem mailbox?_of_seat {w : Audience Name} {name : Name} {listener : Nat}
    (h : w.seat name = some listener) : w.mailbox? name = w.job.mailbox? listener := by
  rw [mailbox?, h, Option.bind_some]

theorem mailbox?_of_none {w : Audience Name} {name : Name} (h : w.seat name = none) :
    w.mailbox? name = none := by
  rw [mailbox?, h, Option.bind_none]

theorem mailbox?_work {w : Audience Name} (hw : w.Seated) (name : Name) (op : Operation) :
    ({ w with job := w.job.apply op } : Audience Name).mailbox? name =
      (w.mailbox? name).bind (w.job.mailboxAfter op) := by
  cases hseat : w.seat name with
  | none =>
    rw [mailbox?_of_none hseat, Option.bind_none]
    exact mailbox?_of_none hseat
  | some listener =>
    rw [mailbox?_of_seat hseat, ← mailbox?_apply w.job op (hw.known name listener hseat).ne]
    exact mailbox?_of_seat hseat

theorem Alike.mailbox?_eq {name : Name} {w v : Audience Name} (h : Alike name w v) :
    w.mailbox? name = none ∧ v.mailbox? name = none ∨
      ∃ m n, w.mailbox? name = some m ∧ v.mailbox? name = some n ∧ n.content = m.content := by
  have hbox := h.box
  unfold Audience.box at hbox
  cases hm : w.mailbox? name with
  | none =>
    rw [hm] at hbox
    exact .inl ⟨rfl, Option.map_eq_none_iff.mp hbox⟩
  | some m =>
    rw [hm] at hbox
    obtain ⟨n, hn, hnm⟩ := Option.map_eq_some_iff.mp hbox
    exact .inr ⟨m, n, rfl, hn, hnm⟩

theorem Alike.work {name : Name} {w v : Audience Name} (h : Alike name w v) (hw : w.Seated)
    (hv : v.Seated) (op : Work) :
    Alike name { w with job := w.job.apply op } { v with job := v.job.apply op } := by
  refine ⟨h.engine.work op, ?_⟩
  unfold Audience.box
  rw [mailbox?_work hw, mailbox?_work hv]
  rcases h.mailbox?_eq with ⟨hm, hn⟩ | ⟨m, n, hm, hn, hcontent⟩
  · rw [hm, hn]
    rfl
  · rw [hm, hn]
    exact content_mailboxAfter h.engine op hcontent

/-! ## The calls of the others -/

variable [DecidableEq Name]

theorem seat_sit_of_ne (w : Audience Name) {name other : Name} (h : name ≠ other) (job : Job)
    (listener : Option Nat) : (w.sit other job listener).seat name = w.seat name :=
  Function.update_of_ne h _ _

theorem Registers.sameEngine {j job : Job} {listener : Option Nat}
    (h : Registers j listener job) : SameEngine j job := by
  cases h with
  | declined => exact .refl j
  | registered => exact ⟨⟨rfl, rfl, rfl, rfl⟩, rfl, rfl⟩

theorem sameEngine_sit (w : Audience Name) (name : Name) {job : Job} {listener : Option Nat}
    (h : Registers w.job listener job) : SameEngine w.job (w.sit name job listener).job := by
  cases hseat : w.seat name with
  | none => simpa only [sit, hseat] using h.sameEngine
  | some old =>
    have hleave : SameEngine job (job.leave old) := ⟨⟨rfl, rfl, rfl, rfl⟩, rfl, rfl⟩
    simpa only [sit, hseat] using h.sameEngine.trans hleave

theorem Registers.mailbox?_eq {j job : Job} {listener : Option Nat} (h : Registers j listener job)
    {old : Nat} (hold : old < j.nextListener) : job.mailbox? old = j.mailbox? old := by
  cases h with
  | declined => rfl
  | registered => exact mailbox?_listen hold.ne

theorem mailbox?_sit_of_ne {w : Audience Name} (hw : w.Seated) {name other : Name}
    (h : name ≠ other) {job : Job} {listener : Option Nat} (hr : Registers w.job listener job) :
    (w.sit other job listener).mailbox? name = w.mailbox? name := by
  cases hseat : w.seat name with
  | none =>
    rw [mailbox?_of_none hseat, mailbox?_of_none ((w.seat_sit_of_ne h job listener).trans hseat)]
  | some mine =>
    rw [mailbox?_of_seat hseat,
      mailbox?_of_seat ((w.seat_sit_of_ne h job listener).trans hseat),
      ← hr.mailbox?_eq (hw.known name mine hseat)]
    cases hother : w.seat other with
    | none => simp only [sit, hother]
    | some old =>
      simp only [sit, hother]
      -- The seat that is given up is not the observer's own, since no listener has two owners.
      apply mailbox?_leave_of_ne
      rintro rfl
      exact h (hw.distinct name other old hseat hother)

/-- An observer does not notice the calls of another one. -/
theorem alike_call {w : Audience Name} (hw : w.Seated) {name other : Name} (h : name ≠ other)
    (c : Call) : Alike name w (w.call other c).2 := by
  have hstep := callStep w other c
  generalize (w.call other c).2 = next at hstep ⊢
  cases hstep with
  | sits hr =>
    exact ⟨sameEngine_sit w other hr, congrArg (Option.map _) (mailbox?_sit_of_ne hw h hr)⟩
  | @receives listener hother =>
    have hengine : SameEngine w.job (w.job.apply (.receive listener)) := sameEngine_apply w.job rfl
    refine ⟨hengine, congrArg (Option.map _) ?_⟩
    cases hseat : w.seat name with
    | none =>
      rw [mailbox?_of_none hseat]
      exact mailbox?_of_none hseat
    | some mine =>
      have hne : listener ≠ mine := by
        rintro rfl
        exact h (hw.distinct name other listener hseat hother)
      rw [mailbox?_of_seat hseat, ← mailbox?_receive_of_ne w.job hne]
      exact mailbox?_of_seat hseat
  | stays => exact .refl name w

/-! ## The calls of the observer -/

theorem box_sit {w : Audience Name} (hw : w.Seated) (name : Name) {job : Job}
    {listener : Option Nat} (hr : Registers w.job listener job) :
    (w.sit name job listener).box name = listener.map fun _ => ([], true) := by
  have hseat : (w.sit name job listener).seat name = listener := Function.update_self _ _ _
  cases hr with
  | declined => rw [box, mailbox?_of_none hseat]; rfl
  | registered hlive =>
    have hnew := mailbox?_listen_self hw.orderly.ids
    rw [box, mailbox?_of_seat hseat]
    cases hold : w.seat name with
    | none =>
      simp only [sit, hold, hnew]
      rfl
    | some old =>
      simp only [sit, hold]
      rw [mailbox?_leave_of_ne _ (hw.known name old hold).ne, hnew]
      rfl

theorem Alike.sit {name : Name} {w v : Audience Name} (h : Alike name w v) (hw : w.Seated)
    (hv : v.Seated) {job job' : Job} {listener listener' : Option Nat}
    (hr : Registers w.job listener job) (hr' : Registers v.job listener' job')
    (hsome : listener'.isSome = listener.isSome) :
    Alike name (w.sit name job listener) (v.sit name job' listener') := by
  refine ⟨((sameEngine_sit w name hr).symm.trans h.engine).trans (sameEngine_sit v name hr'), ?_⟩
  rw [box_sit hw name hr, box_sit hv name hr']
  cases listener <;> cases listener' <;> first | rfl | contradiction

theorem call_receive (w : Audience Name) (name : Name) :
    (w.call name .receive).1 =
        .received (((w.mailbox? name).map fun m => m.receive.1).getD .closed) ∧
      SameEngine w.job (w.call name .receive).2.job ∧
      (w.call name .receive).2.box name = (w.mailbox? name).map fun m => m.receive.2.content := by
  cases hseat : w.seat name with
  | none =>
    simp only [Audience.call, hseat, box, mailbox?_of_none hseat]
    exact ⟨rfl, .refl w.job, rfl⟩
  | some listener =>
    simp only [Audience.call, hseat, box, mailbox?_of_seat hseat]
    have hengine : SameEngine w.job (w.job.apply (.receive listener)) := sameEngine_apply w.job rfl
    refine ⟨congrArg Reply.received (receive_fst w.job listener), hengine, ?_⟩
    have hbox : ({ w with job := (w.job.receive listener).2 } : Audience Name).mailbox? name =
        (w.job.receive listener).2.mailbox? listener := mailbox?_of_seat hseat
    rw [hbox, mailbox?_receive]
    cases hm : w.job.mailbox? listener with
    | none => rfl
    | some m => simp only [Option.map_some, id_of_mailbox? hm, if_true]

/-- An observer gets the same for a call from audiences that it cannot tell apart, and it cannot
tell them apart afterwards. -/
theorem Alike.call {name : Name} {w v : Audience Name} (h : Alike name w v) (hw : w.Seated)
    (hv : v.Seated) (c : Call) :
    (v.call name c).1 = (w.call name c).1 ∧
      Alike name (w.call name c).2 (v.call name c).2 := by
  have hreplay (since limit : Nat) : v.job.replay since limit = w.job.replay since limit :=
    congrArg (fun log => log.after since limit) h.engine.log
  cases c with
  | attach =>
    have hlive : v.job.attach.2.1.isSome = w.job.attach.2.1.isSome := by
      cases hend : w.job.isTerminal with
      | true => rw [attach_of_terminal hend, attach_of_terminal (h.engine.isTerminal.trans hend)]
      | false =>
        rw [attach_of_live hend, attach_of_live (h.engine.isTerminal.trans hend)]
        rfl
    refine ⟨?_, h.sit hw hv (registers_attach w.job) (registers_attach v.job) hlive⟩
    change Reply.attached v.job.attach.1 v.job.record v.job.attach.2.1.isSome =
      .attached w.job.attach.1 w.job.record w.job.attach.2.1.isSome
    rw [attach_fst, attach_fst, h.engine.log, h.engine.record, hlive]
  | watch since limit =>
    have hanswers : Answers v.job since limit ↔ Answers w.job since limit := by
      rw [Answers, Answers, h.engine.isTerminal, hreplay]
    by_cases hnow : Answers w.job since limit
    · simp only [Audience.call, watch_of_answers hnow, watch_of_answers (hanswers.mpr hnow),
        hreplay, h.engine.record, true_and]
      exact h.sit hw hv .declined .declined rfl
    · have hlive {j : Job} (hj : ¬ Answers j since limit) : j.isTerminal = false := by
        simpa using fun hend => hj (.inl hend)
      simp only [Audience.call, watch_of_waits hnow, watch_of_waits (mt hanswers.mp hnow), true_and]
      exact h.sit hw hv (.registered (hlive hnow)) (.registered (hlive (mt hanswers.mp hnow))) rfl
  | replay since limit =>
    refine ⟨?_, h⟩
    change Reply.answered (v.job.replay since limit) v.job.record =
      .answered (w.job.replay since limit) w.job.record
    rw [hreplay, h.engine.record]
  | receive =>
    obtain ⟨hw_reply, hw_engine, hw_box⟩ := call_receive w name
    obtain ⟨hv_reply, hv_engine, hv_box⟩ := call_receive v name
    have hengine := (hw_engine.symm.trans h.engine).trans hv_engine
    rcases h.mailbox?_eq with ⟨hm, hn⟩ | ⟨m, n, hm, hn, hcontent⟩
    · refine ⟨?_, hengine, ?_⟩
      · rw [hw_reply, hv_reply, hm, hn]
      · rw [hw_box, hv_box, hm, hn, Option.map_none]
    · obtain ⟨hreceipt, hrest⟩ := Mailbox.content_receive hcontent
      refine ⟨?_, hengine, ?_⟩
      · rw [hw_reply, hv_reply, hm, hn]
        exact congrArg Reply.received hreceipt
      · rw [hw_box, hv_box, hm, hn]
        exact congrArg some hrest
  | leave => exact ⟨rfl, h.sit hw hv .declined .declined rfl⟩

/-! ## Two runs -/

/-- The moves that concern an observer: the work, and its own calls. -/
def concerns (name : Name) : Move Name → Bool
  | .work _ => true
  | .call other _ => other = name

/-- A run without the calls of the other observers. -/
def purge (name : Name) (moves : List (Move Name)) : List (Move Name) :=
  moves.filter (concerns name)

theorem Alike.move {name : Name} {w v : Audience Name} (h : Alike name w v) (hw : w.Seated)
    (hv : v.Seated) {m : Move Name} (hm : concerns name m = true) :
    v.repliesAt name m = w.repliesAt name m ∧ Alike name (w.move m) (v.move m) := by
  cases m with
  | work op => exact ⟨rfl, h.work hw hv op⟩
  | call other c =>
    obtain rfl : other = name := by simpa [concerns] using hm
    obtain ⟨hreply, hnext⟩ := h.call hw hv c
    refine ⟨?_, hnext⟩
    simp only [repliesAt, if_true, hreply]

theorem alike_move {w : Audience Name} (hw : w.Seated) {name : Name} {m : Move Name}
    (hm : concerns name m = false) : w.repliesAt name m = [] ∧ Alike name w (w.move m) := by
  cases m with
  | work op => contradiction
  | call other c =>
    have hne : ¬ other = name := by simpa [concerns] using hm
    exact ⟨if_neg hne, alike_call hw (Ne.symm hne) c⟩

/-- An observer gets the same in a run with the calls of the others and in one without them. -/
theorem Alike.purge {name : Name} {w v : Audience Name} (h : Alike name w v) (hw : w.Seated)
    (hv : v.Seated) (moves : List (Move Name)) :
    v.replies name (purge name moves) = w.replies name moves ∧
      Alike name (w.run moves) (v.run (purge name moves)) := by
  induction moves generalizing w v with
  | nil => exact ⟨rfl, h⟩
  | cons m moves ih =>
    -- Both runs make the moves that concern the observer; the full run makes the others alone.
    cases hm : concerns name m with
    | true =>
      obtain ⟨hreply, hnext⟩ := h.move hw hv hm
      obtain ⟨hreplies, hend⟩ := ih hnext (seated_move hw m) (seated_move hv m)
      have hpurge : Audience.purge name (m :: moves) = m :: Audience.purge name moves :=
        List.filter_cons_of_pos hm
      rw [hpurge]
      refine ⟨?_, hend⟩
      rw [replies, replies, hreply, hreplies]
    | false =>
      obtain ⟨hreply, hnext⟩ := alike_move hw hm
      obtain ⟨hreplies, hend⟩ := ih (hnext.symm.trans h) (seated_move hw m) hv
      have hpurge : Audience.purge name (m :: moves) = Audience.purge name moves :=
        List.filter_cons_of_neg (by simp [hm])
      rw [hpurge]
      refine ⟨?_, hend⟩
      rw [replies, hreply, List.nil_append, hreplies]

/-- What an observer can rely on in two runs of a job with the same work and the same calls of its
own. -/
structure Undisturbed (name : Name) (w : Audience Name) (moves others : List (Move Name)) :
    Prop where
  replies : w.replies name moves = w.replies name others
  box : (w.run moves).box name = (w.run others).box name
  record : (w.run moves).job.record = (w.run others).job.record
  log : (w.run moves).job.log = (w.run others).job.log
  replay : ∀ since limit,
    (w.run moves).job.replay since limit = (w.run others).job.replay since limit

/-- Whatever other observers do, an observer gets the same history, the same events at the same
places, and the same job. -/
theorem undisturbed_of_purge_eq (record : Record) (capacity : Nat) (name : Name)
    (moves others : List (Move Name)) (h : purge name moves = purge name others) :
    Undisturbed name (empty (ofRecord record capacity)) moves others := by
  have hseated : (empty (ofRecord record capacity) : Audience Name).Seated :=
    seated_empty (orderly_ofRecord record capacity)
  have hpurge (moves : List (Move Name)) := (Alike.refl name _).purge hseated hseated moves
  obtain ⟨hmoves, hrun⟩ := hpurge moves
  obtain ⟨hothers, hrun'⟩ := hpurge others
  rw [← h] at hothers hrun'
  have halike := hrun'.trans hrun.symm
  have hlog := halike.engine.log
  exact ⟨hmoves.symm.trans hothers, halike.box, halike.engine.record, hlog,
    fun since limit => congrArg (fun log => log.after since limit) hlog⟩

/-- Observer 1 follows a build to its end. -/
def followedAlone : List (Move Nat) :=
  [.call 1 .attach, .work ⟨.publish "a" .output, rfl⟩, .call 1 .receive, .call 1 .receive,
    .work ⟨.cancel noon, rfl⟩, .work ⟨.notifyDone, rfl⟩, .call 1 .receive, .call 1 .receive]

/-- The same with others around it, so that observer 1 has another listener. -/
def followedInCompany : List (Move Nat) :=
  [.call 2 .attach, .call 3 (.watch 0 10), .call 1 .attach, .work ⟨.publish "a" .output, rfl⟩,
    .call 3 .receive, .call 3 .leave, .call 1 .receive, .call 2 .attach, .call 1 .receive,
    .work ⟨.cancel noon, rfl⟩, .work ⟨.notifyDone, rfl⟩, .call 1 .receive, .call 2 .receive,
    .call 1 .receive]

theorem undisturbed_inCompany :
    purge 1 followedInCompany = purge 1 followedAlone ∧
      Undisturbed 1 (empty (ofRecord specimen 2)) followedInCompany followedAlone :=
  ⟨rfl, undisturbed_of_purge_eq specimen 2 1 followedInCompany followedAlone rfl⟩

end Audience

end Job

end FirmwareJobs

import FirmwareJobs.Proofs.Job.Operation

/-! # The mailbox of one listener

An operation acts on the mailbox of a registered listener by itself: what it does depends on that
mailbox and on the job, but not on the other listeners. No listener gets the id of another one.
-/

namespace FirmwareJobs

open Time

namespace Mailbox

theorem id_post (e : Event) (m : Mailbox) : (m.post e).id = m.id := by
  unfold post
  split_ifs <;> rfl

theorem id_postLast (e : Event) (m : Mailbox) : (m.postLast e).id = m.id := id_post e m

theorem id_receive (m : Mailbox) : m.receive.2.id = m.id := by
  unfold receive
  cases m.events <;> rfl

theorem post_of_closed {m : Mailbox} (e : Event) (h : m.isOpen = false) : m.post e = m := by
  simp [post, h]

theorem post_of_full {m : Mailbox} (e : Event) (hopen : m.isOpen = true) (hfull : m.isFull = true) :
    m.post e = { m with isOpen := false } := by
  simp [post, hopen, hfull]

theorem post_of_room {m : Mailbox} (e : Event) (hopen : m.isOpen = true)
    (hroom : m.isFull = false) : m.post e = { m with events := m.events ++ [e] } := by
  simp [post, hopen, hroom]

theorem postLast_of_closed {m : Mailbox} (e : Event) (h : m.isOpen = false) :
    m.postLast e = m := by
  rw [postLast, post_of_closed e h, ← h]

theorem length_post_le {m : Mailbox} (e : Event) (h : m.events.length ≤ backlog) :
    (m.post e).events.length ≤ backlog := by
  unfold post
  split_ifs with hclosed hfull
  · exact h
  · exact h
  · simp only [isFull, decide_eq_true_eq] at hfull
    simp only [List.length_append, List.length_singleton]
    omega

end Mailbox

/-- The event of a receipt, if it has one. -/
def Receipt.events : Receipt → List Event
  | .event e => [e]
  | .pending | .closed => []

theorem Mailbox.events_receive (m : Mailbox) :
    m.receive.1.events ++ m.receive.2.events = m.events := by
  unfold Mailbox.receive
  cases h : m.events with
  | nil => cases hopen : m.isOpen <;> simp [Receipt.events, h]
  | cons e rest => simp [Receipt.events]

theorem Mailbox.length_receive_le (m : Mailbox) : m.receive.2.events.length ≤ m.events.length := by
  rw [← m.events_receive, List.length_append]
  exact Nat.le_add_left _ _

theorem Mailbox.isOpen_receive (m : Mailbox) : m.receive.2.isOpen = m.isOpen := by
  unfold Mailbox.receive
  cases m.events <;> rfl

namespace Job

/-- The mailbox of a listener that is registered. -/
def mailbox? (j : Job) (listener : Nat) : Option Mailbox :=
  j.mailboxes.find? (·.id == listener)

/-- The events that a listener has not received yet. -/
def waiting (j : Job) (listener : Nat) : List Event :=
  ((j.mailbox? listener).map (·.events)).getD []

/-- What an operation makes of a mailbox of the job; `none` if its listener leaves. -/
def mailboxAfter (j : Job) (op : Operation) (m : Mailbox) : Option Mailbox :=
  match op with
  | .publish line _ => some (m.post (.line (j.lastNumber + 1) line))
  | .notifyDone =>
    if j.doneSent ∨ !j.isTerminal then some m else some (m.postLast (.done j.record))
  | .receive listener => if listener = m.id then some m.receive.2 else some m
  | .leave listener => if listener = m.id then none else some m
  | _ => some m

theorem mailboxAfter_of_due {j : Job} (hsent : j.doneSent = false) (hend : j.isTerminal = true)
    (m : Mailbox) : j.mailboxAfter .notifyDone m = some (m.postLast (.done j.record)) :=
  if_neg (by simp [hsent, hend])

theorem mailboxAfter_of_silent {j : Job} (h : j.doneSent = true ∨ j.isTerminal = false)
    (m : Mailbox) : j.mailboxAfter .notifyDone m = some m :=
  if_pos (by simpa using h)

theorem id_of_mailbox? {j : Job} {listener : Nat} {m : Mailbox}
    (h : j.mailbox? listener = some m) : m.id = listener := by
  simpa using List.find?_some h

theorem mailbox?_of_map {f : Mailbox → Mailbox} (hf : ∀ m, (f m).id = m.id)
    (boxes : List Mailbox) (listener : Nat) :
    (boxes.map f).find? (·.id == listener) = (boxes.find? (·.id == listener)).map f := by
  rw [List.find?_map]
  congr 2
  funext m
  simp [hf]

theorem mailbox?_listen {j : Job} {listener : Nat} (h : listener ≠ j.nextListener) :
    j.listen.2.mailbox? listener = j.mailbox? listener := by
  have hne : (j.nextListener == listener) = false := by simpa using Ne.symm h
  simp [listen, mailbox?, List.find?_append, hne]

theorem mailbox?_listen_self {j : Job} (h : ∀ m ∈ j.mailboxes, m.id < j.nextListener) :
    j.listen.2.mailbox? j.nextListener = some ⟨j.nextListener, [], true⟩ := by
  have hnone : j.mailboxes.find? (·.id == j.nextListener) = none := by
    rw [List.find?_eq_none]
    intro m hm
    have hlt := h m hm
    simp only [beq_iff_eq]
    omega
  simp [listen, mailbox?, List.find?_append, hnone]

theorem receive_fst (j : Job) (listener : Nat) :
    (j.receive listener).1 = ((j.mailbox? listener).map (·.receive.1)).getD .closed := by
  unfold receive mailbox?
  cases j.mailboxes.find? (·.id == listener) <;> rfl

theorem receive_of_none {j : Job} {listener : Nat} (h : j.mailbox? listener = none) :
    (j.receive listener).2 = j := by
  have hfind : j.mailboxes.find? (·.id == listener) = none := h
  simp only [receive, hfind]

theorem receive_of_some {j : Job} {listener : Nat} {n : Mailbox}
    (h : j.mailbox? listener = some n) :
    (j.receive listener).2 = { j with
      mailboxes := j.mailboxes.map fun m => if m.id = listener then n.receive.2 else m } := by
  have hfind : j.mailboxes.find? (·.id == listener) = some n := h
  simp only [receive, hfind]

theorem mailbox?_receive (j : Job) (other listener : Nat) :
    (j.receive other).2.mailbox? listener =
      (j.mailbox? listener).map fun m => if other = m.id then m.receive.2 else m := by
  cases h : j.mailbox? other with
  | none =>
    rw [receive_of_none h]
    cases hl : j.mailbox? listener with
    | none => rfl
    | some m =>
      have hne : ¬ other = m.id := by
        rintro rfl
        rw [id_of_mailbox? hl, hl] at h
        contradiction
      simp [hne]
  | some n =>
    have hid (m : Mailbox) : (if m.id = other then n.receive.2 else m).id = m.id := by
      split_ifs with hm
      · rw [Mailbox.id_receive, id_of_mailbox? h, hm]
      · rfl
    rw [receive_of_some h]
    refine (mailbox?_of_map hid j.mailboxes listener).trans ?_
    change (j.mailbox? listener).map _ = _
    cases hl : j.mailbox? listener with
    | none => rfl
    | some m =>
      by_cases hm : other = m.id
      · have hnm : n = m := by
          rw [hm, id_of_mailbox? hl, hl] at h
          exact (Option.some.inj h).symm
        simp [hm, hnm]
      · simp [hm, Ne.symm hm]

theorem mailbox?_leave (j : Job) (other listener : Nat) :
    (j.leave other).mailbox? listener =
      (j.mailbox? listener).bind fun m => if other = m.id then none else some m := by
  unfold leave mailbox?
  rw [List.find?_filter]
  by_cases h : other = listener
  · have hgone : j.mailboxes.find? (fun m => decide (m.id != other ∧ m.id == listener)) = none := by
      rw [List.find?_eq_none]
      intro m _
      simp only [bne_iff_ne, beq_iff_eq, decide_eq_true_eq, not_and]
      intro hne hm
      exact hne (hm.trans h.symm)
    rw [hgone]
    cases hl : j.mailboxes.find? (·.id == listener) with
    | none => rfl
    | some m =>
      have hid : m.id = listener := id_of_mailbox? hl
      simp [hid, h]
  · have hsame : (fun m : Mailbox => decide (m.id != other ∧ m.id == listener)) =
        fun m => m.id == listener := by
      funext m
      by_cases hm : m.id = listener
      · simp [hm, Ne.symm h]
      · simp [hm]
    rw [hsame]
    cases hl : j.mailboxes.find? (·.id == listener) with
    | none => rfl
    | some m =>
      have hid : m.id = listener := id_of_mailbox? hl
      simp [hid, h]

theorem mailbox?_publish (j : Job) (line : String) (origin : Origin) (listener : Nat) :
    (j.publish line origin).mailbox? listener =
      (j.mailbox? listener).map (Mailbox.post (.line (j.lastNumber + 1) line)) :=
  mailbox?_of_map (Mailbox.id_post _) j.mailboxes listener

theorem mailbox?_notifyDone {j : Job} (hsent : j.doneSent = false) (hend : j.isTerminal = true)
    (listener : Nat) :
    j.notifyDone.mailbox? listener =
      (j.mailbox? listener).map (Mailbox.postLast (.done j.record)) := by
  rw [notifyDone_of_due hsent hend]
  exact mailbox?_of_map (Mailbox.id_postLast _) j.mailboxes listener

namespace Operation

/-- The operations that leave the listeners alone. -/
def isSilent : Operation → Bool
  | .start _ | .finish .. | .cancel _ | .setPid _ | .setSummary _ | .replay .. => true
  | _ => false

end Operation

/-- The listeners of two jobs are the same. -/
structure SameListeners (j next : Job) : Prop where
  mailboxes : next.mailboxes = j.mailboxes
  nextListener : next.nextListener = j.nextListener
  doneSent : next.doneSent = j.doneSent

theorem sameListeners_apply (j : Job) {op : Operation} (h : op.isSilent = true) :
    SameListeners j (j.apply op) := by
  cases op with
  | publish | notifyDone | attach | watch | receive | leave => contradiction
  | start now =>
    rcases j.apply_start now with hs | ⟨-, -, hs⟩ <;> rw [hs] <;> exact ⟨rfl, rfl, rfl⟩
  | finish code now =>
    rcases j.apply_finish code now with ⟨-, hs⟩ | ⟨-, hs⟩ <;> rw [hs] <;> exact ⟨rfl, rfl, rfl⟩
  | cancel now =>
    rcases j.apply_cancel now with ⟨-, hs⟩ | ⟨-, hs⟩ | ⟨-, hs⟩ <;> rw [hs] <;>
      exact ⟨rfl, rfl, rfl⟩
  | setPid | setSummary | replay => exact ⟨rfl, rfl, rfl⟩

theorem mailbox?_attach (j : Job) {listener : Nat} (h : listener ≠ j.nextListener) :
    j.attach.2.2.mailbox? listener = j.mailbox? listener := by
  rcases attach_cases j with ha | ⟨-, ha⟩
  · rw [ha]
  · rw [ha, mailbox?_listen h]

theorem mailbox?_watch (j : Job) (since limit : Nat) {listener : Nat}
    (h : listener ≠ j.nextListener) :
    (j.watch since limit).2.mailbox? listener = j.mailbox? listener := by
  rcases watch_cases j since limit with hw | ⟨-, hw⟩
  · rw [hw]
  · rw [hw, mailbox?_listen h]

/-- One step from the view of a listener that is registered already. -/
theorem mailbox?_apply (j : Job) (op : Operation) {listener : Nat}
    (h : listener ≠ j.nextListener) :
    (j.apply op).mailbox? listener = (j.mailbox? listener).bind (j.mailboxAfter op) := by
  have hbind (f : Mailbox → Mailbox) :
      (j.mailbox? listener).map f = (j.mailbox? listener).bind fun m => some (f m) := by
    cases j.mailbox? listener <;> rfl
  have hsame : j.mailbox? listener = (j.mailbox? listener).bind some := by
    cases j.mailbox? listener <;> rfl
  cases op with
  | publish line origin => exact (mailbox?_publish j line origin listener).trans (hbind _)
  | notifyDone =>
    change j.notifyDone.mailbox? listener = _
    by_cases hdue : j.doneSent = false ∧ j.isTerminal = true
    · rw [mailbox?_notifyDone hdue.1 hdue.2, hbind, funext (mailboxAfter_of_due hdue.1 hdue.2)]
    · have hsilent : j.doneSent = true ∨ j.isTerminal = false := by
        rw [not_and_or] at hdue
        simpa using hdue
      rw [notifyDone_of_silent hsilent, funext (mailboxAfter_of_silent hsilent)]
      exact hsame
  | attach => exact (mailbox?_attach j h).trans hsame
  | watch since limit => exact (mailbox?_watch j since limit h).trans hsame
  | receive other =>
    refine (mailbox?_receive j other listener).trans ((hbind _).trans ?_)
    congr 1
    funext m
    simp only [mailboxAfter]
    split_ifs <;> rfl
  | leave other => exact mailbox?_leave j other listener
  | start | finish | cancel | setPid | setSummary | replay =>
    rw [mailbox?, (sameListeners_apply j rfl).mailboxes]
    exact hsame

end Job

end FirmwareJobs

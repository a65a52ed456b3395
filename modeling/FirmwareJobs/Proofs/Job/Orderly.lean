import FirmwareJobs.Proofs.Job.Mailbox

/-! # The mailboxes of a job together

Every operation keeps the mailboxes in order: their ids are below the next one, none holds more than
the backlog, and all are closed once the end of the job was announced.
-/

namespace FirmwareJobs.Job

open Time

/-- Ids are given out in order, no mailbox holds too much, and once the end was announced the job
has ended and nothing more is delivered. -/
structure Orderly (j : Job) : Prop where
  ids : ∀ m ∈ j.mailboxes, m.id < j.nextListener
  bounded : ∀ m ∈ j.mailboxes, m.events.length ≤ backlog
  last : j.doneSent = true → j.isTerminal = true
  closed : j.doneSent = true → ∀ m ∈ j.mailboxes, m.isOpen = false

theorem orderly_ofRecord (record : Record) (capacity : Nat) : (ofRecord record capacity).Orderly :=
  ⟨fun _ hm => (nomatch hm), fun _ hm => (nomatch hm), fun hs => (nomatch hs),
    fun hs => (nomatch hs)⟩

theorem orderly_of_map {j next : Job} {f : Mailbox → Mailbox} (h : j.Orderly)
    (hboxes : next.mailboxes = j.mailboxes.map f) (hnext : next.nextListener = j.nextListener)
    (hrecord : next.record = j.record) (hsent : next.doneSent = j.doneSent)
    (hid : ∀ m, (f m).id = m.id)
    (hlength : ∀ m, m.events.length ≤ backlog → (f m).events.length ≤ backlog)
    (hclosed : (∀ m ∈ j.mailboxes, m.isOpen = false) →
      ∀ m ∈ j.mailboxes, (f m).isOpen = false) : next.Orderly := by
  have hold {P : Mailbox → Prop} (hf : ∀ m ∈ j.mailboxes, P (f m)) : ∀ m ∈ next.mailboxes, P m := by
    rw [hboxes]
    intro m hm
    obtain ⟨n, hn, rfl⟩ := List.mem_map.mp hm
    exact hf n hn
  constructor
  · exact hold fun m hm => by rw [hid, hnext]; exact h.ids m hm
  · exact hold fun m hm => hlength m (h.bounded m hm)
  · intro hs
    rw [isTerminal, hrecord]
    exact h.last (hsent ▸ hs)
  · exact fun hs => hold (hclosed (h.closed (hsent ▸ hs)))

theorem orderly_publish {j : Job} (line : String) (origin : Origin) (h : j.Orderly) :
    (j.publish line origin).Orderly := by
  refine orderly_of_map h rfl rfl rfl rfl (Mailbox.id_post _) (fun m => Mailbox.length_post_le _) ?_
  intro hall m hm
  rw [Mailbox.post_of_closed _ (hall m hm)]
  exact hall m hm

theorem orderly_notifyDone {j : Job} (h : j.Orderly) : j.notifyDone.Orderly := by
  by_cases hsilent : j.doneSent = true ∨ j.isTerminal = false
  · rwa [notifyDone_of_silent hsilent]
  · obtain ⟨hsent, hlive⟩ := not_or.mp hsilent
    have hend : j.isTerminal = true := by simpa using hlive
    rw [notifyDone_of_due (by simpa using hsent) hend]
    constructor
    · intro m hm
      obtain ⟨n, hn, rfl⟩ := List.mem_map.mp hm
      rw [Mailbox.id_postLast]
      exact h.ids n hn
    · intro m hm
      obtain ⟨n, hn, rfl⟩ := List.mem_map.mp hm
      exact Mailbox.length_post_le _ (h.bounded n hn)
    · exact fun _ => hend
    · intro _ m hm
      obtain ⟨n, -, rfl⟩ := List.mem_map.mp hm
      rfl

theorem orderly_listen {j : Job} (hlive : j.isTerminal = false) (h : j.Orderly) :
    j.listen.2.Orderly := by
  have hsent : ¬ j.doneSent = true := fun hs => by
    have hend := h.last hs
    rw [hlive] at hend
    contradiction
  constructor
  · intro m hm
    change m ∈ j.mailboxes ++ [⟨j.nextListener, [], true⟩] at hm
    rcases List.mem_append.mp hm with hold | hnew
    · exact (h.ids m hold).trans (Nat.lt_succ_self _)
    · rw [List.mem_singleton.mp hnew]
      exact Nat.lt_succ_self _
  · intro m hm
    change m ∈ j.mailboxes ++ [⟨j.nextListener, [], true⟩] at hm
    rcases List.mem_append.mp hm with hold | hnew
    · exact h.bounded m hold
    · rw [List.mem_singleton.mp hnew]
      exact Nat.zero_le _
  · exact fun hs => absurd hs hsent
  · exact fun hs => absurd hs hsent

theorem orderly_receive {j : Job} (listener : Nat) (h : j.Orderly) :
    (j.receive listener).2.Orderly := by
  cases hl : j.mailbox? listener with
  | none => rwa [receive_of_none hl]
  | some n =>
    have hn : n ∈ j.mailboxes := List.mem_of_find?_eq_some hl
    rw [receive_of_some hl]
    refine orderly_of_map h rfl rfl rfl rfl (fun m => ?_) (fun m hm => ?_) fun hall m hm => ?_
    · split_ifs with hid
      · rw [Mailbox.id_receive, id_of_mailbox? hl, hid]
      · rfl
    · split_ifs
      · exact (Mailbox.length_receive_le n).trans (h.bounded n hn)
      · exact hm
    · split_ifs
      · rw [Mailbox.isOpen_receive, hall n hn]
      · exact hall m hm

theorem orderly_leave {j : Job} (listener : Nat) (h : j.Orderly) : (j.leave listener).Orderly :=
  ⟨fun m hm => h.ids m (List.mem_of_mem_filter hm),
    fun m hm => h.bounded m (List.mem_of_mem_filter hm), h.last,
    fun hs m hm => h.closed hs m (List.mem_of_mem_filter hm)⟩

theorem orderly_of_sameListeners {j next : Job} (hsame : SameListeners j next)
    (hend : j.isTerminal = true → next.isTerminal = true) (h : j.Orderly) : next.Orderly := by
  constructor
  · rw [hsame.mailboxes, hsame.nextListener]
    exact h.ids
  · rw [hsame.mailboxes]
    exact h.bounded
  · intro hs
    exact hend (h.last (hsame.doneSent ▸ hs))
  · intro hs
    rw [hsame.mailboxes]
    exact h.closed (hsame.doneSent ▸ hs)

theorem orderly_apply {j : Job} (op : Operation) (h : j.Orderly) : (j.apply op).Orderly := by
  cases op with
  | publish line origin => exact orderly_publish line origin h
  | notifyDone => exact orderly_notifyDone h
  | attach =>
    change j.attach.2.2.Orderly
    rcases attach_cases j with ha | ⟨hlive, ha⟩
    · rwa [ha]
    · rw [ha]; exact orderly_listen hlive h
  | watch since limit =>
    change (j.watch since limit).2.Orderly
    rcases watch_cases j since limit with hw | ⟨hlive, hw⟩
    · rwa [hw]
    · rw [hw]; exact orderly_listen hlive h
  | receive listener => exact orderly_receive listener h
  | leave listener => exact orderly_leave listener h
  | start | finish | cancel | setPid | setSummary | replay =>
    exact orderly_of_sameListeners (sameListeners_apply j rfl) (isTerminal_apply _) h

theorem orderly_run {j : Job} (ops : List Operation) (h : j.Orderly) : (j.run ops).Orderly := by
  induction ops generalizing j with
  | nil => exact h
  | cons op ops ih => exact ih (orderly_apply op h)

/-! ## Later listeners get later ids -/

theorem nextListener_le_apply (j : Job) (op : Operation) :
    j.nextListener ≤ (j.apply op).nextListener := by
  cases op with
  | attach =>
    change j.nextListener ≤ j.attach.2.2.nextListener
    rcases attach_cases j with ha | ⟨-, ha⟩ <;> rw [ha]
    exact Nat.le_succ _
  | watch since limit =>
    change j.nextListener ≤ (j.watch since limit).2.nextListener
    rcases watch_cases j since limit with hw | ⟨-, hw⟩ <;> rw [hw]
    exact Nat.le_succ _
  | receive listener =>
    change j.nextListener ≤ (j.receive listener).2.nextListener
    unfold receive
    cases j.mailboxes.find? (·.id == listener) <;> exact le_rfl
  | notifyDone =>
    change j.nextListener ≤ j.notifyDone.nextListener
    unfold notifyDone
    split <;> exact le_rfl
  | publish | leave => exact le_rfl
  | start | finish | cancel | setPid | setSummary | replay =>
    exact (sameListeners_apply j rfl).nextListener.ge

theorem nextListener_le_run (j : Job) (ops : List Operation) :
    j.nextListener ≤ (j.run ops).nextListener := by
  induction ops generalizing j with
  | nil => exact le_rfl
  | cons op ops ih => exact (nextListener_le_apply j op).trans (ih _)

end FirmwareJobs.Job

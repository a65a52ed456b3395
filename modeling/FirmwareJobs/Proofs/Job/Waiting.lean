import FirmwareJobs.Proofs.Job.Mailbox

/-! # What waits for listeners

Every event that waits in a mailbox was posted by the job: a line when it was published, the
announcement of the end with the record that the job had then and has still.
-/

namespace FirmwareJobs

theorem Mailbox.mem_events_post {m : Mailbox} {e x : Event} (h : x ∈ (m.post e).events) :
    x ∈ m.events ∨ x = e := by
  unfold Mailbox.post at h
  split_ifs at h with hclosed hfull
  · exact .inl h
  · exact .inl h
  · simpa using h

theorem Mailbox.mem_events_receive {m : Mailbox} {x : Event} (h : x ∈ m.receive.2.events) :
    x ∈ m.events := by
  rw [← m.events_receive]
  exact List.mem_append_right _ h

namespace Job

/-- The event waits in one of the mailboxes. -/
def Awaits (j : Job) (x : Event) : Prop := ∃ m ∈ j.mailboxes, x ∈ m.events

theorem awaits_listen {j : Job} {x : Event} (h : j.listen.2.Awaits x) : j.Awaits x := by
  obtain ⟨m, hm, hx⟩ := h
  rcases List.mem_append.mp hm with hold | hnew
  · exact ⟨m, hold, hx⟩
  · rw [List.mem_singleton.mp hnew] at hx
    contradiction

theorem awaits_leave {j : Job} {listener : Nat} {x : Event} (h : (j.leave listener).Awaits x) :
    j.Awaits x := by
  obtain ⟨m, hm, hx⟩ := h
  exact ⟨m, List.mem_of_mem_filter hm, hx⟩

theorem awaits_receive {j : Job} {listener : Nat} {x : Event}
    (h : (j.receive listener).2.Awaits x) : j.Awaits x := by
  cases hbox : j.mailbox? listener with
  | none => rwa [receive_of_none hbox] at h
  | some n =>
    rw [receive_of_some hbox] at h
    obtain ⟨m, hm, hx⟩ := h
    obtain ⟨m', hm', rfl⟩ := List.mem_map.mp hm
    by_cases hid : m'.id = listener
    · rw [if_pos hid] at hx
      exact ⟨n, List.mem_of_find?_eq_some hbox, Mailbox.mem_events_receive hx⟩
    · rw [if_neg hid] at hx
      exact ⟨m', hm', hx⟩

theorem awaits_apply {j : Job} {op : Operation} {x : Event} (h : (j.apply op).Awaits x) :
    j.Awaits x ∨ (∃ line, op.line? = some line ∧ x = .line (j.lastNumber + 1) line) ∨
      op = .notifyDone ∧ j.isTerminal = true ∧ x = .done j.record := by
  cases op with
  | publish line origin =>
    obtain ⟨m, hm, hx⟩ := h
    obtain ⟨m', hm', rfl⟩ := List.mem_map.mp hm
    rcases Mailbox.mem_events_post hx with hold | hnew
    · exact .inl ⟨m', hm', hold⟩
    · exact .inr (.inl ⟨line, rfl, hnew⟩)
  | notifyDone =>
    change j.notifyDone.Awaits x at h
    by_cases hdue : j.doneSent = false ∧ j.isTerminal = true
    · rw [notifyDone_of_due hdue.1 hdue.2] at h
      obtain ⟨m, hm, hx⟩ := h
      obtain ⟨m', hm', rfl⟩ := List.mem_map.mp hm
      rcases Mailbox.mem_events_post hx with hold | hnew
      · exact .inl ⟨m', hm', hold⟩
      · exact .inr (.inr ⟨rfl, hdue.2, hnew⟩)
    · rw [not_and_or] at hdue
      rw [notifyDone_of_silent (by simpa using hdue)] at h
      exact .inl h
  | attach =>
    change j.attach.2.2.Awaits x at h
    rcases attach_cases j with ha | ⟨-, ha⟩
    · exact .inl (ha ▸ h)
    · exact .inl (awaits_listen (ha ▸ h))
  | watch since limit =>
    change (j.watch since limit).2.Awaits x at h
    rcases watch_cases j since limit with hw | ⟨-, hw⟩
    · rw [hw] at h
      exact .inl h
    · rw [hw] at h
      exact .inl (awaits_listen h)
  | receive listener => exact .inl (awaits_receive h)
  | leave listener => exact .inl (awaits_leave h)
  | start | finish | cancel | setPid | setSummary | replay =>
    rw [Awaits, (sameListeners_apply j rfl).mailboxes] at h
    exact .inl h

/-- Announcements of the end that wait are true. -/
def Truthful (j : Job) : Prop :=
  ∀ r, j.Awaits (.done r) → j.isTerminal = true ∧ r = j.record

theorem truthful_ofRecord (record : Record) (capacity : Nat) :
    (ofRecord record capacity).Truthful := by
  rintro r ⟨m, hm, -⟩
  contradiction

theorem truthful_apply {j : Job} {op : Operation} (h : j.Truthful)
    (hop : j.isTerminal = true → ∀ summary, op ≠ .setSummary summary) :
    (j.apply op).Truthful := by
  intro r hr
  have hbefore : j.isTerminal = true ∧ r = j.record := by
    rcases awaits_apply hr with hold | ⟨line, -, hline⟩ | ⟨-, hend, hdone⟩
    · exact h r hold
    · contradiction
    · exact ⟨hend, by simpa using hdone⟩
  obtain ⟨hend, hrecord⟩ := hbefore
  exact ⟨isTerminal_apply op hend, hrecord.trans (record_apply_of_terminal hend (hop hend)).symm⟩

theorem truthful_listen {j : Job} (h : j.Truthful) : j.listen.2.Truthful :=
  fun r hr => h r (awaits_listen hr)

theorem truthful_leave {j : Job} (h : j.Truthful) (listener : Nat) :
    (j.leave listener).Truthful :=
  fun r hr => h r (awaits_leave hr)

theorem truthful_receive {j : Job} (h : j.Truthful) (listener : Nat) :
    (j.receive listener).2.Truthful := by
  intro r hr
  rw [isTerminal, (sameCore_receive j listener).record]
  exact h r (awaits_receive hr)

theorem awaits_of_receipt {j : Job} {listener : Nat} {x : Event}
    (h : (j.receive listener).1 = .event x) : j.Awaits x := by
  rw [receive_fst] at h
  cases hbox : j.mailbox? listener with
  | none =>
    rw [hbox] at h
    contradiction
  | some m =>
    have hreceipt : m.receive.1 = .event x := by simpa [hbox] using h
    refine ⟨m, List.mem_of_find?_eq_some hbox, ?_⟩
    rw [← m.events_receive, hreceipt]
    exact List.mem_append_left _ (List.mem_singleton.mpr rfl)

end Job

end FirmwareJobs

import FirmwareJobs.Proofs.Job.Listening

/-! # The stream of one listener

A listener hears the lines published after it was registered, in order and with their numbers. The
announcement of the end comes last. It is missed only by a listener that left or was cut off with a
full mailbox, and such a listener can still read what waited for it.
-/

namespace FirmwareJobs.Job

open Time

/-! ## Reading a mailbox to its end -/

theorem receive_step {j : Job} (hj : j.Orderly) {listener : Nat} {m : Mailbox}
    (hbox : j.mailbox? listener = some m) :
    j.heardAt listener (.receive listener) = m.receive.1.events ∧
      (j.apply (.receive listener)).mailbox? listener = some m.receive.2 := by
  constructor
  · rw [heardAt, if_pos rfl, receive_fst, hbox]
    rfl
  · rw [mailbox?_apply_of_some hj _ hbox]
    exact if_pos (id_of_mailbox? hbox).symm

theorem heard_replicate_receive {j : Job} (hj : j.Orderly) {listener : Nat} {m : Mailbox}
    (hbox : j.mailbox? listener = some m) :
    j.heard listener (List.replicate m.events.length (.receive listener)) = m.events ∧
      (j.run (List.replicate m.events.length (.receive listener))).mailbox? listener =
        some { m with events := [] } := by
  obtain ⟨id, events, isOpen⟩ := m
  induction events generalizing j with
  | nil => exact ⟨rfl, hbox⟩
  | cons e rest ih =>
    obtain ⟨hheard, hnext⟩ := receive_step hj hbox
    obtain ⟨hrest, hend⟩ := ih (orderly_apply _ hj) hnext
    refine ⟨?_, hend⟩
    rw [List.length_cons, List.replicate_succ, heard, hheard, hrest]
    rfl

theorem drain_of_closed {j : Job} (hj : j.Orderly) {listener : Nat} {m : Mailbox}
    (hbox : j.mailbox? listener = some m) (hclosed : m.isOpen = false) :
    j.heard listener (List.replicate (j.waiting listener).length (.receive listener)) =
        j.waiting listener ∧
      ((j.run (List.replicate (j.waiting listener).length (.receive listener))).receive
        listener).1 = .closed := by
  obtain ⟨hheard, hend⟩ := heard_replicate_receive hj hbox
  rw [waiting_eq hbox]
  refine ⟨hheard, ?_⟩
  simp [receive_fst, hend, Mailbox.receive, hclosed]

/-! ## How a listener stops listening -/

/-- The end of the job was announced in the run, right after the operations `before`. -/
def AnnouncedAfter (j : Job) (before ops : List Operation) : Prop :=
  (j.run before).isTerminal = true ∧ ∃ after, ops = before ++ .notifyDone :: after

/-- Some operation of the run found the mailbox of the listener full. -/
def WasCutOff (j : Job) (listener : Nat) (ops : List Operation) : Prop :=
  ∃ before op after, ops = before ++ op :: after ∧ (j.run before).CutsOff listener op

/-- The job has just registered a listener that has heard nothing yet. -/
structure Registered (j : Job) (listener : Nat) : Prop where
  orderly : j.Orderly
  box : j.mailbox? listener = some ⟨listener, [], true⟩

/-- The ways in which the stream of a registered listener can go. -/
inductive Outcome (j : Job) (listener : Nat) (ops : List Operation) : Prop
  | listening (listens : (j.run ops).Listens listener)
      (all : j.delivered listener ops = lineEvents j.lastNumber (published ops))
  | left (before after : List Operation) (split : ops = before ++ .leave listener :: after)
      (some : j.delivered listener ops <+: lineEvents j.lastNumber (published before))
  | cutOff (before : List Operation) (op : Operation) (after : List Operation)
      (split : ops = before ++ op :: after) (cut : (j.run before).CutsOff listener op)
      (some : j.delivered listener ops <+: lineEvents j.lastNumber (published before))
  | ended (before : List Operation) (listened : (j.run before).Listens listener)
      (announced : j.AnnouncedAfter before ops)
      (some : j.delivered listener ops <+:
        lineEvents j.lastNumber (published before) ++ [.done (j.run before).record])
      (all : .leave listener ∉ ops → j.delivered listener ops =
        lineEvents j.lastNumber (published before) ++ [.done (j.run before).record])

namespace Registered

variable {j : Job} {listener : Nat}

theorem listens (h : j.Registered listener) : j.Listens listener := ⟨_, h.box, rfl⟩

theorem lt_nextListener (h : j.Registered listener) (ops : List Operation) :
    listener < (j.run ops).nextListener :=
  (Job.lt_nextListener h.orderly h.box).trans_le (nextListener_le_run j ops)

/-- While it listens, a registered listener gets every line. -/
theorem delivered (h : j.Registered listener) (ops : List Operation)
    (hend : (j.run ops).Listens listener) :
    j.delivered listener ops = lineEvents j.lastNumber (published ops) :=
  delivered_of_listens h.orderly ops h.box rfl hend

theorem delivered_of_closes (h : j.Registered listener) {before : List Operation}
    {op : Operation} {n : Mailbox} (after : List Operation)
    (hquiet : (j.run before).heardAt listener op = [])
    (hnext : ((j.run before).apply op).mailbox? listener = some n) (hclosed : n.isOpen = false) :
    j.delivered listener (before ++ op :: after) <+: j.heard listener before ++ n.events ∧
      (.leave listener ∉ after →
        j.delivered listener (before ++ op :: after) = j.heard listener before ++ n.events ∧
          ∃ m, (j.run (before ++ op :: after)).mailbox? listener = some m ∧ m.isOpen = false) := by
  have horderly := orderly_apply op (orderly_run before h.orderly)
  obtain ⟨⟨-, hinit⟩, hall⟩ := delivered_of_closed horderly after hnext hclosed
  rw [delivered_append, delivered_cons, hquiet, List.nil_append, run_append, run_cons]
  refine ⟨(List.prefix_append_right_inj _).mpr hinit, fun hstay => ?_⟩
  obtain ⟨hrest, hbox⟩ := hall hstay
  exact ⟨by rw [hrest], hbox⟩

theorem delivered_of_cutsOff (h : j.Registered listener) {before : List Operation}
    {op : Operation} (after : List Operation) (hcut : (j.run before).CutsOff listener op) :
    j.delivered listener (before ++ op :: after) <+:
        lineEvents j.lastNumber (published before) ∧
      (.leave listener ∉ after →
        j.delivered listener (before ++ op :: after) =
            lineEvents j.lastNumber (published before) ∧
          ∃ m, (j.run (before ++ op :: after)).mailbox? listener = some m ∧
            m.isOpen = false) := by
  have horderly := orderly_run before h.orderly
  obtain ⟨hop, hlistens, hlength⟩ := hcut
  obtain ⟨m, hbox, hopen⟩ := hlistens
  have hall : j.heard listener before ++ m.events =
      lineEvents j.lastNumber (published before) := by
    rw [← h.delivered before ⟨m, hbox, hopen⟩, Job.delivered, waiting_eq hbox]
  have hfull : m.isFull = true := by
    rw [waiting_eq hbox] at hlength
    simp [Mailbox.isFull, hlength]
  have hpost (e : Event) : m.post e = { m with isOpen := false } :=
    Mailbox.post_of_full e hopen hfull
  have hafter : (j.run before).mailboxAfter op m = some { m with isOpen := false } := by
    rcases hop with hline | ⟨rfl, hend⟩
    · cases op with
      | publish line origin => rw [mailboxAfter, hpost]
      | _ => contradiction
    · rw [mailboxAfter_of_due (doneSent_of_open horderly hbox hopen) hend, Mailbox.postLast, hpost]
  have hquiet : (j.run before).heardAt listener op = [] := by
    cases op with
    | receive other => simp [Operation.line?] at hop
    | _ => rfl
  have hnext := (mailbox?_apply_of_some horderly op hbox).trans hafter
  have hcloses := h.delivered_of_closes after hquiet hnext rfl
  rwa [hall] at hcloses

theorem outcome (h : j.Registered listener) (ops : List Operation) : Outcome j listener ops := by
  rcases holds_or_stops (P := fun j => j.Listens listener) ops h.listens with
    hlistens | ⟨before, op, after, rfl, hbefore, hstop⟩
  · exact .listening hlistens (h.delivered ops hlistens)
  · have horderly := orderly_run before h.orderly
    have hall := h.delivered before hbefore
    obtain ⟨m, hbox, hopen⟩ := hbefore
    rw [Job.delivered, waiting_eq hbox] at hall
    have hnext := mailbox?_apply_of_some horderly op hbox
    cases stepOfOpen horderly op hbox hopen with
    | goesOn n hafter hn _ => exact absurd ⟨n, hnext.trans hafter, hn⟩ hstop
    | leaves is hafter =>
      subst is
      refine .left before after rfl ?_
      have hknown := h.lt_nextListener (before ++ [.leave listener])
      rw [run_append, run_cons, run_nil] at hknown
      obtain ⟨-, hrest⟩ := delivered_of_none after hknown (hnext.trans hafter)
      rw [delivered_append, delivered_cons, hrest, ← hall]
      exact (List.prefix_append_right_inj _).mpr List.nil_prefix
    | overflows cut hafter =>
      exact .cutOff before op after rfl cut (h.delivered_of_cutsOff after cut).1
    | ends is due hafter =>
      subst is
      obtain ⟨hinit, hwhole⟩ := h.delivered_of_closes after rfl (hnext.trans hafter) rfl
      rw [← List.append_assoc, hall] at hinit hwhole
      refine .ended before ⟨m, hbox, hopen⟩ ⟨due, after, rfl⟩ hinit fun hstay => ?_
      exact (hwhole fun hm => hstay (by simp [hm])).1

end Registered

/-! ## The guarantee -/

theorem doneSent_apply {j : Job} (op : Operation) (h : j.doneSent = true) :
    (j.apply op).doneSent = true := by
  cases op with
  | publish | leave => exact h
  | notifyDone =>
    change j.notifyDone.doneSent = true
    rw [notifyDone_of_silent (.inl h), h]
  | attach =>
    change j.attach.2.2.doneSent = true
    rcases attach_cases j with ha | ⟨-, ha⟩ <;> rw [ha]
    · exact h
    · exact h
  | watch since limit =>
    change (j.watch since limit).2.doneSent = true
    rcases watch_cases j since limit with hw | ⟨-, hw⟩ <;> rw [hw]
    · exact h
    · exact h
  | receive other =>
    change (j.receive other).2.doneSent = true
    cases hbox : j.mailbox? other with
    | none => rwa [receive_of_none hbox]
    | some m => rwa [receive_of_some hbox]
  | start | finish | cancel | setPid | setSummary | replay =>
    rw [(sameListeners_apply j rfl).doneSent, h]

theorem doneSent_run {j : Job} (ops : List Operation) (h : j.doneSent = true) :
    (j.run ops).doneSent = true := by
  induction ops generalizing j with
  | nil => exact h
  | cons op ops ih => exact ih (doneSent_apply op h)

theorem doneSent_of_announced {j : Job} {before ops : List Operation}
    (h : j.AnnouncedAfter before ops) : (j.run ops).doneSent = true := by
  obtain ⟨hend, after, rfl⟩ := h
  rw [run_append, run_cons]
  apply doneSent_run
  change (j.run before).notifyDone.doneSent = true
  by_cases hsent : (j.run before).doneSent = true
  · rw [notifyDone_of_silent (.inl hsent), hsent]
  · rw [notifyDone_of_due (by simpa using hsent) hend]

theorem not_listens_of_doneSent {j : Job} (hj : j.Orderly) (hsent : j.doneSent = true)
    (listener : Nat) : ¬ j.Listens listener := by
  rintro ⟨m, hbox, hopen⟩
  rw [doneSent_of_open hj hbox hopen] at hsent
  contradiction

/-- The events are lines that follow the first ones, in order and without a gap; if the
announcement of the end is among them, it comes last and all earlier lines precede it. -/
def InOrder (j : Job) (first : Nat) (ops : List Operation) (events : List Event) : Prop :=
  (∃ lines, lines <+: published ops ∧ events = lineEvents first lines) ∨
    ∃ before, j.AnnouncedAfter before ops ∧
      events = lineEvents first (published before) ++ [.done (j.run before).record]

theorem inOrder_of_prefix_lines (j : Job) {first : Nat} {before ops : List Operation}
    {events : List Event} (hbefore : before <+: ops)
    (h : events <+: lineEvents first (published before)) : j.InOrder first ops events := by
  refine .inl ⟨(published before).take events.length, ?_, ?_⟩
  · obtain ⟨after, rfl⟩ := hbefore
    rw [published_append]
    exact (List.take_prefix _ _).trans (List.prefix_append _ _)
  · rw [← take_lineEvents, ← List.prefix_iff_eq_take]
    exact h

theorem inOrder_of_prefix_done {j : Job} {first : Nat} {before ops : List Operation}
    {events : List Event} (hannounced : j.AnnouncedAfter before ops)
    (h : events <+: lineEvents first (published before) ++ [.done (j.run before).record]) :
    j.InOrder first ops events := by
  rcases List.prefix_concat_iff.mp h with hwhole | hlines
  · exact .inr ⟨before, hannounced, hwhole⟩
  · obtain ⟨-, after, rfl⟩ := hannounced
    exact inOrder_of_prefix_lines j (List.prefix_append _ _) hlines

theorem inOrder_of_prefix {j : Job} {first : Nat} {ops : List Operation} {events more : List Event}
    (h : j.InOrder first ops more) (hinit : events <+: more) : j.InOrder first ops events := by
  rcases h with ⟨lines, hlines, rfl⟩ | ⟨before, hannounced, rfl⟩
  · refine .inl ⟨lines.take events.length, (List.take_prefix _ _).trans hlines, ?_⟩
    rw [← take_lineEvents, ← List.prefix_iff_eq_take]
    exact hinit
  · exact inOrder_of_prefix_done hannounced hinit

end FirmwareJobs.Job

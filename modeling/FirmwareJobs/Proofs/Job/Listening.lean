import FirmwareJobs.Proofs.Job.Orderly

/-! # What a listener hears

While a mailbox is open, the events received from it and those that wait in it are all lines
published since the listener was registered. Three operations end this: the owner leaves, an event
finds the mailbox full, or the last event is delivered. Afterwards nothing is added any more.
-/

namespace FirmwareJobs.Job

open Time

/-- The events of the lines that are numbered after `first`. -/
def lineEvents (first : Nat) (lines : List String) : List Event :=
  (Log.numbered first lines).map fun entry => .line entry.1 entry.2

@[simp] theorem lineEvents_nil (first : Nat) : lineEvents first [] = [] := rfl

theorem lineEvents_append (first : Nat) (lines more : List String) :
    lineEvents first (lines ++ more) =
      lineEvents first lines ++ lineEvents (first + lines.length) more := by
  simp [lineEvents, Log.numbered_append]

theorem take_lineEvents (first count : Nat) (lines : List String) :
    (lineEvents first lines).take count = lineEvents first (lines.take count) := by
  rw [lineEvents, ← List.map_take, Log.take_numbered, lineEvents]

/-- The event that an operation hands to a listener. -/
def heardAt (j : Job) (listener : Nat) : Operation → List Event
  | .receive other => if other = listener then (j.receive listener).1.events else []
  | _ => []

/-- All events that a listener receives in a run. -/
def heard (j : Job) (listener : Nat) : List Operation → List Event
  | [] => []
  | op :: ops => j.heardAt listener op ++ (j.apply op).heard listener ops

theorem heard_append (j : Job) (listener : Nat) (ops more : List Operation) :
    j.heard listener (ops ++ more) =
      j.heard listener ops ++ (j.run ops).heard listener more := by
  induction ops generalizing j with
  | nil => rfl
  | cons op ops ih => simp [heard, ih]

@[simp] theorem heard_singleton (j : Job) (listener : Nat) (op : Operation) :
    j.heard listener [op] = j.heardAt listener op := by
  simp [heard]

/-- The received and the waiting events of a listener, in order. -/
def delivered (j : Job) (listener : Nat) (ops : List Operation) : List Event :=
  j.heard listener ops ++ (j.run ops).waiting listener

theorem delivered_append (j : Job) (listener : Nat) (ops more : List Operation) :
    j.delivered listener (ops ++ more) =
      j.heard listener ops ++ (j.run ops).delivered listener more := by
  simp [delivered, heard_append]

/-- The listener is registered and still gets what is posted. -/
def Listens (j : Job) (listener : Nat) : Prop :=
  ∃ m, j.mailbox? listener = some m ∧ m.isOpen = true

/-- The operation has an event for a listener whose mailbox is full, and so cuts it off. -/
def CutsOff (j : Job) (listener : Nat) (op : Operation) : Prop :=
  (op.line?.isSome = true ∨ op = .notifyDone ∧ j.isTerminal = true) ∧
    j.Listens listener ∧ (j.waiting listener).length = backlog

/-! ## Mailboxes that are closed or gone -/

theorem waiting_eq {j : Job} {listener : Nat} {m : Mailbox}
    (h : j.mailbox? listener = some m) : j.waiting listener = m.events := by
  simp [waiting, h]

theorem waiting_of_none {j : Job} {listener : Nat} (h : j.mailbox? listener = none) :
    j.waiting listener = [] := by
  simp [waiting, h]

theorem not_listens_of_closed {j : Job} {listener : Nat} {m : Mailbox}
    (hbox : j.mailbox? listener = some m) (hclosed : m.isOpen = false) :
    ¬ j.Listens listener := by
  rintro ⟨n, hn, hopen⟩
  rw [hbox] at hn
  rw [← Option.some.inj hn, hclosed] at hopen
  contradiction

theorem not_listens_of_none {j : Job} {listener : Nat} (h : j.mailbox? listener = none) :
    ¬ j.Listens listener := by
  rintro ⟨m, hm, -⟩
  rw [h] at hm
  contradiction

theorem step_of_closed {j : Job} {listener : Nat} {m n : Mailbox} {op : Operation}
    (hbox : j.mailbox? listener = some m) (hclosed : m.isOpen = false)
    (hafter : j.mailboxAfter op m = some n) :
    n.isOpen = false ∧ j.heardAt listener op ++ n.events = m.events := by
  cases op with
  | publish line origin =>
    obtain rfl := Option.some.inj hafter
    rw [Mailbox.post_of_closed _ hclosed]
    exact ⟨hclosed, rfl⟩
  | notifyDone =>
    by_cases hsilent : j.doneSent = true ∨ j.isTerminal = false
    · rw [mailboxAfter_of_silent hsilent] at hafter
      obtain rfl := Option.some.inj hafter
      exact ⟨hclosed, rfl⟩
    · obtain ⟨hsent, hlive⟩ := not_or.mp hsilent
      rw [mailboxAfter_of_due (by simpa using hsent) (by simpa using hlive),
        Mailbox.postLast_of_closed _ hclosed] at hafter
      obtain rfl := Option.some.inj hafter
      exact ⟨hclosed, rfl⟩
  | receive other =>
    simp only [mailboxAfter, id_of_mailbox? hbox] at hafter
    by_cases ho : other = listener
    · rw [if_pos ho] at hafter
      obtain rfl := Option.some.inj hafter
      refine ⟨by rw [Mailbox.isOpen_receive, hclosed], ?_⟩
      rw [heardAt, if_pos ho, receive_fst, hbox]
      exact m.events_receive
    · rw [if_neg ho] at hafter
      obtain rfl := Option.some.inj hafter
      simp [heardAt, ho, hclosed]
  | leave other =>
    simp only [mailboxAfter] at hafter
    split_ifs at hafter
    obtain rfl := Option.some.inj hafter
    exact ⟨hclosed, rfl⟩
  | start | finish | cancel | setPid | setSummary | replay | attach | watch =>
    obtain rfl := Option.some.inj hafter
    exact ⟨hclosed, rfl⟩

theorem leave_of_mailboxAfter {j : Job} {m : Mailbox} {op : Operation}
    (h : j.mailboxAfter op m = none) : op = .leave m.id := by
  cases op with
  | leave other =>
    simp only [mailboxAfter] at h
    split_ifs at h with ho
    rw [ho]
  | notifyDone | receive =>
    simp only [mailboxAfter] at h
    split_ifs at h
  | publish | start | finish | cancel | setPid | setSummary | replay | attach | watch =>
    contradiction

theorem heardAt_of_none {j : Job} {listener : Nat} (op : Operation)
    (h : j.mailbox? listener = none) : j.heardAt listener op = [] := by
  cases op with
  | receive other =>
    by_cases ho : other = listener
    · rw [heardAt, if_pos ho, receive_fst, h]
      rfl
    · rw [heardAt, if_neg ho]
  | _ => rfl

theorem lt_nextListener {j : Job} (hj : j.Orderly) {listener : Nat} {m : Mailbox}
    (h : j.mailbox? listener = some m) : listener < j.nextListener := by
  rw [← id_of_mailbox? h]
  exact hj.ids m (List.mem_of_find?_eq_some h)

theorem mailbox?_apply_of_some {j : Job} (hj : j.Orderly) {listener : Nat} {m : Mailbox}
    (op : Operation) (h : j.mailbox? listener = some m) :
    (j.apply op).mailbox? listener = j.mailboxAfter op m := by
  rw [mailbox?_apply j op (lt_nextListener hj h).ne, h, Option.bind_some]

theorem delivered_of_none {j : Job} {listener : Nat} (ops : List Operation)
    (hknown : listener < j.nextListener) (h : j.mailbox? listener = none) :
    (j.run ops).mailbox? listener = none ∧ j.delivered listener ops = [] := by
  induction ops generalizing j with
  | nil => exact ⟨h, waiting_of_none h⟩
  | cons op ops ih =>
    have hnext : (j.apply op).mailbox? listener = none := by
      rw [mailbox?_apply j op hknown.ne, h, Option.bind_none]
    obtain ⟨hend, hrest⟩ := ih (hknown.trans_le (nextListener_le_apply j op)) hnext
    refine ⟨hend, ?_⟩
    rw [← List.singleton_append, delivered_append, heard_singleton, heardAt_of_none op h]
    exact hrest

/-- A closed mailbox is read to its end and gets nothing new, unless its owner leaves before. -/
theorem delivered_of_closed {j : Job} (hj : j.Orderly) {listener : Nat} {m : Mailbox}
    (ops : List Operation) (hbox : j.mailbox? listener = some m) (hclosed : m.isOpen = false) :
    (¬ (j.run ops).Listens listener ∧ j.delivered listener ops <+: m.events) ∧
      (.leave listener ∉ ops → j.delivered listener ops = m.events ∧
        ∃ n, (j.run ops).mailbox? listener = some n ∧ n.isOpen = false) := by
  induction ops generalizing j m with
  | nil =>
    have hall : j.delivered listener [] = m.events := waiting_eq hbox
    exact ⟨⟨not_listens_of_closed hbox hclosed, hall ▸ List.prefix_rfl⟩,
      fun _ => ⟨hall, m, hbox, hclosed⟩⟩
  | cons op ops ih =>
    have hsplit : j.delivered listener (op :: ops) =
        j.heardAt listener op ++ (j.apply op).delivered listener ops := by
      rw [← List.singleton_append, delivered_append, heard_singleton]
      rfl
    have hnext := mailbox?_apply_of_some hj op hbox
    cases hafter : j.mailboxAfter op m with
    | none =>
      have hleave := leave_of_mailboxAfter hafter
      rw [id_of_mailbox? hbox] at hleave
      have hknown := (lt_nextListener hj hbox).trans_le (nextListener_le_apply j op)
      obtain ⟨hend, hrest⟩ := delivered_of_none ops hknown (hnext.trans hafter)
      refine ⟨⟨not_listens_of_none hend, ?_⟩, fun hstay => ?_⟩
      · rw [hsplit, hrest, hleave]
        exact List.nil_prefix
      · exact absurd (hleave ▸ List.mem_cons_self) hstay
    | some n =>
      obtain ⟨hn, hevents⟩ := step_of_closed hbox hclosed hafter
      obtain ⟨⟨hend, hinit⟩, hall⟩ := ih (orderly_apply op hj) (hnext.trans hafter) hn
      refine ⟨⟨hend, ?_⟩, fun hstay => ?_⟩
      · rw [hsplit, ← hevents]
        exact (List.prefix_append_right_inj _).mpr hinit
      · obtain ⟨hrest, hbox'⟩ := hall fun hm => hstay (List.mem_cons_of_mem _ hm)
        rw [hsplit, hrest, hevents]
        exact ⟨rfl, hbox'⟩

theorem not_listens_run {j : Job} (hj : j.Orderly) {listener : Nat} (ops : List Operation)
    (hknown : listener < j.nextListener) (h : ¬ j.Listens listener) :
    ¬ (j.run ops).Listens listener := by
  cases hbox : j.mailbox? listener with
  | none => exact not_listens_of_none (delivered_of_none ops hknown hbox).1
  | some m =>
    have hclosed : m.isOpen = false := by
      by_contra hopen
      exact h ⟨m, hbox, by simpa using hopen⟩
    exact (delivered_of_closed hj ops hbox hclosed).1.1

/-! ## Open mailboxes -/

/-- What an operation can do to an open mailbox before the end of the job was announced. -/
inductive StepOfOpen (j : Job) (listener : Nat) (m : Mailbox) (op : Operation) : Prop
  | goesOn (n : Mailbox) (after : j.mailboxAfter op m = some n) (isOpen : n.isOpen = true)
      (events : j.heardAt listener op ++ n.events =
        m.events ++ lineEvents j.lastNumber (published [op]))
  | leaves (is : op = .leave listener) (after : j.mailboxAfter op m = none)
  | overflows (cut : j.CutsOff listener op)
      (after : j.mailboxAfter op m = some { m with isOpen := false })
  | ends (is : op = .notifyDone) (due : j.isTerminal = true)
      (after : j.mailboxAfter op m = some ⟨m.id, m.events ++ [.done j.record], false⟩)

theorem StepOfOpen.quiet {j : Job} {listener : Nat} {m : Mailbox} {op : Operation}
    (hopen : m.isOpen = true) (hafter : j.mailboxAfter op m = some m)
    (hheard : j.heardAt listener op = []) (hline : op.line? = none) :
    StepOfOpen j listener m op := by
  refine .goesOn m hafter hopen ?_
  rw [hheard, published_singleton_of_none hline, lineEvents_nil, List.nil_append, List.append_nil]

theorem length_of_isFull {j : Job} (hj : j.Orderly) {listener : Nat} {m : Mailbox}
    (hbox : j.mailbox? listener = some m) (hfull : m.isFull = true) :
    (j.waiting listener).length = backlog := by
  have hle := hj.bounded m (List.mem_of_find?_eq_some hbox)
  have hge : backlog ≤ m.events.length := by simpa [Mailbox.isFull] using hfull
  rw [waiting_eq hbox]
  omega

theorem doneSent_of_open {j : Job} (hj : j.Orderly) {listener : Nat} {m : Mailbox}
    (hbox : j.mailbox? listener = some m) (hopen : m.isOpen = true) : j.doneSent = false := by
  by_contra hs
  rw [hj.closed (by simpa using hs) m (List.mem_of_find?_eq_some hbox)] at hopen
  contradiction

theorem stepOfOpen {j : Job} (hj : j.Orderly) {listener : Nat} {m : Mailbox} (op : Operation)
    (hbox : j.mailbox? listener = some m) (hopen : m.isOpen = true) :
    StepOfOpen j listener m op := by
  have hsent := doneSent_of_open hj hbox hopen
  cases op with
  | publish line origin =>
    cases hfull : m.isFull with
    | true =>
      refine .overflows ⟨.inl rfl, ⟨m, hbox, hopen⟩, length_of_isFull hj hbox hfull⟩ ?_
      rw [mailboxAfter, Mailbox.post_of_full _ hopen hfull]
    | false =>
      refine .goesOn _ (congrArg some (Mailbox.post_of_room _ hopen hfull)) hopen ?_
      rfl
  | notifyDone =>
    cases hend : j.isTerminal with
    | false => exact .quiet hopen (mailboxAfter_of_silent (.inr hend) m) rfl rfl
    | true =>
      cases hfull : m.isFull with
      | true =>
        refine .overflows ⟨.inr ⟨rfl, hend⟩, ⟨m, hbox, hopen⟩, length_of_isFull hj hbox hfull⟩ ?_
        rw [mailboxAfter_of_due hsent hend, Mailbox.postLast, Mailbox.post_of_full _ hopen hfull]
      | false =>
        refine .ends rfl hend ?_
        rw [mailboxAfter_of_due hsent hend, Mailbox.postLast, Mailbox.post_of_room _ hopen hfull]
  | receive other =>
    by_cases ho : other = listener
    · refine .goesOn m.receive.2 (if_pos (ho.trans (id_of_mailbox? hbox).symm)) ?_ ?_
      · rw [Mailbox.isOpen_receive, hopen]
      · rw [heardAt, if_pos ho, receive_fst, hbox, published_singleton_of_none rfl,
          lineEvents_nil, List.append_nil]
        exact m.events_receive
    · exact .quiet hopen (if_neg fun h => ho (h.trans (id_of_mailbox? hbox))) (if_neg ho) rfl
  | leave other =>
    by_cases ho : other = listener
    · exact .leaves (by rw [ho]) (if_pos (ho.trans (id_of_mailbox? hbox).symm))
    · exact .quiet hopen (if_neg fun h => ho (h.trans (id_of_mailbox? hbox))) rfl rfl
  | start | finish | cancel | setPid | setSummary | replay | attach | watch =>
    exact .quiet hopen rfl rfl rfl

theorem delivered_cons (j : Job) (listener : Nat) (op : Operation) (ops : List Operation) :
    j.delivered listener (op :: ops) =
      j.heardAt listener op ++ (j.apply op).delivered listener ops := by
  simp [delivered, heard]

/-- While a listener is not cut off, it gets every line that is published. -/
theorem delivered_of_listens {j : Job} (hj : j.Orderly) {listener : Nat} {m : Mailbox}
    (ops : List Operation) (hbox : j.mailbox? listener = some m) (hopen : m.isOpen = true)
    (hend : (j.run ops).Listens listener) :
    j.delivered listener ops = m.events ++ lineEvents j.lastNumber (published ops) := by
  induction ops generalizing j m with
  | nil => simpa [delivered, heard] using waiting_eq hbox
  | cons op ops ih =>
    have hnext := mailbox?_apply_of_some hj op hbox
    have hknown := (lt_nextListener hj hbox).trans_le (nextListener_le_apply j op)
    have hlistens : (j.apply op).Listens listener := by
      by_contra hnot
      exact not_listens_run (orderly_apply op hj) ops hknown hnot hend
    cases stepOfOpen hj op hbox hopen with
    | goesOn n hafter hn hevents =>
      have hlast : (j.apply op).lastNumber = j.lastNumber + (published [op]).length := by
        rw [lastNumber, log_apply, Log.Window.last_pushAll, lastNumber]
      rw [delivered_cons, ih (orderly_apply op hj) (hnext.trans hafter) hn hend,
        ← List.append_assoc, hevents, published_cons op ops, lineEvents_append, hlast,
        List.append_assoc]
    | leaves is hafter => exact absurd hlistens (not_listens_of_none (hnext.trans hafter))
    | overflows cut hafter => exact absurd hlistens (not_listens_of_closed (hnext.trans hafter) rfl)
    | ends is due hafter => exact absurd hlistens (not_listens_of_closed (hnext.trans hafter) rfl)

end FirmwareJobs.Job

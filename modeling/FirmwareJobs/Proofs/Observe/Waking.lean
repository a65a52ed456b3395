import FirmwareJobs.Proofs.Job.Noninterference
import FirmwareJobs.Proofs.Job.Observers
import FirmwareJobs.Proofs.Observe.Polling

/-! # A poll that waits

A poll that finds nothing new registers a listener in the same step. When it is woken, or its time
is over, it takes an event if there is one, gives the listener up and looks at the job again. Others
use the job between these steps as they like, but nobody else has the listener.
-/

namespace FirmwareJobs.Job

/-! ## The first event -/

/-- The operations that only the owner of a listener makes. -/
def Operation.isOwn (listener : Nat) : Operation → Bool
  | .receive other | .leave other => other == listener
  | _ => false

/-- Nothing is published in the run and no end is announced. -/
structure Quiet (j : Job) (ops : List Operation) : Prop where
  lines : published ops = []
  unannounced : ∀ before, ¬ j.AnnouncedAfter before ops

/-- What a listener of the job finds after a run of others: the first line that they published or
the announcement of the end, whichever came first. -/
inductive Wakes (j : Job) (ops : List Operation) : Receipt → Prop
  | line {before after : List Operation} {text : String} {origin : Origin}
      (split : ops = before ++ .publish text origin :: after) (quiet : Quiet j before) :
      Wakes j ops (.event (.line (j.lastNumber + 1) text))
  | done {before after : List Operation} (split : ops = before ++ .notifyDone :: after)
      (quiet : Quiet j before) (ended : (j.run before).isTerminal = true) :
      Wakes j ops (.event (.done (j.run before).record))
  | nothing (quiet : Quiet j ops) : Wakes j ops .pending

theorem quiet_nil (j : Job) : Quiet j [] := by
  refine ⟨rfl, ?_⟩
  rintro before ⟨-, after, hsplit⟩
  simp at hsplit

theorem Quiet.cons {j : Job} {op : Operation} {ops : List Operation}
    (h : Quiet (j.apply op) ops) (hline : op.line? = none)
    (hlive : op = .notifyDone → j.isTerminal = false) : Quiet j (op :: ops) := by
  constructor
  · rw [published_cons, published_singleton_of_none hline, h.lines, List.nil_append]
  · rintro before ⟨hend, after, hsplit⟩
    cases before with
    | nil =>
      rw [run_nil, hlive (List.cons.inj hsplit).1] at hend
      contradiction
    | cons first before =>
      obtain ⟨rfl, hrest⟩ := List.cons.inj hsplit
      exact h.unannounced before ⟨hend, after, hrest⟩

theorem Wakes.cons {j : Job} {op : Operation} {ops : List Operation} {receipt : Receipt}
    (h : Wakes (j.apply op) ops receipt) (hline : op.line? = none)
    (hlive : op = .notifyDone → j.isTerminal = false) : Wakes j (op :: ops) receipt := by
  cases h with
  | line split quiet =>
    have hlast : (j.apply op).lastNumber = j.lastNumber := by
      rw [lastNumber, log_apply, published_singleton_of_none hline]
      rfl
    rw [hlast]
    exact .line (congrArg (op :: ·) split) (quiet.cons hline hlive)
  | done split quiet ended =>
    have hsplit := congrArg (op :: ·) split
    rw [← List.cons_append] at hsplit
    exact .done hsplit (quiet.cons hline hlive) ended
  | nothing quiet => exact .nothing (quiet.cons hline hlive)

theorem Wakes.of_line {j : Job} {ops : List Operation} {n : Nat} {text : String}
    (h : Wakes j ops (.event (.line n text))) :
    n = j.lastNumber + 1 ∧ ∃ more, published ops = text :: more := by
  cases h with
  | @line before after _ origin split quiet =>
    refine ⟨rfl, published after, ?_⟩
    rw [split, published_append, quiet.lines, published_cons]
    rfl

theorem prefix_post (e : Event) (m : Mailbox) : m.events <+: (m.post e).events := by
  unfold Mailbox.post
  split_ifs <;> simp

theorem prefix_mailboxAfter {j : Job} {m : Mailbox} {op : Operation}
    (hop : op.isOwn m.id = false) :
    ∃ n, j.mailboxAfter op m = some n ∧ m.events <+: n.events := by
  cases op with
  | publish line origin => exact ⟨_, rfl, prefix_post _ m⟩
  | notifyDone =>
    by_cases hsilent : j.doneSent = true ∨ j.isTerminal = false
    · exact ⟨m, mailboxAfter_of_silent hsilent m, List.prefix_rfl⟩
    · obtain ⟨hsent, hlive⟩ := not_or.mp hsilent
      exact ⟨_, mailboxAfter_of_due (by simpa using hsent) (by simpa using hlive) m,
        prefix_post _ m⟩
  | receive other | leave other =>
    have hne : ¬ other = m.id := by simpa [Operation.isOwn] using hop
    exact ⟨m, if_neg hne, List.prefix_rfl⟩
  | start | finish | cancel | setPid | setSummary | replay | attach | watch =>
    exact ⟨m, rfl, List.prefix_rfl⟩

/-- An event stays first in the mailbox until its owner takes it. -/
theorem receive_of_first {j : Job} (hj : j.Orderly) {listener : Nat} {m : Mailbox} {e : Event}
    {rest : List Event} (ops : List Operation) (hops : ∀ op ∈ ops, op.isOwn listener = false)
    (hbox : j.mailbox? listener = some m) (hfirst : m.events = e :: rest) :
    ((j.run ops).receive listener).1 = .event e := by
  induction ops generalizing j m rest with
  | nil => simp [receive_fst, hbox, Mailbox.receive, hfirst]
  | cons op ops ih =>
    have hown := hops op List.mem_cons_self
    rw [← id_of_mailbox? hbox] at hown
    obtain ⟨n, hafter, more, hn⟩ := prefix_mailboxAfter hown
    rw [hfirst, List.cons_append] at hn
    exact ih (orderly_apply op hj) (fun op h => hops op (List.mem_cons_of_mem _ h))
      ((mailbox?_apply_of_some hj op hbox).trans hafter) hn.symm

/-- No event comes before the first one, and the first one is not lost. -/
theorem wakes_of_registered {j : Job} {listener : Nat} (h : j.Registered listener)
    (ops : List Operation) (hops : ∀ op ∈ ops, op.isOwn listener = false) :
    Wakes j ops ((j.run ops).receive listener).1 := by
  induction ops generalizing j with
  | nil =>
    rw [run_nil, receive_fst, h.box]
    exact .nothing (quiet_nil j)
  | cons op ops ih =>
    have hown := hops op List.mem_cons_self
    have hmore : ∀ op ∈ ops, op.isOwn listener = false := fun op hm =>
      hops op (List.mem_cons_of_mem _ hm)
    have hnext := mailbox?_apply_of_some h.orderly op h.box
    have horderly := orderly_apply op h.orderly
    cases stepOfOpen h.orderly op h.box rfl with
    | goesOn n hafter hopen hevents =>
      rw [hafter] at hnext
      cases hline : op.line? with
      | none =>
        have hempty : n.events = [] := by
          rw [published_singleton_of_none hline] at hevents
          exact (List.append_eq_nil_iff.mp hevents).2
        have hbox : n = ⟨listener, [], true⟩ := by
          rw [← id_of_mailbox? hnext, ← hempty, ← hopen]
        refine (ih ⟨horderly, hbox ▸ hnext⟩ hmore).cons hline ?_
        rintro rfl
        by_contra hend
        have hsent := doneSent_of_open h.orderly h.box rfl
        rw [mailboxAfter_of_due hsent (by simpa using hend)] at hafter
        rw [← Option.some.inj hafter] at hopen
        contradiction
      | some text =>
        cases op with
        | publish line origin =>
          rw [run_cons, receive_of_first horderly ops hmore hnext hevents]
          exact .line (List.nil_append _).symm (quiet_nil j)
        | _ => contradiction
    | leaves is _ => simp [is, Operation.isOwn] at hown
    | overflows cut _ =>
      have hlength := cut.2.2
      rw [waiting_eq h.box] at hlength
      contradiction
    | ends is due hafter =>
      subst is
      rw [hafter] at hnext
      rw [run_cons, receive_of_first horderly ops hmore hnext rfl]
      exact .done (List.nil_append _).symm (quiet_nil j) due

end FirmwareJobs.Job

namespace FirmwareJobs.Observe

open Job

/-! ## The steps of a call -/

/-- What others do to the job while a poll waits, before it gives its listener up, and before it
looks at the job again. -/
structure Pauses where
  waiting : List Operation
  leaving : List Operation
  looking : List Operation

namespace Pauses

/-- What others do from the call to its answer. -/
def all (p : Pauses) : List Operation := p.waiting ++ p.leaving ++ p.looking

/-- What the poll finds in its mailbox when it is woken or its time is over. -/
def receipt (p : Pauses) (j : Job) (listener : Nat) : Receipt :=
  ((j.run p.waiting).receive listener).1

/-- The job when the poll gives its listener up. -/
def told (p : Pauses) (j : Job) (listener : Nat) : Job :=
  ((j.run p.waiting).receive listener).2.run p.leaving

/-- The job when the poll looks at it again. -/
def looked (p : Pauses) (j : Job) (listener : Nat) : Job :=
  ((p.told j listener).leave listener).run p.looking

def answer (p : Pauses) (j : Job) (file : Option (List UInt8)) (listener since limit : Nat) :
    Answer :=
  resolve file ((p.looked j listener).replay since limit)
    ((announced? (p.receipt j listener)).getD (p.looked j listener).record) since limit

end Pauses

theorem wake_eq_answer (j : Job) (ops : List Operation) (file : Option (List UInt8))
    (listener since limit : Nat) :
    wake (j.run ops) file listener since limit =
      (Pauses.answer ⟨ops, [], []⟩ j file listener since limit,
        Pauses.looked ⟨ops, [], []⟩ j listener) :=
  Prod.ext (wake_fst _ file listener since limit) rfl

theorem record_resolve (file : Option (List UInt8)) (replay : Log.Replay) (r : Record)
    (since limit : Nat) : (resolve file replay r since limit).record = r := by
  cases replay with
  | empty => simp only [resolve]; split_ifs <;> rfl
  | lines | evicted | upToDate => rfl

theorem poll_of_answers {j : Job} {since limit : Nat} (file : Option (List UInt8))
    (h : Answers j since limit) :
    poll j file since limit = (.answered (tail j file since limit), j) := by
  simp only [poll, watch_of_answers h]
  rfl

theorem poll_of_waits {j : Job} {since limit : Nat} (file : Option (List UInt8))
    (h : ¬ Answers j since limit) :
    poll j file since limit = (.waiting j.nextListener, j.listen.2) := by
  simp only [poll, watch_of_waits h]

theorem lastNumber_le_of_waits {j : Job} {capacity since limit : Nat} {log : List String}
    (hlog : j.log = .holding capacity log) (h : ¬ Answers j since limit) (hlimit : 1 ≤ limit) :
    j.lastNumber ≤ since := by
  by_contra hnew
  have hlength : since < log.length := by simpa [lastNumber, hlog] using hnew
  apply h
  rw [Answers, replay, hlog]
  right
  by_cases hkept : log.length ≤ since + max capacity 1
  · rw [Log.Window.after_of_retained hkept hlength hlimit]
    simp
  · rw [Log.Window.after_of_evicted limit (by omega)]
    simp

namespace Pauses

variable (p : Pauses) (j : Job) (listener : Nat)

theorem looked_eq :
    p.looked j listener = j.run (p.waiting ++ .receive listener :: p.leaving ++
      .leave listener :: p.looking) := by
  simp only [looked, told, run_append, run_cons]
  rfl

theorem log_looked : (p.looked j listener).log = j.log.pushAll (published p.all) := by
  rw [looked_eq, log_run]
  congr 1
  simp [all, published, List.filterMap_cons, Operation.line?]

variable {j listener}

theorem mailbox?_looked (hknown : listener < j.nextListener) (later : List Operation) :
    ((p.looked j listener).run later).mailbox? listener = none := by
  have htold : listener < ((p.told j listener).leave listener).nextListener := by
    have hle := nextListener_le_run j
      (p.waiting ++ .receive listener :: p.leaving ++ [.leave listener])
    simp only [run_append, run_cons] at hle
    exact hknown.trans_le hle
  have hgone : ((p.told j listener).leave listener).mailbox? listener = none := by
    rw [mailbox?_leave]
    cases hbox : (p.told j listener).mailbox? listener with
    | none => rfl
    | some m => rw [Option.bind_some, if_pos (id_of_mailbox? hbox).symm]
  rw [looked, ← run_append]
  exact (delivered_of_none _ htold hgone).1

end Pauses

/-- What a poll can rely on that found `job` without news for it and waits with the job as `next`.
`log` is all that is published until its answer. -/
structure Attended (job next : Job) (log : List String) (file : Option (List UInt8))
    (listener since limit : Nat) (p : Pauses) : Prop where
  first : Wakes next p.waiting (p.receipt next listener)
  number : ∀ n text, p.receipt next listener = .event (.line n text) → n = job.lastNumber + 1
  page : since = job.lastNumber → ∀ n text, p.receipt next listener = .event (.line n text) →
    (n, text) ∈ (p.looked next listener).log.entries →
      p.answer next file listener since limit =
          nextPage (p.looked next listener).record log since limit ∧
        (p.answer next file listener since limit).lines.head? = some text
  record : ∀ r, p.receipt next listener = .event (.done r) →
    (p.answer next file listener since limit).record = r
  gone : ∀ later, ((p.looked next listener).run later).mailbox? listener = none
  others : ∀ other, other ≠ listener → next.mailbox? other = job.mailbox? other ∧
    ((next.run p.waiting).receive listener).2.mailbox? other =
      (next.run p.waiting).mailbox? other ∧
    ((p.told next listener).leave listener).mailbox? other = (p.told next listener).mailbox? other

theorem answer_of_line {j : Job} {capacity : Nat} {lines : List String}
    (hlog : j.log = .holding capacity lines) (p : Pauses) (file : Option (List UInt8))
    {listener limit n : Nat} {text : String} (hlimit : 1 ≤ limit)
    (hwakes : Wakes j p.waiting (p.receipt j listener))
    (hline : p.receipt j listener = .event (.line n text))
    (hkept : (n, text) ∈ (p.looked j listener).log.entries) :
    p.answer j file listener lines.length limit =
        nextPage (p.looked j listener).record (lines ++ published p.all) lines.length limit ∧
      (p.answer j file listener lines.length limit).lines.head? = some text := by
  rw [hline] at hwakes
  obtain ⟨rfl, more, hmore⟩ := hwakes.of_line
  have hlast : j.lastNumber = lines.length := by rw [lastNumber, hlog, Log.Window.last_holding]
  have hall : published p.all = text :: more ++ published (p.leaving ++ p.looking) := by
    rw [Pauses.all, List.append_assoc, published_append, hmore]
  have hlooked : (p.looked j listener).log =
      .holding capacity (lines ++ published p.all) := by
    rw [p.log_looked, hlog, Log.Window.pushAll_holding]
  rw [hlooked, hlast] at hkept
  obtain ⟨hretained, hnew⟩ := Log.Window.bounds_of_mem_entries hkept
  have hanswer : p.answer j file listener lines.length limit =
      nextPage (p.looked j listener).record (lines ++ published p.all) lines.length limit := by
    rw [Pauses.answer, hline, replay, hlooked]
    exact resolve_of_kept file _ (by omega) (by omega) hlimit (by simp [hall])
  refine ⟨hanswer, ?_⟩
  rw [hanswer]
  simp [nextPage, hall, List.head?_take, Nat.one_le_iff_ne_zero.1 hlimit]

theorem attended_of_waits {job : Job} (hj : job.Orderly) {capacity since limit : Nat}
    {lines : List String} (hlog : job.log = .holding capacity lines)
    (hlive : job.isTerminal = false) (hlimit : 1 ≤ limit) (file : Option (List UInt8)) (p : Pauses)
    (hp : ∀ op ∈ p.waiting, op.isOwn job.nextListener = false) :
    Attended job job.listen.2 (lines ++ published p.all) file job.nextListener since limit p := by
  have hlog' : job.listen.2.log = .holding capacity lines := hlog
  have hwakes := wakes_of_registered (registered_listen hj hlive) p.waiting hp
  constructor
  case first => exact hwakes
  case number =>
    intro n text hline
    rw [← Pauses.receipt, hline] at hwakes
    exact hwakes.of_line.1
  case page =>
    rintro rfl n text hline hkept
    have hlast : job.lastNumber = lines.length := by
      rw [lastNumber, hlog, Log.Window.last_holding]
    rw [hlast]
    exact answer_of_line hlog' p file hlimit hwakes hline hkept
  case record =>
    intro r hdone
    rw [Pauses.answer, record_resolve, hdone]
    rfl
  case gone => exact p.mailbox?_looked (Nat.lt_succ_self _)
  case others =>
    intro other hother
    exact ⟨mailbox?_listen hother, mailbox?_receive_of_ne _ hother.symm,
      mailbox?_leave_of_ne _ hother.symm⟩

/-- A poll misses nothing: it is answered at once or it waits after the last line of a job that has
not ended, and then it is woken by the first thing that happens. -/
theorem poll_misses_nothing (record : Record) (capacity : Nat) (before : List Operation)
    (file : Option (List UInt8)) (since limit : Nat) (hlimit : 1 ≤ limit) :
    let job := (ofRecord record capacity).run before
    (job.isTerminal = true →
      poll job file since limit = (.answered (tail job file since limit), job)) ∧
    ∀ listener next, poll job file since limit = (.waiting listener, next) →
      (∀ entry ∈ job.log.entries, entry.1 ≤ since) ∧ job.isTerminal = false ∧
      ∀ (p : Pauses) (later : Option (List UInt8)),
        (∀ op ∈ p.waiting, op.isOwn listener = false) →
        Attended job next (published (before ++ p.all)) later listener since limit p := by
  intro job
  have hj : job.Orderly := orderly_run before (orderly_ofRecord record capacity)
  have hlog : job.log = .holding capacity (published before) :=
    log_run_ofRecord record capacity before
  refine ⟨fun hend => poll_of_answers file (.inl hend), fun listener next hwaiting => ?_⟩
  by_cases hanswers : Answers job since limit
  · rw [poll_of_answers file hanswers] at hwaiting
    simp at hwaiting
  · rw [poll_of_waits file hanswers] at hwaiting
    obtain ⟨rfl, rfl⟩ : job.nextListener = listener ∧ job.listen.2 = next := by
      simpa using hwaiting
    have hlive : job.isTerminal = false := by simpa using fun hend => hanswers (.inl hend)
    refine ⟨fun entry hentry => ?_, hlive, fun p later hp => ?_⟩
    · rw [hlog] at hentry
      have hlast := lastNumber_le_of_waits hlog hanswers hlimit
      rw [lastNumber, hlog, Log.Window.last_holding] at hlast
      exact (Log.Window.bounds_of_mem_entries hentry).2.trans hlast
    · rw [published_append]
      exact attended_of_waits hj hlog hlive hlimit later p hp

/-- Another observer attaches and two lines are published before the poll looks again. -/
def twoLines : Pauses :=
  ⟨[.attach, .publish "b" .output], [.publish "c" .output], []⟩

/-- The job is canceled while the poll waits. -/
def canceledMeanwhile : Pauses := ⟨[.cancel noon, .notifyDone], [], [.attach]⟩

theorem poll_misses_nothing_specimen :
    let job := (ofRecord specimen 2).run [.publish "a" .output]
    poll job none 1 5 = (.waiting 0, job.listen.2) ∧
      (twoLines.answer job.listen.2 none 0 1 5).lines.head? = some "b" ∧
      (canceledMeanwhile.answer job.listen.2 none 0 1 5).record = canceledRecord specimen noon := by
  intro job
  obtain ⟨-, hwaits⟩ :=
    poll_misses_nothing specimen 2 [.publish "a" .output] none 1 5 (by decide)
  obtain ⟨-, -, hattended⟩ := hwaits 0 job.listen.2 rfl
  have hlines := hattended twoLines none (by decide)
  have hdone := hattended canceledMeanwhile none (by decide)
  exact ⟨rfl, (hlines.page rfl 2 "b" (by decide) (by decide)).2, hdone.record _ rfl⟩

end FirmwareJobs.Observe

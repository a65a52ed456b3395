import FirmwareJobs.Proofs.Job.Observers
import FirmwareJobs.Proofs.Observe.Polling
import Mathlib.Data.List.Infix

/-! # Push and poll observers agree

A push observer has the history that it attached with and the events that follow it. A poller has
the lines of its answers. When the job has ended, both have exactly the lines that it published, and
the same final record.
-/

namespace FirmwareJobs.Observe

open Job

/-- The text of a line event. -/
def text? : Event → Option String
  | .line _ text => some text
  | .done _ => none

/-- The record in the last event. -/
def final? : Event → Option Record
  | .line .. => none
  | .done r => some r

theorem texts_lineEvents (first : Nat) (lines : List String) :
    (lineEvents first lines).filterMap text? = lines := by
  rw [lineEvents, List.filterMap_map]
  change (Log.numbered first lines).filterMap (some ∘ Prod.snd) = lines
  rw [List.filterMap_eq_map, Log.map_snd_numbered]

theorem finals_lineEvents (first : Nat) (lines : List String) :
    (lineEvents first lines).filterMap final? = [] := by
  rw [lineEvents, List.filterMap_map]
  exact List.filterMap_eq_nil_iff.mpr fun _ _ => rfl

namespace Attachment

/-- All events for the observer after it attached, received or waiting. -/
def events (a : Attachment) (j : Job) (ops : List Operation) : List Event :=
  match a.listener with
  | none => []
  | some listener => j.delivered listener ops

/-- The lines of an observer that has the events `events`. -/
def lines (a : Attachment) (events : List Event) : List String :=
  a.history ++ events.filterMap text?

/-- The final records of an observer. Without a listener the job had ended when it attached. -/
def finals (a : Attachment) (events : List Event) : List Record :=
  (if a.listener.isNone then [a.record] else []) ++ events.filterMap final?

end Attachment

/-- The listener stays and is never a whole backlog behind. -/
structure KeepsUp (j : Job) (listener : Nat) (ops : List Operation) : Prop where
  stays : .leave listener ∉ ops
  room : ∀ before, before <+: ops → ((j.run before).waiting listener).length < backlog

instance (j : Job) (listener : Nat) (ops : List Operation) : Decidable (KeepsUp j listener ops) :=
  decidable_of_iff (.leave listener ∉ ops ∧
      ∀ before ∈ ops.inits, ((j.run before).waiting listener).length < backlog)
    ⟨fun ⟨stays, room⟩ => ⟨stays, fun before h => room before ((List.mem_inits _ _).mpr h)⟩,
      fun h => ⟨h.stays, fun before hm => h.room before ((List.mem_inits _ _).mp hm)⟩⟩

/-- What a push observer has: the whole log and one final record. It gets all of it by receiving
until its stream is closed. -/
structure Pushed (a : Attachment) (j : Job) (ops : List Operation) (log : List String)
    (r : Record) : Prop where
  lines_eq : a.lines (a.events j ops) = log
  finals_eq : a.finals (a.events j ops) = [r]
  drains : ∀ listener, a.listener = some listener →
    j.heard listener (ops ++
        List.replicate ((j.run ops).waiting listener).length (.receive listener)) =
      a.events j ops ∧
    (((j.run ops).run
        (List.replicate ((j.run ops).waiting listener).length (.receive listener))).receive
      listener).1 = .closed

theorem attach_ended {j : Job} (file : Option (List UInt8)) (h : j.isTerminal = true) :
    attach j file = (⟨if j.log.recent.isEmpty then Log.fileTail file tailDefault else j.log.recent,
      j.record, none⟩, j) := by
  simp [attach, attach_of_terminal h]

theorem attach_live {j : Job} (file : Option (List UInt8)) (h : j.isTerminal = false) :
    attach j file = (⟨j.log.recent, j.record, some j.nextListener⟩, j.listen.2) := by
  simp [attach, attach_of_live h]

theorem mailbox?_of_stays {j : Job} (hj : j.Orderly) {listener : Nat} {m : Mailbox}
    (ops : List Operation) (hbox : j.mailbox? listener = some m) (hstays : .leave listener ∉ ops) :
    ∃ n, (j.run ops).mailbox? listener = some n := by
  induction ops generalizing j m with
  | nil => exact ⟨m, hbox⟩
  | cons op ops ih =>
    have hnext := mailbox?_apply_of_some hj op hbox
    cases hafter : j.mailboxAfter op m with
    | none =>
      have hleave := leave_of_mailboxAfter hafter
      rw [id_of_mailbox? hbox] at hleave
      exact absurd (hleave ▸ List.mem_cons_self) hstays
    | some n =>
      exact ih (orderly_apply op hj) (hnext.trans hafter)
        fun hm => hstays (List.mem_cons_of_mem _ hm)

theorem delivered_of_keepsUp {j : Job} {listener : Nat} {ops : List Operation}
    (h : j.Registered listener) (hkeeps : KeepsUp j listener ops) (hops : Settled j ops)
    (hsent : (j.run ops).doneSent = true) :
    j.delivered listener ops =
      lineEvents j.lastNumber (published ops) ++ [.done (j.run ops).record] := by
  cases h.outcome ops with
  | listening listens _ =>
    exact absurd listens (not_listens_of_doneSent (orderly_run ops h.orderly) hsent listener)
  | left before after split _ => exact absurd (split ▸ by simp) hkeeps.stays
  | cutOff before op after split cut _ =>
    exact absurd cut.2.2 (hkeeps.room before ⟨_, split.symm⟩).ne
  | ended before _ announced _ all =>
    obtain ⟨hend, after, rfl⟩ := announced
    obtain ⟨hnone, hrecord⟩ := hops.after_end hend
    rw [all hkeeps.stays, hrecord, published_append, hnone, List.append_nil]

/-- An observer with a listener that keeps up gets the rest of the log and the final record. -/
theorem pushed_of_registered {j : Job} {listener : Nat} {ops : List Operation}
    (h : j.Registered listener) (hkeeps : KeepsUp j listener ops) (hops : Settled j ops)
    (hsent : (j.run ops).doneSent = true) (history : List String) (r : Record) :
    Pushed ⟨history, r, some listener⟩ j ops (history ++ published ops) (j.run ops).record := by
  have hall := delivered_of_keepsUp h hkeeps hops hsent
  obtain ⟨m, hbox⟩ := mailbox?_of_stays h.orderly ops h.box hkeeps.stays
  have horderly := orderly_run ops h.orderly
  have hclosed := horderly.closed hsent m (List.mem_of_find?_eq_some hbox)
  obtain ⟨hrest, hend⟩ := drain_of_closed horderly hbox hclosed
  refine ⟨?_, ?_, fun l hl => ?_⟩
  · change history ++ (j.delivered listener ops).filterMap text? = _
    rw [hall, List.filterMap_append, texts_lineEvents]
    exact congrArg _ (List.append_nil _)
  · change [] ++ (j.delivered listener ops).filterMap final? = _
    rw [hall, List.filterMap_append, finals_lineEvents]
    rfl
  · obtain rfl := Option.some.inj hl
    refine ⟨?_, hend⟩
    rw [heard_append, hrest]
    rfl

section

variable {record : Record} {capacity : Nat} {before after : List Operation}

theorem recent_of_few (hfew : (published before).length ≤ capacity) :
    ((ofRecord record capacity).run before).log.recent = published before := by
  rw [log_run_ofRecord, Log.Window.recent_holding, List.rtake, Nat.sub_eq_zero_of_le (by omega),
    List.drop_zero]

/-- An observer that comes after the end gets the whole log at once. -/
theorem pushed_of_ended {file : Option (List UInt8)}
    (hops : Settled (ofRecord record capacity) (before ++ .attach :: after))
    (hend : ((ofRecord record capacity).run before).isTerminal = true)
    (hfew : (published before).length ≤ capacity)
    (hfile : FileOf ((ofRecord record capacity).run before) file) :
    Pushed (attach ((ofRecord record capacity).run before) file).1
      (attach ((ofRecord record capacity).run before) file).2 after
      (published (before ++ .attach :: after))
      ((ofRecord record capacity).run (before ++ .attach :: after)).record := by
  obtain ⟨hnone, hrecord⟩ := hops.after_end hend
  have hhistory : (if (published before).isEmpty then Log.fileTail file tailDefault
      else published before) = published before := by
    split_ifs with hempty
    · have hnil : published before = [] := List.isEmpty_iff.mp hempty
      have hlast : ((ofRecord record capacity).run before).lastNumber = 0 := by
        rw [lastNumber, log_run_ofRecord, hnil]
        rfl
      rw [Log.fileTail, hfile hend hlast, hnil, List.drop_nil]
    · rfl
  rw [attach_ended file hend, recent_of_few hfew, hhistory, hrecord, published_append, hnone,
    List.append_nil]
  refine ⟨?_, rfl, by simp⟩
  exact List.append_nil _

/-- An observer that comes before the end hears the rest of the log. -/
theorem pushed_of_live {file : Option (List UInt8)}
    (hops : Settled (ofRecord record capacity) (before ++ .attach :: after))
    (hsent : ((ofRecord record capacity).run (before ++ .attach :: after)).doneSent = true)
    (hlive : ((ofRecord record capacity).run before).isTerminal = false)
    (hfew : (published before).length ≤ capacity)
    (hkeeps : KeepsUp ((ofRecord record capacity).run before).listen.2
      ((ofRecord record capacity).run before).nextListener after) :
    Pushed (attach ((ofRecord record capacity).run before) file).1
      (attach ((ofRecord record capacity).run before) file).2 after
      (published (before ++ .attach :: after))
      ((ofRecord record capacity).run (before ++ .attach :: after)).record := by
  have hj := orderly_run before (orderly_ofRecord record capacity)
  have hnext : ((ofRecord record capacity).run before).apply .attach =
      ((ofRecord record capacity).run before).listen.2 := by
    change ((ofRecord record capacity).run before).attach.2.2 = _
    rw [attach_of_live hlive]
  rw [List.append_cons] at hops
  have hrest := hops.of_append
  rw [run_append, run_cons, run_nil, hnext] at hrest
  rw [run_append, run_cons, hnext] at hsent
  rw [attach_live file hlive, recent_of_few hfew, run_append, run_cons, hnext, published_append]
  exact pushed_of_registered (registered_listen hj hlive) hkeeps hrest hsent (published before) _

/-! ## Agreement -/

/-- What observers of a job have when its end was announced. -/
structure Agreed (j : Job) (capacity : Nat) (ops : List Operation) : Prop where
  terminal : (j.run ops).isTerminal = true
  polled : ∀ p, Polled j ops p → p.lines = (published ops).take p.since ∧
    ∀ r, p.stage = .ended r → p.lines = published ops ∧ r = (j.run ops).record
  ends : ∀ p file, ∀ limits : List Nat, Polled j ops p → p.stage = .asking →
    FileOf (j.run ops) file → (published ops).length ≤ p.since + max capacity 1 →
      (∀ limit ∈ limits, 1 ≤ limit) → (published ops).length - p.since < limits.length →
        ∃ r, (limits.foldl (Poller.ask (j.run ops) file) p).stage = .ended r
  pushed : ∀ before after file, ops = before ++ .attach :: after →
    (published before).length ≤ capacity → FileOf (j.run before) file →
      (∀ listener, (attach (j.run before) file).1.listener = some listener →
        KeepsUp (attach (j.run before) file).2 listener after) →
        Pushed (attach (j.run before) file).1 (attach (j.run before) file).2 after
          (published ops) (j.run ops).record

/-- All observers of a job get the same lines and the same final record. -/
theorem agreed_of_announced (record : Record) (capacity : Nat) (ops : List Operation)
    (hops : Settled (ofRecord record capacity) ops)
    (hdone : ∃ before, (ofRecord record capacity).AnnouncedAfter before ops) :
    Agreed (ofRecord record capacity) capacity ops := by
  obtain ⟨announced, hannounced⟩ := hdone
  have hsent := doneSent_of_announced hannounced
  have hend := (orderly_run ops (orderly_ofRecord record capacity)).last hsent
  refine ⟨hend, fun p hp => ?_, fun p file limits hp hstage hfile hkept hlimits hmany => ?_,
    fun before after file hsplit hfew hfile hkeeps => ?_⟩
  · have hsound := hp.sound hops
    refine ⟨hsound.lines_eq, fun r hr => ?_⟩
    obtain ⟨-, hrecord, hsince⟩ := hsound.ended r hr
    exact ⟨by rw [hsound.lines_eq, hsince, List.take_length], hrecord⟩
  · exact (hp.sound hops).ends hend hkept hfile hstage hlimits hmany
  · subst hsplit
    cases hbefore : ((ofRecord record capacity).run before).isTerminal with
    | true => exact pushed_of_ended hops hbefore hfew hfile
    | false =>
      rw [attach_live file hbefore] at hkeeps
      exact pushed_of_live hops hsent hbefore hfew (hkeeps _ rfl)

end

/-- A build with a push observer, listener 0, and a poller that waits once, as listener 1. -/
def sharedBuild : List Operation :=
  [.start noon, .publish "boot" .output, .attach, .replay 0 1, .watch 1 10,
    .publish "done" .output, .receive 1, .leave 1, .replay 1 10, .finish 0 noon, .notifyDone,
    .watch 2 10]

theorem polled_sharedBuild : ∃ p, Polled (ofRecord specimen 2) sharedBuild p ∧
    p.stage = .ended ((ofRecord specimen 2).run sharedBuild).record := by
  have hserved : Serves ((ofRecord specimen 2).run (sharedBuild.take 3)) none 0 1 :=
    ⟨by decide, by decide, by decide⟩
  have hwaits : (poll ((ofRecord specimen 2).run (sharedBuild.take 4)) none 1 10).1 =
      .waiting 1 := rfl
  have hresumed : Serves ((ofRecord specimen 2).run (sharedBuild.take 6)) none 1 10 :=
    ⟨by decide, by decide, by decide⟩
  have hended : Serves ((ofRecord specimen 2).run (sharedBuild.take 11)) none 2 10 :=
    ⟨by decide, by decide, by decide⟩
  have hasked := ((Polled.start (sharedBuild.take 3)).tail rfl hserved).waits rfl hwaits
  have hwoken := (hasked.other (.publish "done" .output)).wake rfl hresumed
  have hdone := ((hwoken.other (.finish 0 noon)).other .notifyDone).answered rfl hended rfl
  exact ⟨_, hdone, rfl⟩

theorem agreed_sharedBuild :
    Settled (ofRecord specimen 2) sharedBuild ∧
      (ofRecord specimen 2).AnnouncedAfter (sharedBuild.take 10) sharedBuild ∧
      Agreed (ofRecord specimen 2) 2 sharedBuild ∧
      (∃ p, Polled (ofRecord specimen 2) sharedBuild p ∧ p.lines = ["boot", "done"]) ∧
      ∃ a next, attach ((ofRecord specimen 2).run (sharedBuild.take 2)) none = (a, next) ∧
        Pushed a next (sharedBuild.drop 3) ["boot", "done"]
          ((ofRecord specimen 2).run sharedBuild).record := by
  have hops : Settled (ofRecord specimen 2) sharedBuild := by decide
  have hdone : (ofRecord specimen 2).AnnouncedAfter (sharedBuild.take 10) sharedBuild :=
    ⟨by decide, _, rfl⟩
  have h := agreed_of_announced specimen 2 sharedBuild hops ⟨_, hdone⟩
  obtain ⟨p, hp, hended⟩ := polled_sharedBuild
  refine ⟨hops, hdone, h, ⟨p, hp, ((h.polled p hp).2 _ hended).1⟩, _, _, rfl, ?_⟩
  refine h.pushed (sharedBuild.take 2) (sharedBuild.drop 3) none rfl (by decide) (by decide)
    fun listener hlistener => ?_
  obtain rfl := Option.some.inj hlistener
  decide

end FirmwareJobs.Observe

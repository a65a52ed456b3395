import FirmwareJobs.Proofs.Engine.Shift
import FirmwareJobs.Proofs.Job.Core
import FirmwareJobs.Proofs.Job.Lifecycle

/-!
# The order of work

Jobs are begun from the front of the queue and new jobs come to its end, so the positions of the
jobs that were begun, of the job that was taken and of those that wait form one increasing row.
Ids stay distinct, and the state of each job fits what the worker does.
-/

namespace FirmwareJobs

open Files Time

namespace Worker

/-- The job that was taken from the queue but not begun. -/
def taken? : Worker → Option Nat
  | .taken p => some p
  | _ => none

/-- The job that was begun and is not done with. -/
def held? : Worker → Option Nat
  | .begun p | .working p | .ended p | .saved p => some p
  | _ => none

theorem ne_of_held?_ne {w : Worker} {p : Nat} (h : w.held? ≠ some p) :
    w ≠ .begun p ∧ w ≠ .working p ∧ w ≠ .ended p := by
  refine ⟨?_, ?_, ?_⟩ <;> rintro rfl <;> exact h rfl

end Worker

theorem Job.ne_running_of_terminal {j : Job} (h : j.isTerminal = true) : j.state ≠ .running := by
  intro hrunning
  rw [isTerminal, ← state, hrunning] at h
  contradiction

namespace Shift

variable {s s' : Shift}

/-- The jobs that wait for the worker, with the one that it has taken. -/
def line (s : Shift) : List Nat := s.engine.worker.taken?.toList ++ s.engine.queue

/-! ## The row of positions -/

structure Lined (s : Shift) : Prop where
  sorted : (s.started ++ s.line).Pairwise (· < ·)
  bounded : ∀ p ∈ s.started ++ s.line, p < s.engine.jobs.length

theorem line_of_taken {p : Nat} (h : s.engine.worker = .taken p) :
    s.line = p :: s.engine.queue := by
  rw [line, h]
  rfl

theorem line_of_not_taken (h : s.engine.worker.taken? = none) : s.line = s.engine.queue := by
  rw [line, h]
  rfl

/-- What a step does to the row: nothing, or a new job comes to its end, or the job that was taken
leaves it, either because it may not begin or because it does. -/
theorem Step.line_cases (h : Step s s') :
    (s'.line = s.line ∧ s'.started = s.started) ∨
    (s'.line = s.line ++ [s.engine.jobs.length] ∧ s'.started = s.started ∧
      s'.engine.jobs.length = s.engine.jobs.length + 1) ∨
    ∃ p, s.line = p :: s'.line ∧ ((s'.started = s.started ∧
      ∀ j, s.engine.jobs[p]? = some j → j.IsBarred) ∨ s'.started = s.started ++ [p]) := by
  cases h with
  | touch ht => exact .inl ⟨by simp only [line, ht.worker, ht.queue], rfl⟩
  | close | tell => exact .inl ⟨by simp [line], rfl⟩
  | @enroll r =>
    by_cases hwaits : r.state = .queued ∧ s.engine.worker ≠ .stopped
    · refine .inr (.inl ⟨?_, rfl, List.length_append⟩)
      change s.engine.worker.taken?.toList ++ (s.engine.enroll r).queue = _
      rw [Engine.queue_enroll hwaits.1 hwaits.2, line, List.append_assoc]
    · refine .inl ⟨?_, rfl⟩
      change s.engine.worker.taken?.toList ++ (s.engine.enroll r).queue = _
      rw [Engine.queue_enroll_of_not hwaits, line]
  | start hworker | rest hworker | launch hworker | archive hworker =>
    exact .inl ⟨by simp [line, hworker, Worker.taken?], rfl⟩
  | take hworker _ hqueue => exact .inl ⟨by simp [line, hworker, Worker.taken?, hqueue], rfl⟩
  | finish hworker | report hworker =>
    exact .inl ⟨by simp [line, hworker, Worker.taken?, Engine.setJob], rfl⟩
  | @skip p hworker hbarred => exact .inr (.inr ⟨p, line_of_taken hworker, .inl ⟨rfl, hbarred⟩⟩)
  | @begin p j k hworker => exact .inr (.inr ⟨p, line_of_taken hworker, .inr rfl⟩)
  | toil | change | order | save | refuse | excuse | withdraw => exact .inl ⟨rfl, rfl⟩

theorem Step.length_le (h : Step s s') : s.engine.jobs.length ≤ s'.engine.jobs.length := by
  cases h with
  | touch ht => exact ht.length.ge
  | enroll => simp [Engine.enroll, Engine.jobs_accept]
  | close | tell | launch | archive => simp
  | toil | withdraw | begin | finish | report => exact (s.engine.length_setJob _ _).ge
  | change | order | save | refuse | excuse | start | rest | take | skip => exact Nat.le_refl _

theorem Lined.of_sublist (h : s.Lined) (hrow : (s'.started ++ s'.line).Sublist (s.started ++ s.line))
    (hlength : s.engine.jobs.length ≤ s'.engine.jobs.length) : s'.Lined :=
  ⟨h.sorted.sublist hrow, fun p hp => Nat.lt_of_lt_of_le (h.bounded p (hrow.subset hp)) hlength⟩

theorem Lined.step (h : s.Lined) (hstep : Step s s') : s'.Lined := by
  rcases hstep.line_cases with ⟨hline, hstarted⟩ | ⟨hline, hstarted, hlength⟩ |
    ⟨p, hline, ⟨hstarted, -⟩ | hstarted⟩
  · exact h.of_sublist (by rw [hline, hstarted]) hstep.length_le
  · constructor
    · rw [hstarted, hline, ← List.append_assoc, List.pairwise_append]
      refine ⟨h.sorted, List.pairwise_singleton _ _, fun p hp q hq => ?_⟩
      rw [List.mem_singleton.1 hq]
      exact h.bounded p hp
    · intro p hp
      rw [hstarted, hline, ← List.append_assoc, List.mem_append, List.mem_singleton] at hp
      rw [hlength]
      rcases hp with hp | rfl
      · exact Nat.lt_succ_of_lt (h.bounded p hp)
      · exact Nat.lt_succ_self _
  · refine h.of_sublist ?_ hstep.length_le
    rw [hstarted, hline]
    exact (List.sublist_cons_self p _).append_left _
  · refine h.of_sublist ?_ hstep.length_le
    rw [hstarted, hline, List.append_assoc]
    rfl

/-! ## Distinct ids -/

/-- The ids of the jobs and of those that are about to be added. -/
def names (s : Shift) : List String := s.engine.ids ++ s.errands.filterMap Errand.newId?

structure Named (s : Shift) : Prop where
  indexed : s.engine.Indexed
  distinct : s.names.Nodup
  isId : ∀ id ∈ s.names, Store.IsId id

theorem filterMap_erase {α β : Type} [DecidableEq α] {f : α → Option β} {a : α} {l : List α}
    (h : a ∈ l) : (l.filterMap f).Perm ((f a).toList ++ (l.erase a).filterMap f) := by
  refine ((List.perm_cons_erase h).filterMap f).trans ?_
  rw [List.filterMap_cons]
  cases f a <;> exact .refl _

theorem filterMap_singleton {α β : Type} (f : α → Option β) (a : α) :
    [a].filterMap f = (f a).toList := by
  rw [List.filterMap_cons]
  cases f a <;> rfl

theorem filterMap_erase_concat {α β : Type} [DecidableEq α] {f : α → Option β} {a b : α}
    {l : List α} (h : a ∈ l) (hb : f b = f a) :
    ((l.erase a ++ [b]).filterMap f).Perm (l.filterMap f) := by
  rw [List.filterMap_append, filterMap_singleton, hb]
  exact List.perm_append_comm.trans (filterMap_erase h).symm

theorem Named.of_perm (h : s.Named) (hindexed : s'.engine.Indexed)
    (hnames : s'.names.Perm s.names) : s'.Named :=
  ⟨hindexed, hnames.nodup_iff.2 h.distinct, fun id hid => h.isId id (hnames.mem_iff.1 hid)⟩

theorem Named.of_sublist (h : s.Named) (hindexed : s'.engine.Indexed)
    (hnames : s'.names.Sublist s.names) : s'.Named :=
  ⟨hindexed, h.distinct.sublist hnames, fun id hid => h.isId id (hnames.subset hid)⟩

theorem IsFresh.not_mem_names {id : String} (h : s.IsFresh id) : id ∉ s.names := by
  rw [names, List.mem_append, not_or]
  constructor
  · intro hmem
    obtain ⟨job, hjob, rfl⟩ := List.mem_map.1 hmem
    exact h.1 job hjob rfl
  · intro hmem
    obtain ⟨errand, herrand, hsome⟩ := List.mem_filterMap.1 hmem
    exact h.2 errand herrand hsome

theorem Named.concat (h : s.Named) {id : String} (hid : Store.IsId id) (hfresh : s.IsFresh id)
    (hindexed : s'.engine.Indexed) (hnames : s'.names = s.names ++ [id]) : s'.Named := by
  have hnew := hfresh.not_mem_names
  refine ⟨hindexed, ?_, fun other hother => ?_⟩
  · rw [hnames, List.nodup_append]
    refine ⟨h.distinct, by simp, fun a ha b hb hab => hnew ?_⟩
    rw [← List.mem_singleton.1 hb, ← hab]
    exact ha
  · rw [hnames, List.mem_append, List.mem_singleton] at hother
    rcases hother with hother | rfl
    · exact h.isId other hother
    · exact hid

theorem Named.of_errands (h : s.Named) (htable : s'.engine.table = s.engine.table)
    (hids : s'.engine.ids = s.engine.ids)
    (herrands : (s'.errands.filterMap Errand.newId?).Perm (s.errands.filterMap Errand.newId?)) :
    s'.Named := by
  refine h.of_perm (h.indexed.congr htable hids) ?_
  rw [names, names, hids]
  exact herrands.append_left _

theorem Named.congr (h : s.Named) (htable : s'.engine.table = s.engine.table)
    (hids : s'.engine.ids = s.engine.ids) (herrands : s'.errands = s.errands) : s'.Named :=
  h.of_errands htable hids (by rw [herrands])

theorem id_notifyDone (j : Job) : j.notifyDone.id = j.id :=
  congrArg Record.id (Job.sameCore_notifyDone j).record

theorem id_finish (j : Job) (code : Int32) (now : Instant) : (j.finish code now).id = j.id :=
  (Job.sameOrder_apply j (.finish code now)).id

theorem Named.step (h : s.Named) (hstep : Step s s') : s'.Named := by
  have hids : ∀ {p : Nat} {j k : Job}, s.engine.jobs[p]? = some j → k.id = j.id →
      (s.engine.setJob p k).ids = s.engine.ids := Engine.ids_setJob
  cases hstep with
  | touch ht => exact h.congr ht.table ht.ids rfl
  | toil _ hjob hrecord => exact h.congr rfl (hids hjob (by rw [Job.id, hrecord]; rfl)) rfl
  | change | excuse | start | rest | take | skip => exact h.congr rfl rfl rfl
  | @order r files hid hfresh =>
    have hnames :
        names { s with files, errands := s.errands ++ [.save r] } = s.names ++ [r.id] := by
      rw [names, List.filterMap_append, ← List.append_assoc]
      rfl
    exact h.concat hid hfresh h.indexed hnames
  | save hmem => exact h.of_errands rfl rfl (filterMap_erase_concat hmem rfl)
  | refuse => exact h.of_sublist h.indexed ((List.erase_sublist.filterMap _).append_left _)
  | @enroll r hmem =>
    have herase := filterMap_erase (f := Errand.newId?) hmem
    refine h.of_perm (h.indexed.accept _) ?_
    change ((s.engine.accept (.ofRecord r s.engine.settings.capacity)).ids ++
      (s.errands.erase (.enroll r)).filterMap Errand.newId?).Perm _
    rw [Engine.ids_accept, List.append_assoc]
    exact herase.symm.append_left _
  | withdraw now hjob =>
    refine h.of_errands rfl (hids hjob rfl) ?_
    rw [List.filterMap_append]
    exact .of_eq (List.append_nil _)
  | close hmem =>
    exact h.of_errands (by simp) (by simp [Engine.ids]) (filterMap_erase_concat hmem rfl)
  | tell hmem =>
    exact h.of_errands (by simp) (by simp) (filterMap_erase (f := Errand.newId?) hmem).symm
  | begin _ hjob _ _ hk => exact h.congr rfl (hids hjob (by rw [hk]; rfl)) rfl
  | launch => exact h.congr (by simp) (by simp [Engine.ids]) rfl
  | finish _ hjob code now => exact h.congr rfl (hids hjob (id_finish _ code now)) rfl
  | archive => exact h.congr (by simp) (by simp [Engine.ids]) rfl
  | report _ hjob => exact h.congr rfl (hids hjob (id_notifyDone _)) rfl

/-! ## What happens to a job -/

/-- What a step to `s'` can make of the job at a position. -/
inductive Evolves (s s' : Shift) (p : Nat) (j : Job) : Job → Prop where
  | touched {k : Job} (h : Job.Touched j k) : Evolves s s' p j k
  | toiled {k : Job} (hworker : s.engine.worker = .working p)
      (hrecord : k.record = { j.record with errorSummary := k.record.errorSummary })
      (hdone : ∀ r, k.Awaits (.done r) → j.Awaits (.done r)) : Evolves s s' p j k
  | withdrawn (now : Instant) (hqueued : j.state = .queued)
      (hclose : .close p (Job.canceledRecord j.record now) ∈ s'.errands) :
      Evolves s s' p j
        { j with cancelRequested := true, record := Job.canceledRecord j.record now }
  | told (hmem : (∃ r, .tell p r ∈ s.errands) ∨ s.engine.worker = .saved p) :
      Evolves s s' p j j.notifyDone
  | begun (now : Instant) (hworker : s.engine.worker = .taken p) (hqueued : j.state = .queued)
      (hstarted : s'.started = s.started ++ [p]) :
      Evolves s s' p j
        { j with record := { j.record with state := .running, startedAt := some now } }
  | finished (code : Int32) (now : Instant) (hworker : s.engine.worker = .working p) :
      Evolves s s' p j (j.finish code now)

/-- A job of the next shift was there before, or has just been enrolled. -/
def Comes (s s' : Shift) (p : Nat) (k : Job) : Prop :=
  (∃ j, s.engine.jobs[p]? = some j ∧ Evolves s s' p j k) ∨
    p = s.engine.jobs.length ∧
      ∃ r, .enroll r ∈ s.errands ∧ k = .ofRecord r s.engine.settings.capacity

theorem comes_same {p : Nat} {k : Job} (h : s.engine.jobs[p]? = some k) : s.Comes s' p k :=
  .inl ⟨k, h, .touched (.refl k)⟩

theorem comes_setJob {p q : Nat} {j k x : Job} (hjob : s.engine.jobs[p]? = some j)
    (hk : Evolves s s' p j k) (hx : (s.engine.setJob p k).jobs[q]? = some x) : s.Comes s' q x := by
  rw [Engine.getElem?_setJob hjob] at hx
  split_ifs at hx with hq
  · subst hq
    exact .inl ⟨j, hjob, Option.some.inj hx ▸ hk⟩
  · exact comes_same hx

theorem Step.comes (h : Step s s') {p : Nat} {k : Job} (hk : s'.engine.jobs[p]? = some k) :
    s.Comes s' p k := by
  cases h with
  | touch ht =>
    obtain ⟨j, hj, hjk⟩ := ht.jobs p k hk
    exact .inl ⟨j, hj, .touched hjk⟩
  | toil hworker hjob hrecord hdone => exact comes_setJob hjob (.toiled hworker hrecord hdone) hk
  | change | order | save | refuse | excuse | start | rest | take | skip => exact comes_same hk
  | @enroll r hmem =>
    rcases (s.engine.getElem?_accept _ p k).1 hk with hold | ⟨hp, hnew⟩
    · exact comes_same hold
    · exact .inr ⟨hp, r, hmem, hnew⟩
  | withdraw now hjob hqueued =>
    refine comes_setJob hjob (.withdrawn now hqueued ?_) hk
    exact List.mem_append_right _ (List.mem_singleton_self _)
  | close => exact comes_same (by rwa [Engine.jobs_persist] at hk)
  | @tell q r hmem =>
    change (s.engine.notify q).jobs[p]? = some k at hk
    rcases s.engine.notify_cases q with hn | ⟨j, hj, hn⟩
    · exact comes_same (hn ▸ hk)
    · exact comes_setJob hj (.told (.inl ⟨r, hmem⟩)) (hn ▸ hk)
  | begin hworker hjob hqueued now hbegun =>
    subst hbegun
    exact comes_setJob hjob (.begun now hworker hqueued rfl) hk
  | launch => exact comes_same (by rwa [Engine.jobs_persist] at hk)
  | finish hworker hjob code now => exact comes_setJob hjob (.finished code now hworker) hk
  | archive => exact comes_same (by rwa [Engine.jobs_persist] at hk)
  | report hworker hjob => exact comes_setJob hjob (.told (.inr hworker)) hk

theorem Step.evolves (h : Step s s') {p : Nat} {j : Job} (hj : s.engine.jobs[p]? = some j) :
    ∃ k, s'.engine.jobs[p]? = some k ∧ Evolves s s' p j k := by
  have hp := (List.getElem?_eq_some_iff.1 hj).1
  have hk := List.getElem?_eq_getElem (Nat.lt_of_lt_of_le hp h.length_le)
  refine ⟨_, hk, ?_⟩
  rcases h.comes hk with ⟨i, hi, hevolves⟩ | ⟨hlast, -⟩
  · rw [hj] at hi
    rwa [Option.some.inj hi]
  · omega

/-! ## Requests under way -/

/-- A request under way fits the jobs: a new job is queued, and a canceled one has its final record
and was not begun. -/
def Serves (s : Shift) : Errand → Prop
  | .save r | .enroll r => r.state = .queued ∧ r.startedAt = none
  | .close p r | .tell p r => p ∉ s.started ∧
      ∃ j, s.engine.jobs[p]? = some j ∧ j.record = r ∧ j.state = .canceled

structure Attended (s : Shift) : Prop where
  serves : ∀ errand ∈ s.errands, s.Serves errand
  distinct : (s.errands.filterMap Errand.position?).Nodup

/-! ## States -/

/-- The states of the jobs fit what the worker does. A queued job waits for it, unless the worker
has stopped. -/
structure Staged (s : Shift) : Prop where
  running : ∀ (p : Nat) (j : Job), s.engine.jobs[p]? = some j →
    (j.state = .running ↔ s.engine.worker = .begun p ∨ s.engine.worker = .working p)
  waiting : ∀ (p : Nat) (j : Job), s.engine.jobs[p]? = some j → j.state = .queued →
    p ∉ s.started ∧ (s.engine.worker ≠ .stopped → p ∈ s.line) ∧ j.cancelRequested = false
  held : ∀ p, s.engine.worker.held? = some p → p ∈ s.started

theorem Staged.calm (h : s.Staged)
    (hjobs : ∀ (p : Nat) (k : Job), s'.engine.jobs[p]? = some k → ∃ j, s.engine.jobs[p]? = some j ∧
      k.state = j.state ∧ (j.state = .queued → k.cancelRequested = j.cancelRequested))
    (hrunning : ∀ p, s'.engine.worker = .begun p ∨ s'.engine.worker = .working p ↔
      s.engine.worker = .begun p ∨ s.engine.worker = .working p)
    (hline : s'.engine.worker ≠ .stopped →
      s.engine.worker ≠ .stopped ∧ ∀ p ∈ s.line, p ∈ s'.line)
    (hheld : ∀ p, s'.engine.worker.held? = some p → s.engine.worker.held? = some p)
    (hstarted : s'.started = s.started) : s'.Staged where
  running p k hk := by
    obtain ⟨j, hj, hstate, -⟩ := hjobs p k hk
    rw [hstate, hrunning]
    exact h.running p j hj
  waiting p k hk hqueued := by
    obtain ⟨j, hj, hstate, hcancel⟩ := hjobs p k hk
    rw [hstate] at hqueued
    obtain ⟨hstart, hmem, hnot⟩ := h.waiting p j hj hqueued
    refine ⟨hstarted ▸ hstart, fun hgoing => ?_, (hcancel hqueued).trans hnot⟩
    exact (hline hgoing).2 p (hmem (hline hgoing).1)
  held p hp := by
    rw [hstarted]
    exact h.held p (hheld p hp)

theorem Staged.congr (h : s.Staged)
    (hjobs : ∀ (p : Nat) (k : Job), s'.engine.jobs[p]? = some k → ∃ j, s.engine.jobs[p]? = some j ∧
      k.state = j.state ∧ (j.state = .queued → k.cancelRequested = j.cancelRequested))
    (hworker : s'.engine.worker = s.engine.worker) (hqueue : s'.engine.queue = s.engine.queue)
    (hstarted : s'.started = s.started) : s'.Staged :=
  h.calm hjobs (by simp [hworker]) (fun hgoing => ⟨hworker ▸ hgoing, by simp [line, hworker, hqueue]⟩)
    (by simp [hworker]) hstarted

theorem same_states {e f : Engine} (h : f.jobs = e.jobs) (p : Nat) (k : Job)
    (hk : f.jobs[p]? = some k) : ∃ j, e.jobs[p]? = some j ∧ k.state = j.state ∧
      (j.state = .queued → k.cancelRequested = j.cancelRequested) :=
  ⟨k, h ▸ hk, rfl, fun _ => rfl⟩

theorem same_states_setJob {e : Engine} {p : Nat} {j x : Job} (hjob : e.jobs[p]? = some j)
    (hstate : x.state = j.state)
    (hcancel : j.state = .queued → x.cancelRequested = j.cancelRequested)
    (q : Nat) (k : Job) (hk : (e.setJob p x).jobs[q]? = some k) :
    ∃ j, e.jobs[q]? = some j ∧ k.state = j.state ∧
      (j.state = .queued → k.cancelRequested = j.cancelRequested) := by
  rw [Engine.getElem?_setJob hjob] at hk
  split_ifs at hk with hq
  · subst hq
    exact ⟨j, hjob, Option.some.inj hk ▸ hstate, Option.some.inj hk ▸ hcancel⟩
  · exact ⟨k, hk, rfl, fun _ => rfl⟩

/-- A job that is neither queued nor running takes the place of one that the worker goes on to
leave, or that waited. -/
theorem Staged.ended (h : s.Staged) {p : Nat} {j k : Job} (hjob : s.engine.jobs[p]? = some j)
    (hend : k.isTerminal = true) (hjobs : s'.engine.jobs = (s.engine.setJob p k).jobs)
    (hrunning : ∀ q, q ≠ p → (s'.engine.worker = .begun q ∨ s'.engine.worker = .working q ↔
      s.engine.worker = .begun q ∨ s.engine.worker = .working q))
    (hp : s'.engine.worker ≠ .begun p ∧ s'.engine.worker ≠ .working p)
    (hline : s'.line = s.line) (hgoes : s'.engine.worker ≠ .stopped → s.engine.worker ≠ .stopped)
    (hheld : ∀ p, s'.engine.worker.held? = some p → s.engine.worker.held? = some p)
    (hstarted : s'.started = s.started) : s'.Staged := by
  have hqueued := Job.ne_queued_of_terminal hend
  have hended := Job.ne_running_of_terminal hend
  constructor
  · intro q x hx
    rw [hjobs, Engine.getElem?_setJob hjob] at hx
    split_ifs at hx with hq
    · obtain rfl := Option.some.inj hx
      subst hq
      exact iff_of_false hended (not_or.2 hp)
    · rw [hrunning q hq]
      exact h.running q x hx
  · intro q x hx hwaits
    rw [hjobs, Engine.getElem?_setJob hjob] at hx
    split_ifs at hx with hq
    · obtain rfl := Option.some.inj hx
      exact absurd hwaits hqueued
    · rw [hline, hstarted]
      exact (h.waiting q x hx hwaits).imp_right (And.imp_left (· ∘ hgoes))
  · intro q hq
    rw [hstarted]
    exact h.held q (hheld q hq)

theorem Staged.accept (h : s.Staged) (hlined : s.Lined) {r : Record} (hqueued : r.state = .queued)
    (hengine : s'.engine = s.engine.enroll r) (hstarted : s'.started = s.started) : s'.Staged := by
  have hworker : s'.engine.worker = s.engine.worker := by
    rw [hengine]
    rfl
  have hline : s.engine.worker ≠ .stopped → s'.line = s.line ++ [s.engine.jobs.length] := by
    intro hgoing
    rw [line, line, hworker, hengine, Engine.queue_enroll hqueued hgoing, List.append_assoc]
  have hjobs : ∀ (p : Nat) (k : Job), s'.engine.jobs[p]? = some k → s.engine.jobs[p]? = some k ∨
      p = s.engine.jobs.length ∧ k = .ofRecord r s.engine.settings.capacity := by
    rw [hengine]
    exact fun p k => (s.engine.getElem?_accept _ p k).1
  have hlast : ∀ p, s.engine.worker.held? = some p → p < s.engine.jobs.length := fun p hp =>
    hlined.bounded p (List.mem_append_left _ (h.held p hp))
  constructor
  · intro p k hk
    rw [hworker]
    rcases hjobs p k hk with hold | ⟨rfl, rfl⟩
    · exact h.running p k hold
    · refine iff_of_false (fun hr => ?_) ?_
      · rw [Job.state, Job.ofRecord, hqueued] at hr
        contradiction
      · rintro (hheld | hheld)
        · exact Nat.lt_irrefl _ (hlast _ (by rw [hheld]; rfl))
        · exact Nat.lt_irrefl _ (hlast _ (by rw [hheld]; rfl))
  · intro p k hk hq
    rw [hworker, hstarted]
    rcases hjobs p k hk with hold | ⟨rfl, rfl⟩
    · obtain ⟨hstart, hmem, hnot⟩ := h.waiting p k hold hq
      exact ⟨hstart, fun hgoing => hline hgoing ▸ List.mem_append_left _ (hmem hgoing), hnot⟩
    · refine ⟨fun hstart => ?_, fun hgoing => ?_, rfl⟩
      · exact Nat.lt_irrefl _ (hlined.bounded _ (List.mem_append_left _ hstart))
      · exact hline hgoing ▸ List.mem_append_right _ (List.mem_singleton_self _)
  · intro p hp
    rw [hstarted]
    exact h.held p (hworker ▸ hp)

theorem Staged.step (h : s.Staged) (hlined : s.Lined) (hattended : s.Attended)
    (hstep : Step s s') : s'.Staged := by
  cases hstep with
  | touch ht =>
    refine h.congr (fun p k hk => ?_) ht.worker ht.queue rfl
    obtain ⟨j, hj, hjk⟩ := ht.jobs p k hk
    exact ⟨j, hj, hjk.state, hjk.cancelRequested⟩
  | toil hworker hjob hrecord =>
    have hrunning := (h.running _ _ hjob).2 (.inr hworker)
    refine h.congr (same_states_setJob hjob ?_ fun hq => ?_) rfl rfl rfl
    · rw [Job.state, hrecord]
      rfl
    · rw [hrunning] at hq
      contradiction
  | change | order | save | refuse | excuse => exact h.congr (same_states rfl) rfl rfl rfl
  | enroll hmem => exact h.accept hlined (hattended.serves _ hmem).1 rfl rfl
  | @withdraw p j now hjob hqueued =>
    refine h.ended hjob rfl rfl (fun q _ => Iff.rfl) (not_or.1 fun hworker => ?_) rfl id
      (fun q hq => hq) rfl
    rw [(h.running p j hjob).2 hworker] at hqueued
    contradiction
  | close => exact h.congr (same_states (by simp)) (by simp) (by simp) rfl
  | @tell p =>
    refine h.congr ?_ (by simp) (by simp) rfl
    rcases s.engine.notify_cases p with hn | ⟨j, hj, hn⟩
    · exact same_states (congrArg Engine.jobs hn)
    · have hcore := Job.sameCore_notifyDone j
      rw [engine_dismiss, hn]
      exact same_states_setJob hj hcore.state fun _ => hcore.cancelRequested
  | start hworker =>
    exact h.calm (same_states rfl) (by simp [hworker]) (by simp [line, hworker, Worker.taken?])
      (by simp [Worker.held?]) rfl
  | rest hworker =>
    exact h.calm (same_states rfl) (by simp [hworker]) (fun hgoing => absurd rfl hgoing)
      (by simp [Worker.held?]) rfl
  | take hworker _ hqueue =>
    exact h.calm (same_states rfl) (by simp [hworker])
      (by simp [line, hworker, Worker.taken?, hqueue]) (by simp [Worker.held?]) rfl
  | @skip p hworker hbarred =>
    have hline : s.line = p :: s.engine.queue := line_of_taken hworker
    refine ⟨fun q k hk => ?_, fun q k hk hqueued => ?_, by simp [Worker.held?]⟩
    · rw [h.running q k hk, hworker]
      simp
    · obtain ⟨hstart, hmem, hnot⟩ := h.waiting q k hk hqueued
      refine ⟨hstart, fun _ => ?_, hnot⟩
      have hmem := hmem (by simp [hworker])
      rw [hline, List.mem_cons] at hmem
      rcases hmem with rfl | hmem
      · -- only a job that does not wait any more is skipped
        rcases hbarred k hk with hstate | hcancel
        · exact absurd hqueued hstate
        · rw [hcancel] at hnot
          contradiction
      · exact hmem
  | @begin p j k hworker hjob hqueued now hbegun =>
    have hline : s.line = p :: s.engine.queue := line_of_taken hworker
    refine ⟨fun q x hx => ?_, fun q x hx hwaits => ?_, fun q hq => ?_⟩
    · change (s.engine.setJob p k).jobs[q]? = some x at hx
      rw [Engine.getElem?_setJob hjob] at hx
      split_ifs at hx with hq
      · rw [← Option.some.inj hx, hbegun, hq]
        simp [Job.state]
      · rw [h.running q x hx, hworker]
        simp [Ne.symm hq]
    · change (s.engine.setJob p k).jobs[q]? = some x at hx
      rw [Engine.getElem?_setJob hjob] at hx
      split_ifs at hx with hq
      · rw [← Option.some.inj hx, hbegun] at hwaits
        contradiction
      · obtain ⟨hstart, hmem, hnot⟩ := h.waiting q x hx hwaits
        refine ⟨?_, fun _ => ?_, hnot⟩
        · rw [List.mem_append, List.mem_singleton]
          exact not_or.2 ⟨hstart, hq⟩
        · have hmem := hmem (by simp [hworker])
          rw [hline, List.mem_cons] at hmem
          exact hmem.resolve_left hq
    · obtain rfl : p = q := Option.some.inj hq
      exact List.mem_append_right _ (List.mem_singleton_self p)
  | launch hworker =>
    exact h.calm (same_states (by simp)) (by simp [hworker, or_comm])
      (by simp [line, hworker, Worker.taken?]) (by simp [hworker, Worker.held?]) rfl
  | @finish p j hworker hjob code now =>
    refine h.ended hjob (Job.isTerminal_finish j code now) rfl (fun q hq => ?_) (by simp) ?_ ?_ ?_
      rfl
    · simp [hworker, Ne.symm hq]
    · simp [line, hworker, Worker.taken?, Engine.setJob]
    · simp [hworker]
    · simp [hworker, Worker.held?]
  | archive hworker =>
    exact h.calm (same_states (by simp)) (by simp [hworker])
      (by simp [line, hworker, Worker.taken?]) (by simp [hworker, Worker.held?]) rfl
  | @report p j hworker hjob =>
    have hcore := Job.sameCore_notifyDone j
    exact h.calm (same_states_setJob hjob hcore.state fun _ => hcore.cancelRequested)
      (by simp [hworker]) (by simp [line, hworker, Worker.taken?, Engine.setJob])
      (by simp [Worker.held?]) rfl

theorem Evolves.record_of_terminal {p : Nat} {j k : Job} (hevolves : Evolves s s' p j k)
    (h : s.Staged) (hj : s.engine.jobs[p]? = some j) (hend : j.isTerminal = true) :
    k.record = j.record := by
  have hrunning : s.engine.worker ≠ .working p := fun hworker =>
    Job.ne_running_of_terminal hend ((h.running p j hj).2 (.inr hworker))
  have hqueued := Job.ne_queued_of_terminal hend
  cases hevolves with
  | touched ht => exact ht.record
  | toiled hworker => exact absurd hworker hrunning
  | withdrawn _ hq => exact absurd hq hqueued
  | told => exact (Job.sameCore_notifyDone j).record
  | begun _ _ hq => exact absurd hq hqueued
  | finished _ _ hworker => exact absurd hworker hrunning

/-- Only the job that was taken is begun, and it gets a start. -/
theorem Step.started (h : Step s s') : s'.started = s.started ∨ ∃ p j k,
    s'.started = s.started ++ [p] ∧ s.engine.worker = .taken p ∧ s.engine.jobs[p]? = some j ∧
      j.state = .queued ∧ s'.engine.jobs[p]? = some k ∧ k.record.startedAt ≠ none := by
  cases h with
  | @begin p j k hworker hjob hqueued now hbegun =>
    refine .inr ⟨p, j, k, rfl, hworker, hjob, hqueued, ?_, by simp [hbegun]⟩
    exact (Engine.getElem?_setJob hjob k p).trans (if_pos rfl)
  | _ => exact .inl rfl

theorem Serves.step {errand : Errand} (h : s.Serves errand) (hstaged : s.Staged)
    (hstep : Step s s') : s'.Serves errand := by
  have hclosing : ∀ p r, (p ∉ s.started ∧ ∃ j, s.engine.jobs[p]? = some j ∧ j.record = r ∧
      j.state = .canceled) → p ∉ s'.started ∧ ∃ j, s'.engine.jobs[p]? = some j ∧ j.record = r ∧
      j.state = .canceled := by
    rintro p r ⟨hnot, j, hj, hrecord, hstate⟩
    constructor
    · rcases hstep.started with hsame | ⟨q, i, -, hstarted, -, hi, hqueued, -⟩
      · rwa [hsame]
      · rw [hstarted, List.mem_append, List.mem_singleton, not_or]
        refine ⟨hnot, fun hpq => ?_⟩
        rw [← hpq, hj] at hi
        rw [← Option.some.inj hi, hstate] at hqueued
        contradiction
    · obtain ⟨k, hk, hevolves⟩ := hstep.evolves hj
      have hend : j.isTerminal = true := by
        rw [Job.isTerminal, ← Job.state, hstate]
        rfl
      have hsame := hevolves.record_of_terminal hstaged hj hend
      exact ⟨k, hk, hsame.trans hrecord, (congrArg Record.state hsame).trans hstate⟩
  cases errand with
  | save | enroll => exact h
  | close p r | tell p r => exact hclosing p r h

theorem Attended.not_closing (h : s.Attended) {p : Nat} {j : Job} (hj : s.engine.jobs[p]? = some j)
    (hqueued : j.state = .queued) : p ∉ s.errands.filterMap Errand.position? := by
  intro hmem
  obtain ⟨errand, herrand, hposition⟩ := List.mem_filterMap.1 hmem
  have hserves := h.serves errand herrand
  cases errand with
  | save | enroll => contradiction
  | close q r | tell q r =>
    obtain rfl : q = p := Option.some.inj hposition
    obtain ⟨-, k, hk, -, hcanceled⟩ := hserves
    rw [hj] at hk
    rw [← Option.some.inj hk, hqueued] at hcanceled
    contradiction

theorem Attended.close_notMem (h : s.Attended) {p : Nat} {j : Job}
    (hj : s.engine.jobs[p]? = some j) (hqueued : j.state = .queued) (r : Record) :
    .close p r ∉ s.errands :=
  fun hmem => h.not_closing hj hqueued (List.mem_filterMap.2 ⟨_, hmem, rfl⟩)

theorem Attended.step (h : s.Attended) (hstaged : s.Staged) (hstep : Step s s') :
    s'.Attended := by
  have hold : ∀ errand ∈ s.errands, s'.Serves errand := fun errand hmem =>
    (h.serves errand hmem).step hstaged hstep
  have herase : ∀ errand, (∀ other ∈ s.errands.erase errand, s'.Serves other) ∧
      ((s.errands.erase errand).filterMap Errand.position?).Nodup := fun errand =>
    ⟨fun other hmem => hold other (List.mem_of_mem_erase hmem),
      h.distinct.sublist (List.erase_sublist.filterMap _)⟩
  -- A request under way goes on with its next stage.
  have hnext : ∀ {errand : Errand} (next : Errand), errand ∈ s.errands →
      next.position? = errand.position? →
      s'.Serves next → (∀ other ∈ s.errands.erase errand ++ [next], s'.Serves other) ∧
        ((s.errands.erase errand ++ [next]).filterMap Errand.position?).Nodup := by
    intro errand next hmem hposition hserves
    refine ⟨fun other hother => ?_,
      (filterMap_erase_concat hmem hposition).nodup_iff.2 h.distinct⟩
    rcases List.mem_append.1 hother with hother | hother
    · exact (herase errand).1 other hother
    · rwa [List.mem_singleton.1 hother]
  cases hstep with
  | touch | toil | change | excuse | start | rest | take | skip | begin | launch | finish
  | archive | report => exact ⟨hold, h.distinct⟩
  | order hid hfresh hstate hstart =>
    refine ⟨fun errand hmem => ?_, ?_⟩
    · rcases List.mem_append.1 hmem with hmem | hmem
      · exact hold errand hmem
      · obtain rfl := List.mem_singleton.1 hmem
        exact ⟨hstate, hstart⟩
    · rw [List.filterMap_append]
      exact (List.append_nil _).symm ▸ h.distinct
  | @save r files hmem =>
    obtain ⟨hserves, hdistinct⟩ := hnext (.enroll r) hmem rfl (hold (.save r) hmem)
    exact ⟨hserves, hdistinct⟩
  | refuse => exact ⟨(herase _).1, (herase _).2⟩
  | enroll => exact ⟨(herase _).1, (herase _).2⟩
  | @withdraw p j now hjob hqueued =>
    refine ⟨fun errand hmem => ?_, ?_⟩
    · rcases List.mem_append.1 hmem with hmem | hmem
      · exact hold errand hmem
      · obtain rfl := List.mem_singleton.1 hmem
        refine ⟨(hstaged.waiting p j hjob hqueued).1,
          { j with cancelRequested := true, record := Job.canceledRecord j.record now },
          ?_, rfl, rfl⟩
        exact (Engine.getElem?_setJob hjob _ p).trans (if_pos rfl)
    · rw [List.filterMap_append]
      refine List.nodup_append.2 ⟨h.distinct, by simp [Errand.position?], fun q hq q' hq' he => ?_⟩
      obtain rfl : q' = p := List.mem_singleton.1 hq'
      exact h.not_closing hjob hqueued (he ▸ hq)
  | @close p r hmem =>
    obtain ⟨hserves, hdistinct⟩ := hnext (.tell p r) hmem rfl (hold (.close p r) hmem)
    exact ⟨hserves, hdistinct⟩
  | tell => exact ⟨(herase _).1, (herase _).2⟩

/-! ## All together -/

/-- What holds at every moment of a shift. -/
structure Sound (s : Shift) : Prop where
  lined : s.Lined
  named : s.Named
  staged : s.Staged
  attended : s.Attended

theorem Sound.step (h : s.Sound) (hstep : Step s s') : s'.Sound where
  lined := h.lined.step hstep
  named := h.named.step hstep
  staged := h.staged.step h.lined h.attended hstep
  attended := h.attended.step h.staged hstep

theorem Sound.run (h : s.Sound) {moves : List Move} (hlawful : s.Lawful moves) :
    (s.run moves).Sound :=
  run_induction (fun _ _ hs hstep => hs.step hstep) h hlawful

/-- What every step of a sound shift preserves holds after every lawful run of it. -/
theorem Sound.run_induction {P : Shift → Prop} (h : s.Sound)
    (hstep : ∀ s s', s.Sound → P s → Step s s' → P s') (hs : P s) {moves : List Move}
    (hlawful : s.Lawful moves) : P (s.run moves) :=
  (Shift.run_induction (P := fun s => s.Sound ∧ P s)
    (fun s s' hs hnext => ⟨hs.1.step hnext, hstep s s' hs.1 hs.2 hnext⟩) ⟨h, hs⟩ hlawful).2

end Shift

end FirmwareJobs

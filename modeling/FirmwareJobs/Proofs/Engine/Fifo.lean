import FirmwareJobs.Proofs.Engine.Restoring

/-!
# One job after the other

In a shift that starts with an empty job directory, jobs are begun one at a time, each once and in
the order in which they were accepted. A job that was not begun has no trace of work, and a job
that was begun ends before the next one begins.
-/

namespace FirmwareJobs

open Files Store Time

namespace Move

/-- The moves of the worker. -/
def isWork : Move → Bool
  | .work .. => true
  | _ => false

theorem isWork_iff {m : Move} : m.isWork = true ↔ ∃ code now, m = .work code now := by
  cases m <;> simp [isWork]

end Move

namespace Shift

variable {s s' : Shift}

/-! ## Jobs that were not begun -/

/-- Only jobs that were begun have a start and a log. -/
structure Untouched (s : Shift) : Prop where
  stands : s.store.Stands s.files
  waiting : ∀ (p : Nat) (j : Job), s.engine.jobs[p]? = some j → p ∉ s.started →
    j.record.startedAt = none ∧ j.log = .ofCapacity s.engine.settings.capacity ∧
      s.store.content? s.files (logName j.id) = some []
  begun : ∀ (p : Nat) (j : Job), s.engine.jobs[p]? = some j → p ∈ s.started →
    j.record.startedAt ≠ none
  newcomers : ∀ errand ∈ s.errands, ∀ id, errand.newId? = some id →
    s.store.content? s.files (logName id) = some []

theorem Step.subset_started (h : Step s s') : s.started ⊆ s'.started := by
  rcases h.started with hsame | ⟨p, j, k, hstarted, -⟩
  · rw [hsame]
    exact fun _ hp => hp
  · rw [hstarted]
    exact List.subset_append_left _ _

theorem Step.newcomer (h : Step s s') {errand : Errand} (hmem : errand ∈ s'.errands) {id : String}
    (hnew : errand.newId? = some id) : (∃ old ∈ s.errands, old.newId? = some id) ∨
      IsId id ∧ s.store.createLog s.files id = .ok s'.files := by
  have herase : ∀ {other : Errand}, errand ∈ s.errands.erase other →
      ∃ old ∈ s.errands, old.newId? = some id := fun hmem =>
    ⟨errand, List.mem_of_mem_erase hmem, hnew⟩
  cases h with
  | touch | toil | change | excuse | start | rest | take | skip | begin | launch | finish
  | archive | report => exact .inl ⟨errand, hmem, hnew⟩
  | order hid _ _ _ hlog =>
    rcases List.mem_append.1 hmem with hmem | hmem
    · exact .inl ⟨errand, hmem, hnew⟩
    · obtain rfl := List.mem_singleton.1 hmem
      obtain rfl := Option.some.inj hnew
      exact .inr ⟨hid, hlog⟩
  | @save r files hold =>
    rcases List.mem_append.1 hmem with hmem | hmem
    · exact .inl (herase hmem)
    · obtain rfl := List.mem_singleton.1 hmem
      exact .inl ⟨.save r, hold, hnew⟩
  | refuse | enroll | tell => exact .inl (herase hmem)
  | withdraw =>
    rcases List.mem_append.1 hmem with hmem | hmem
    · exact .inl ⟨errand, hmem, hnew⟩
    · obtain rfl := List.mem_singleton.1 hmem
      contradiction
  | close =>
    rcases List.mem_append.1 hmem with hmem | hmem
    · exact .inl (herase hmem)
    · obtain rfl := List.mem_singleton.1 hmem
      contradiction

theorem Sound.toiling (h : s.Sound) {job : Job} (hjob : s.toiling? = some job) :
    ∃ p ∈ s.started, s.engine.jobs[p]? = some job := by
  unfold toiling? at hjob
  split at hjob
  · next p hworker => exact ⟨p, h.staged.held p (by rw [hworker]; rfl), hjob⟩
  · contradiction

theorem Sound.ids_nodup (h : s.Sound) : s.engine.ids.Nodup :=
  (List.nodup_append.1 h.named.distinct).1

theorem Sound.position_eq (h : s.Sound) {p q : Nat} {j k : Job} (hj : s.engine.jobs[p]? = some j)
    (hk : s.engine.jobs[q]? = some k) (hid : j.id = k.id) : p = q := by
  have hp := h.named.indexed.position?_of_nodup h.ids_nodup hj
  have hq := h.named.indexed.position?_of_nodup h.ids_nodup hk
  rw [hid, hq] at hp
  exact (Option.some.inj hp).symm

theorem mem_names_of_job {p : Nat} {j : Job} (hj : s.engine.jobs[p]? = some j) :
    j.id ∈ s.names :=
  List.mem_append_left _ (List.mem_map_of_mem (List.mem_of_getElem? hj))

theorem mem_names_of_new {errand : Errand} {id : String} (hmem : errand ∈ s.errands)
    (hnew : errand.newId? = some id) : id ∈ s.names :=
  List.mem_append_right _ (List.mem_filterMap.2 ⟨errand, hmem, hnew⟩)

theorem Sound.new_ne (h : s.Sound) {errand : Errand} {id : String} (hmem : errand ∈ s.errands)
    (hnew : errand.newId? = some id) {p : Nat} {j : Job} (hj : s.engine.jobs[p]? = some j) :
    j.id ≠ id :=
  (List.nodup_append.1 h.named.distinct).2.2 _ (List.mem_map_of_mem (List.mem_of_getElem? hj)) _
    (List.mem_filterMap.2 ⟨errand, hmem, hnew⟩)

theorem startedAt_finish (j : Job) (code : Int32) (now : Instant) :
    (j.finish code now).record.startedAt = j.record.startedAt := by
  unfold Job.finish Job.canceledRecord
  split_ifs <;> rfl

theorem Untouched.step (h : s.Untouched) (hsound : s.Sound) (hstep : Step s s') :
    s'.Untouched := by
  have hnewlog : ∀ errand ∈ s.errands, ∀ id, errand.newId? = some id →
      s'.store.content? s'.files (logName id) = some [] := fun errand hmem id hnew => by
    rw [hstep.content?_log hsound h.stands (mem_names_of_new hmem hnew) fun job hjob => ?_]
    · exact h.newcomers errand hmem id hnew
    · obtain ⟨q, -, hq⟩ := hsound.toiling hjob
      exact hsound.new_ne hmem hnew hq
  refine ⟨hstep.stands hsound h.stands, fun p k hk hp => ?_, fun p k hk hp => ?_,
    fun errand hmem id hnew => ?_⟩
  · -- a job that was not begun was there before, or it is new
    have hold : p ∉ s.started := fun hmem => hp (hstep.subset_started hmem)
    rw [hstep.settings]
    rcases hstep.comes hk with ⟨j, hj, hevolves⟩ | ⟨rfl, r, hmem, rfl⟩
    · obtain ⟨hstart, hlog, hfile⟩ := h.waiting p j hj hold
      have hsame : s'.store.content? s'.files (logName j.id) = some [] := by
        rw [hstep.content?_log hsound h.stands (mem_names_of_job hj) fun job hjob he => ?_]
        · exact hfile
        · obtain ⟨q, hq, hjob⟩ := hsound.toiling hjob
          exact hold (hsound.position_eq hjob hj he ▸ hq)
      have hidle : s.engine.worker ≠ .working p := fun hworker =>
        hold (hsound.staged.held p (by rw [hworker]; rfl))
      cases hevolves with
      | touched ht =>
        have hid : k.id = j.id := congrArg Record.id ht.record
        exact ⟨ht.record ▸ hstart, ht.log.trans hlog, hid ▸ hsame⟩
      | toiled hworker => exact absurd hworker hidle
      | withdrawn now hqueued => exact ⟨hstart, hlog, hsame⟩
      | told =>
        have hcore := Job.sameCore_notifyDone j
        exact ⟨hcore.record ▸ hstart, hcore.log.trans hlog, id_notifyDone j ▸ hsame⟩
      | begun now hworker hqueued hstarted =>
        exact absurd (hstarted ▸ List.mem_append_right _ (List.mem_singleton_self p)) hp
      | finished code now hworker => exact absurd hworker hidle
    · exact ⟨(hsound.attended.serves _ hmem).2, rfl, hnewlog _ hmem r.id rfl⟩
  · -- no step takes the start of a job away, and the step that begins a job sets it
    have hold : p ∈ s.started → k.record.startedAt ≠ none := by
      intro hmem
      rcases hstep.comes hk with ⟨j, hj, hevolves⟩ | ⟨rfl, -⟩
      · have hstart := h.begun p j hj hmem
        cases hevolves with
        | touched ht => exact ht.record ▸ hstart
        | toiled _ hrecord => exact hrecord ▸ hstart
        | withdrawn => exact hstart
        | told => exact (Job.sameCore_notifyDone j).record ▸ hstart
        | begun now => exact Option.some_ne_none now
        | finished code now => exact startedAt_finish j code now ▸ hstart
      · exact absurd (hsound.lined.bounded _ (List.mem_append_left _ hmem)) (Nat.lt_irrefl _)
    rcases hstep.started with hsame | ⟨q, j, x, hstarted, -, -, -, hx, hstart⟩
    · exact hold (hsame ▸ hp)
    · rw [hstarted, List.mem_append, List.mem_singleton] at hp
      rcases hp with hp | rfl
      · exact hold hp
      · rw [hk] at hx
        exact Option.some.inj hx ▸ hstart
  · rcases hstep.newcomer hmem hnew with ⟨old, hold, holdid⟩ | ⟨hid, hlog⟩
    · exact hnewlog old hold id holdid
    · rw [hstep.store]
      exact (createLog_eq_ok h.stands hid hlog).2.1

theorem Untouched.run (h : s.Untouched) (hsound : s.Sound) {moves : List Move}
    (hlawful : s.Lawful moves) : (s.run moves).Untouched :=
  hsound.run_induction (fun _ _ hsound hs hstep => hs.step hsound hstep) h hlawful

/-! ## Jobs that were canceled in time -/

theorem serves_cancel (h : s.Sound) {id : String} (now : Instant) {p : Nat} {j : Job}
    (hp : s.engine.position? id = some p) (hj : s.engine.jobs[p]? = some j)
    (hqueued : j.state = .queued) :
    (s.apply (.cancel id now)).Serves (.tell p (Job.canceledRecord j.record now)) := by
  have hcancel : s.apply (.cancel id now) = { s with
      engine := s.engine.setJob p
        { j with cancelRequested := true, record := Job.canceledRecord j.record now }
      errands := s.errands ++ [.close p (Job.canceledRecord j.record now)] } := by
    have hwithdraw : s.engine.withdraw id now = .ok ((j.requestCancel now).1, p,
        s.engine.setJob p (j.requestCancel now).2) := by
      rw [Engine.withdraw, hp]
      dsimp only
      rw [hj]
    rw [Job.requestCancel_of_queued now hqueued] at hwithdraw
    rw [apply, cancel, hwithdraw]
  rw [hcancel]
  exact ⟨(h.staged.waiting p j hj hqueued).1, _, (Engine.getElem?_setJob hj _ p).trans (if_pos rfl),
    rfl, rfl⟩

theorem Sound.serves_run (h : s.Sound) {errand : Errand} (hserves : s.Serves errand)
    {moves : List Move} (hlawful : s.Lawful moves) : (s.run moves).Serves errand :=
  h.run_induction (P := fun s => s.Serves errand)
    (fun _ _ hsound hs hstep => hs.step hsound.staged hstep) hserves hlawful

/-! ## Jobs that were begun -/

theorem Sound.ended (h : s.Sound) {p : Nat} (hp : p ∈ s.started) {j : Job}
    (hj : s.engine.jobs[p]? = some j) :
    j.isTerminal = true ∨ s.engine.worker = .begun p ∨ s.engine.worker = .working p := by
  rcases j.state_cases with hqueued | hrunning | hend
  · exact absurd hp (h.staged.waiting p j hj hqueued).1
  · exact .inr ((h.staged.running p j hj).1 hrunning)
  · exact .inl hend

theorem Sound.running_eq (h : s.Sound) {p q : Nat} {j k : Job} (hj : s.engine.jobs[p]? = some j)
    (hk : s.engine.jobs[q]? = some k) (hjr : j.state = .running) (hkr : k.state = .running) :
    p = q := by
  have hheld : ∀ {x : Nat}, s.engine.worker = .begun x ∨ s.engine.worker = .working x →
      s.engine.worker.held? = some x := by
    rintro x (hx | hx) <;> rw [hx] <;> rfl
  exact Option.some.inj ((hheld ((h.staged.running p j hj).1 hjr)).symm.trans
    (hheld ((h.staged.running q k hk).1 hkr)))

/-- The record of a job that has ended is never changed again. -/
theorem Sound.record_run (h : s.Sound) {p : Nat} {j : Job} (hj : s.engine.jobs[p]? = some j)
    (hend : j.isTerminal = true) {moves : List Move} (hlawful : s.Lawful moves) :
    ∃ k, (s.run moves).engine.jobs[p]? = some k ∧ k.record = j.record := by
  refine h.run_induction (P := fun s => ∃ k, s.engine.jobs[p]? = some k ∧ k.record = j.record)
    (fun s s' hsound hs hstep => ?_) ⟨j, hj, rfl⟩ hlawful
  obtain ⟨k, hk, hrecord⟩ := hs
  obtain ⟨x, hx, hevolves⟩ := hstep.evolves hk
  have hsame := hevolves.record_of_terminal hsound.staged hk (by rwa [Job.isTerminal, hrecord])
  exact ⟨x, hx, hsame.trans hrecord⟩

/-! ## The worker goes on -/

theorem worker_apply (s : Shift) {m : Move} (hm : m.isWork = false)
    (hworker : s.engine.worker ≠ .absent) : (s.apply m).engine.worker = s.engine.worker := by
  cases m with
  | submit request id now =>
    rw [apply, submit]
    split <;> rfl
  | cancel id now =>
    rw [apply, cancel]
    rcases s.engine.withdraw_cases id now with ⟨fault, h⟩ | ⟨p, j, -, -, h⟩ <;> rw [h]
    cases (j.requestCancel now).1 <;> rfl
  | serve errand =>
    rw [apply]
    split_ifs
    · cases errand with
      | save r =>
        rcases s.serve_save_cases r with ⟨files, -, hserve⟩ | ⟨fault, files, -, hserve⟩ <;>
          rw [hserve]
      | enroll r => rfl
      | close p r => exact Engine.worker_persist _ _ _
      | tell p r =>
        rw [serve_tell]
        simp
    · rfl
  | start => rw [apply, Engine.start, if_neg hworker]
  | halt => rfl
  | stop now => exact (s.engine.touched_beginStop now).1.worker
  | work => contradiction
  | toil op =>
    rw [apply]
    split
    · rw [alter]
      split <;> rfl
    · rfl
  | listen p op =>
    rw [apply, alter]
    split <;> rfl
  | change => rfl

theorem worker_work_of_begun {p : Nat} {j : Job} (hworker : s.engine.worker = .begun p)
    (hj : s.engine.jobs[p]? = some j) (code : Int32) (now : Instant) :
    (s.apply (.work code now)).engine.worker = .working p := by
  simp [apply, work, hworker, Engine.saveBegun?, hj]

/-- Whatever code the toolchain returns, its job has ended then. -/
theorem jobs_work_of_working {p : Nat} {j : Job} (hworker : s.engine.worker = .working p)
    (hj : s.engine.jobs[p]? = some j) (code : Int32) (now : Instant) :
    (s.apply (.work code now)).engine.jobs[p]? = some (j.finish code now) := by
  have happly : (s.apply (.work code now)).engine.jobs =
      (s.engine.setJob p (j.finish code now)).jobs := by
    simp [apply, work, hworker, Engine.endWork?, hj]
  rw [happly, Engine.getElem?_setJob hj, if_pos rfl]

/-- Whatever else happens, a job that was begun has ended when the worker has gone on twice. -/
theorem Sound.terminal_run {p : Nat} (moves : List Move) : ∀ {s : Shift}, s.Sound →
    s.Lawful moves → ((∃ j, s.engine.jobs[p]? = some j ∧ j.isTerminal = true) ∨
      s.engine.worker = .working p ∧ 1 ≤ moves.countP Move.isWork ∨
      s.engine.worker = .begun p ∧ 2 ≤ moves.countP Move.isWork) →
    ∃ k, (s.run moves).engine.jobs[p]? = some k ∧ k.isTerminal = true := by
  induction moves with
  | nil =>
    rintro s - - (hend | ⟨-, hcount⟩ | ⟨-, hcount⟩)
    · exact hend
    · contradiction
    · contradiction
  | cons m moves ih =>
    intro s h hlawful hgoes
    have hjob : ∀ q, s.engine.worker.held? = some q → ∃ j, s.engine.jobs[q]? = some j :=
      fun q hq => ⟨_, List.getElem?_eq_getElem
        (h.lined.bounded q (List.mem_append_left _ (h.staged.held q hq)))⟩
    have hone : s.Lawful [m] := ⟨hlawful.1, trivial⟩
    refine ih (h.run hone) hlawful.2 ?_
    rcases hgoes with ⟨j, hj, hend⟩ | ⟨hworker, hcount⟩ | ⟨hworker, hcount⟩
    · obtain ⟨k, hk, hrecord⟩ := h.record_run hj hend hone
      exact .inl ⟨k, hk, by rwa [Job.isTerminal, hrecord]⟩
    · obtain ⟨j, hj⟩ := hjob p (by rw [hworker]; rfl)
      cases hm : m.isWork with
      | true =>
        obtain ⟨code, now, rfl⟩ := Move.isWork_iff.1 hm
        exact .inl ⟨_, jobs_work_of_working hworker hj code now, j.isTerminal_finish code now⟩
      | false =>
        refine .inr (.inl ⟨(s.worker_apply hm (by simp [hworker])).trans hworker, ?_⟩)
        simpa [List.countP_cons, hm] using hcount
    · obtain ⟨j, hj⟩ := hjob p (by rw [hworker]; rfl)
      cases hm : m.isWork with
      | true =>
        obtain ⟨code, now, rfl⟩ := Move.isWork_iff.1 hm
        refine .inr (.inl ⟨worker_work_of_begun hworker hj code now, ?_⟩)
        simpa [List.countP_cons, hm] using hcount
      | false =>
        refine .inr (.inr ⟨(s.worker_apply hm (by simp [hworker])).trans hworker, ?_⟩)
        simpa [List.countP_cons, hm] using hcount

/-! ## From an empty directory -/

/-- The job at a position is canceled and has no trace of work. -/
structure Abandoned (s : Shift) (p : Nat) : Prop where
  not_started : p ∉ s.started
  job : ∃ j, s.engine.jobs[p]? = some j ∧ j.state = .canceled ∧ j.record.startedAt = none ∧
    j.log = .ofCapacity s.engine.settings.capacity ∧
    s.store.content? s.files (logName j.id) = some []

/-- One job after the other: positions are given in the order of acceptance. -/
structure Fifo (s : Shift) : Prop where
  one_running : ∀ (p q : Nat) (j k : Job), s.engine.jobs[p]? = some j →
    s.engine.jobs[q]? = some k → j.state = .running → k.state = .running → p = q
  in_order : s.started.Pairwise (· < ·)
  started_iff : ∀ (p : Nat) (j : Job), s.engine.jobs[p]? = some j →
    (p ∈ s.started ↔ j.record.startedAt ≠ none)
  abandoned : ∀ (id : String) (now : Instant) (p : Nat) (j : Job), s.engine.position? id = some p →
    s.engine.jobs[p]? = some j → j.state = .queued → ∀ moves,
    (s.apply (.cancel id now)).Lawful moves → ((s.apply (.cancel id now)).run moves).Abandoned p
  ended : ∀ p ∈ s.started, ∀ j : Job, s.engine.jobs[p]? = some j →
    j.isTerminal = true ∨ s.engine.worker = .begun p ∨ s.engine.worker = .working p
  ends : ∀ p, s.engine.worker = .begun p ∨ s.engine.worker = .working p → ∀ moves,
    s.Lawful moves → 2 ≤ moves.countP Move.isWork →
    ∃ j, (s.run moves).engine.jobs[p]? = some j ∧ j.isTerminal = true
  final : ∀ (p : Nat) (j : Job), s.engine.jobs[p]? = some j → j.isTerminal = true → ∀ moves,
    s.Lawful moves → ∃ k, (s.run moves).engine.jobs[p]? = some k ∧ k.record = j.record
  accepted : s.engine.ids = s.chronicle.accepted
  listed : (s.engine.list.map Record.id).Perm s.chronicle.accepted
  once : s.chronicle.accepted.Nodup
  newest_first : s.engine.list.Pairwise fun r later => later.createdAt.rank ≤ r.createdAt.rank

theorem Sound.fifo (h : s.Sound) (huntouched : s.Untouched)
    (haccepted : s.engine.ids = s.chronicle.accepted) : s.Fifo where
  one_running _ _ _ _ := h.running_eq
  in_order := (List.pairwise_append.1 h.lined.sorted).1
  started_iff p j hj := by
    refine ⟨huntouched.begun p j hj, fun hstart => ?_⟩
    by_contra hp
    exact hstart (huntouched.waiting p j hj hp).1
  abandoned id now p j hp hj hqueued moves hlawful := by
    have hone : s.Lawful [.cancel id now] := ⟨trivial, trivial⟩
    have hsound := h.run hone
    obtain ⟨hnot, k, hk, -, hstate⟩ :=
      hsound.serves_run (serves_cancel h now hp hj hqueued) hlawful
    exact ⟨hnot, k, hk, hstate, ((huntouched.run h hone).run hsound hlawful).waiting p k hk hnot⟩
  ended p hp j := h.ended hp
  ends p hworker moves hlawful hcount := by
    refine h.terminal_run moves hlawful (.inr ?_)
    rcases hworker with hworker | hworker
    · exact .inr ⟨hworker, hcount⟩
    · exact .inl ⟨hworker, Nat.le_of_succ_le hcount⟩
  final p j hj hend moves hlawful := h.record_run hj hend hlawful
  accepted := haccepted
  listed := by
    rw [← haccepted, ← Engine.map_id_records]
    exact (h.named.indexed.perm_list h.ids_nodup).map Record.id
  once := haccepted ▸ h.ids_nodup
  newest_first := Engine.sorted_newestFirst _

theorem standsAt_of_empty {s : Store} {t : Tree} (hproper : t.IsProper)
    (hempty : t.list s.home s.directory = .ok []) :
    ∃ place, s.StandsAt t place ∧ ∀ name, t.entry? (place ++ [name]) = none := by
  rw [Tree.list] at hempty
  cases hlocate : t.locate s.home s.directory with
  | error fault =>
    rw [hlocate] at hempty
    contradiction
  | ok place =>
    rw [hlocate] at hempty
    change (t.demand place >>= _) = _ at hempty
    rw [Tree.demand] at hempty
    cases hentry : t.entry? place with
    | none =>
      rw [hentry] at hempty
      contradiction
    | some e =>
      rw [hentry] at hempty
      cases e with
      | directory =>
        have hchildren : t.children place = [] := Except.ok.inj hempty
        have hnone : ∀ name, t.entry? (place ++ [name]) = none := fun name => by
          by_contra hsome
          have hmem : name ∈ t.children place := by
            rwa [Tree.mem_children_iff, ← Tree.entry?_concat, Option.isSome_iff_ne_none]
          rw [hchildren] at hmem
          contradiction
        refine ⟨place, ⟨hproper, hlocate, (Tree.isDirectory_iff t place).2 hentry,
          fun name e he => ?_⟩, hnone⟩
        rw [hnone] at he
        contradiction
      | file | program | sink | full => contradiction

theorem stands_of_empty {s : Store} {t : Tree} (hproper : t.IsProper)
    (hempty : t.list s.home s.directory = .ok []) : s.Stands t := by
  obtain ⟨place, hstands, -⟩ := standsAt_of_empty hproper hempty
  exact ⟨place, hstands⟩

theorem tidy_of_empty {s : Store} {t : Tree} (hproper : t.IsProper)
    (hempty : t.list s.home s.directory = .ok []) : s.Tidy t := by
  obtain ⟨place, hstands, hnone⟩ := standsAt_of_empty hproper hempty
  intro name r hname _ hr
  have hmissing : s.content? t name = none := by
    by_cases hfits : s.Fits name
    · rw [hstands.content?_of_fits hname hfits, hnone]
      rfl
    · exact hstands.content?_of_not_fits hname hfits
  change (s.content? t name).bind _ = _ at hr
  rw [hmissing] at hr
  contradiction

theorem open_of_empty {settings : Settings} {files dir : Tree} {store : Store} (now : Instant)
    (hopen : Store.open files settings = .ok (store, dir))
    (hempty : dir.list settings.home settings.jobDir = .ok []) :
    Engine.open settings files now = .ok (Engine.empty settings, dir) := by
  have hstore := Store.eq_ofSettings_of_open hopen
  have hload : store.loadAll dir = .ok [] := by
    rw [hstore]
    change (dir.list settings.home settings.jobDir >>= _) = _
    rw [hempty]
    rfl
  simp [Engine.open, hopen, hload, Engine.oldestFirst, Engine.restoreAll]

theorem sound_empty (settings : Settings) (dir : Tree) :
    (opening (Engine.empty settings) dir {}).Sound :=
  (Engine.isOpening_empty settings).sound dir {} List.nodup_nil (fun _ hid => nomatch hid)
    fun _ hjob => nomatch hjob

theorem untouched_empty {settings : Settings} {dir : Tree}
    (hstands : (ofSettings settings).Stands dir) :
    (opening (Engine.empty settings) dir {}).Untouched :=
  ⟨hstands, (fun _ _ hj => nomatch hj), (fun _ _ hj => nomatch hj), fun _ hmem => nomatch hmem⟩

/-- In every run that starts with an empty job directory the jobs go one after the other. -/
theorem fifo_of_empty {settings : Settings} {files dir : Tree} {store : Store} (now : Instant)
    (hopen : Store.open files settings = .ok (store, dir)) (hproper : dir.IsProper)
    (hempty : dir.list settings.home settings.jobDir = .ok []) :
    Engine.open settings files now = .ok (Engine.empty settings, dir) ∧
      ∀ moves, (opening (Engine.empty settings) dir {}).Lawful moves →
        ((opening (Engine.empty settings) dir {}).run moves).Fifo := by
  refine ⟨open_of_empty now hopen hempty, fun moves hlawful => ?_⟩
  have hsound := sound_empty settings dir
  have huntouched := untouched_empty (stands_of_empty (s := ofSettings settings) hproper hempty)
  refine (hsound.run hlawful).fifo (huntouched.run hsound hlawful) ?_
  refine run_induction (P := fun s => s.engine.ids = s.chronicle.accepted)
    (fun s s' hs hstep => ?_) rfl hlawful
  rcases hstep.ids_cases with ⟨hids, haccepted⟩ | ⟨r, -, hids, haccepted⟩
  · rw [hids, haccepted, hs]
  · rw [hids, haccepted, hs]

/-! ## A shift with two jobs -/

/-- An empty job directory and one document. -/
def benchTree : Tree :=
  ⟨[(["jobs"], .directory), (["config"], .directory), (["config", "node.yaml"], .file [])]⟩

theorem isProper_benchTree : benchTree.IsProper := by decide

theorem list_benchTree : benchTree.list [] "/jobs" = .ok [] := rfl

theorem stands_benchTree : (ofSettings Engine.benchSettings).Stands benchTree :=
  stands_of_empty isProper_benchTree list_benchTree

theorem tidy_benchTree : (ofSettings Engine.benchSettings).Tidy benchTree :=
  tidy_of_empty isProper_benchTree list_benchTree

theorem storeOpen_benchTree : Store.open benchTree Engine.benchSettings =
    .ok (.ofSettings Engine.benchSettings, benchTree) := by decide +kernel

theorem open_benchTree : Engine.open Engine.benchSettings benchTree Job.noon =
    .ok (Engine.empty Engine.benchSettings, benchTree) :=
  open_of_empty Job.noon storeOpen_benchTree list_benchTree

def bench : Shift := opening (Engine.empty Engine.benchSettings) benchTree {}

def benchOrder : Request := { document := "node.yaml", action := "compile" }

/-- The first job runs while the second one waits and is canceled. -/
def twoJobs : List Move :=
  [.submit benchOrder "one" Job.noon, .serve (.save (Engine.queuedRecord "one")),
    .serve (.enroll (Engine.queuedRecord "one")), .submit benchOrder "two" Job.noon,
    .serve (.save (Engine.queuedRecord "two")), .serve (.enroll (Engine.queuedRecord "two")),
    .start, .work 0 Job.noon, .work 0 Job.noon, .cancel "two" Job.noon, .work 0 Job.noon,
    .work 0 Job.noon]

theorem lawful_twoJobs : bench.Lawful twoJobs := by
  have hone : IsId "one" := ⟨by decide, by decide, by decide⟩
  have htwo : IsId "two" := ⟨by decide, by decide, by decide⟩
  refine ⟨⟨hone, by decide +kernel⟩, trivial, trivial, ⟨htwo, by decide +kernel⟩, ?_⟩
  simp only [Lawful, Permits, and_self]

theorem run_twoJobs :
    (bench.run twoJobs).started = [0] ∧ (bench.run twoJobs).engine.faults = [] := by
  decide +kernel

theorem fifo_twoJobs :
    Store.open benchTree Engine.benchSettings = .ok (.ofSettings Engine.benchSettings, benchTree) ∧
      benchTree.IsProper ∧ benchTree.list [] "/jobs" = .ok [] ∧ bench.Lawful twoJobs ∧
      (bench.run twoJobs).started = [0] ∧ (bench.run twoJobs).Fifo :=
  ⟨storeOpen_benchTree, isProper_benchTree, list_benchTree, lawful_twoJobs, run_twoJobs.1,
    (fifo_of_empty Job.noon storeOpen_benchTree isProper_benchTree list_benchTree).2 twoJobs
      lawful_twoJobs⟩

end Shift

end FirmwareJobs

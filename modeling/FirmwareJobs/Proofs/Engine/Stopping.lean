import FirmwareJobs.Proofs.Engine.Archive

/-!
# Stopping and opening again

A worker that is to stop takes no more jobs, so the queue stays as it is, and what is saved when it
has come to rest is all that there is to know: opening the directory again gives the same records.
-/

namespace FirmwareJobs

open Files Store Time

namespace Shift

variable {s s' : Shift}

/-! ## After the request to stop -/

theorem Step.isStopping (h : Step s s') (hs : s.engine.isStopping = true) :
    s'.engine.isStopping = true := by
  cases h with
  | touch ht => exact ht.isStopping hs
  | close | tell | launch | archive => simpa using hs
  | toil | change | order | save | refuse | enroll | excuse | withdraw | start | rest | take | skip
  | begin | finish | report => exact hs

theorem Step.queue_prefix (h : Step s s') (hs : s.engine.isStopping = true) :
    s.engine.queue <+: s'.engine.queue := by
  cases h with
  | touch ht => exact ht.queue ▸ List.prefix_rfl
  | @enroll r =>
    by_cases hwaits : r.state = .queued ∧ s.engine.worker ≠ .stopped
    · exact Engine.queue_enroll hwaits.1 hwaits.2 ▸ List.prefix_append _ _
    · exact Engine.queue_enroll_of_not hwaits ▸ List.prefix_rfl
  | take _ hgoing =>
    rw [hs] at hgoing
    contradiction
  | close | tell | launch | archive => simp
  | toil | change | order | save | refuse | excuse | withdraw | start | rest | skip | begin | finish
  | report => exact List.prefix_refl _

theorem queue_prefix_run (hs : s.engine.isStopping = true) {moves : List Move}
    (hlawful : s.Lawful moves) : s.engine.queue <+: (s.run moves).engine.queue :=
  (run_induction (P := fun t => t.engine.isStopping = true ∧ s.engine.queue <+: t.engine.queue)
    (fun _ _ ht hstep => ⟨hstep.isStopping ht.1, ht.2.trans (hstep.queue_prefix ht.1)⟩)
    ⟨hs, List.prefix_refl _⟩ hlawful).2

theorem subset_started_run {moves : List Move} (hlawful : s.Lawful moves) :
    s.started ⊆ (s.run moves).started :=
  run_induction (P := fun t => s.started ⊆ t.started)
    (fun _ _ ht hstep _ hp => hstep.subset_started (ht hp)) (fun _ hp => hp) hlawful

/-! ## Jobs that nobody cancels -/

theorem errands_work (s : Shift) (code : Int32) (now : Instant) :
    (s.work code now).errands = s.errands := by
  have helim : ∀ {α : Type} (o : Option α) (f : α → Shift), (∀ a, (f a).errands = s.errands) →
      (o.elim s f).errands = s.errands := by
    intro α o f hf
    cases o with
    | none => rfl
    | some a => exact hf a
  unfold work
  split <;> first | rfl | exact helim _ _ fun _ => rfl

theorem close_apply (s : Shift) {m : Move} {p : Nat} {r : Record}
    (hmem : .close p r ∈ (s.apply m).errands) : .close p r ∈ s.errands ∨
      ∃ id now, m = .cancel id now ∧ s.engine.position? id = some p := by
  cases m with
  | submit request id now =>
    rw [apply, submit] at hmem
    split at hmem
    · rcases List.mem_append.1 hmem with hold | hnew
      · exact .inl hold
      · simp at hnew
    · exact .inl hmem
  | cancel id now =>
    rw [apply, cancel] at hmem
    rcases s.engine.withdraw_cases id now with ⟨fault, h⟩ | ⟨q, j, hq, -, h⟩ <;> rw [h] at hmem
    · exact .inl hmem
    · cases hout : (j.requestCancel now).1 <;> rw [hout] at hmem
      · exact .inl hmem
      · rcases List.mem_append.1 hmem with hold | hnew
        · exact .inl hold
        · obtain ⟨rfl, -⟩ := Errand.close.inj (List.mem_singleton.1 hnew)
          exact .inr ⟨id, now, rfl, hq⟩
      · exact .inl hmem
  | serve errand =>
    refine .inl ?_
    rw [apply] at hmem
    split_ifs at hmem
    · cases errand with
      | save x =>
        rcases s.serve_save_cases x with ⟨files, -, hserve⟩ | ⟨fault, files, -, hserve⟩ <;>
          rw [hserve] at hmem
        · rcases List.mem_append.1 hmem with hold | hnew
          · exact List.mem_of_mem_erase hold
          · simp at hnew
        · exact List.mem_of_mem_erase hmem
      | close q x =>
        rcases List.mem_append.1 hmem with hold | hnew
        · exact List.mem_of_mem_erase hold
        · simp at hnew
      | enroll | tell => exact List.mem_of_mem_erase hmem
    · exact hmem
  | start =>
    rw [apply] at hmem
    split at hmem <;> exact .inl hmem
  | work code now => exact .inl (errands_work s code now ▸ hmem)
  | toil op =>
    rw [apply] at hmem
    split at hmem
    · rw [alter] at hmem
      split at hmem <;> exact .inl hmem
    · exact .inl hmem
  | listen q op =>
    rw [apply, alter] at hmem
    split at hmem <;> exact .inl hmem
  | halt | stop | change => exact .inl hmem

theorem Staged.waits_step (h : s.Staged) (hstep : Step s s') {p : Nat} {j : Job}
    (hj : s.engine.jobs[p]? = some j) (hqueued : j.state = .queued) (hp : p ∈ s.line) :
    p ∈ s'.started ∨ p ∈ s'.line := by
  rcases hstep.line_cases with ⟨hline, -⟩ | ⟨hline, -⟩ | ⟨q, hline, hleft⟩
  · exact .inr (hline ▸ hp)
  · exact .inr (hline ▸ List.mem_append_left _ hp)
  · rw [hline, List.mem_cons] at hp
    rcases hp with rfl | hold
    · rcases hleft with ⟨-, hbarred⟩ | hstarted
      · obtain ⟨-, -, hnot⟩ := h.waiting p j hj hqueued
        rcases hbarred j hj with hstate | hcancel
        · exact absurd hqueued hstate
        · rw [hcancel] at hnot
          contradiction
      · exact .inl (hstarted ▸ List.mem_append_right _ (List.mem_singleton_self p))
    · exact .inr hold

/-- A queued job that nobody asks to end stays as it is until it is begun. -/
theorem Sound.queued_apply (h : s.Sound) {m : Move} (hpermits : s.Permits m) {p : Nat} {j : Job}
    (hj : s.engine.jobs[p]? = some j) (hqueued : j.state = .queued)
    (hcancel : ∀ now, m ≠ .cancel j.id now) : p ∈ (s.apply m).started ∨
      (p ∈ s.line → p ∈ (s.apply m).line) ∧
        ∃ k, (s.apply m).engine.jobs[p]? = some k ∧ k.record = j.record := by
  by_cases hbegun : p ∈ (s.apply m).started
  · exact .inl hbegun
  rcases s.step_apply hpermits with hsame | hstep
  · rw [hsame]
    exact .inr ⟨id, j, hj, rfl⟩
  · refine .inr ⟨fun hp => (h.staged.waits_step hstep hj hqueued hp).resolve_left hbegun, ?_⟩
    obtain ⟨k, hk, hevolves⟩ := hstep.evolves hj
    have hidle : s.engine.worker ≠ .working p := fun hworker => by
      rw [(h.staged.running p j hj).2 (.inr hworker)] at hqueued
      contradiction
    cases hevolves with
    | touched ht => exact ⟨k, hk, ht.record⟩
    | toiled hworker => exact absurd hworker hidle
    | withdrawn now _ hclose =>
      rcases s.close_apply hclose with hold | ⟨id, now, rfl, hp⟩
      · exact absurd hold (h.attended.close_notMem hj hqueued _)
      · obtain ⟨⟨x, hx, hid⟩, -⟩ := (h.named.indexed.leads id p).1 hp
        rw [hj] at hx
        obtain rfl := Option.some.inj hx
        exact absurd rfl (hid ▸ hcancel now)
    | told => exact ⟨_, hk, (Job.sameCore_notifyDone j).record⟩
    | begun _ _ _ hstarted =>
      exact absurd (hstarted ▸ List.mem_append_right _ (List.mem_singleton_self p)) hbegun
    | finished _ _ hworker => exact absurd hworker hidle

theorem Sound.queued_run (h : s.Sound) {p : Nat} {j : Job} (hj : s.engine.jobs[p]? = some j)
    (hqueued : j.state = .queued) {moves : List Move} (hlawful : s.Lawful moves)
    (hcancel : ∀ now, .cancel j.id now ∉ moves) : p ∈ (s.run moves).started ∨
      (p ∈ s.line → p ∈ (s.run moves).line) ∧
        ∃ k, (s.run moves).engine.jobs[p]? = some k ∧ k.record = j.record := by
  induction moves generalizing s j with
  | nil => exact .inr ⟨id, j, hj, rfl⟩
  | cons m moves ih =>
    rcases h.queued_apply hlawful.1 hj hqueued fun now he =>
      hcancel now (he ▸ List.mem_cons_self) with hstarted | ⟨hline, k, hk, hrecord⟩
    · exact .inl (subset_started_run hlawful.2 hstarted)
    · have hid : k.id = j.id := congrArg Record.id hrecord
      have hone : s.Lawful [m] := ⟨hlawful.1, trivial⟩
      refine (ih (h.run hone) hk ((congrArg Record.state hrecord).trans hqueued) hlawful.2
        fun now hmem => ?_).imp_right fun ⟨hlast, x, hx, hsame⟩ =>
          ⟨hlast ∘ hline, x, hx, hsame.trans hrecord⟩
      exact hcancel now (hid ▸ List.mem_cons_of_mem m hmem)

/-! ## Opening again -/

theorem idle_of_rest (hrest : s.engine.isAtRest = true) :
    s.engine.worker.taken? = none ∧ s.engine.worker.held? = none := by
  have hworker : s.engine.worker = .absent ∨ s.engine.worker = .stopped := by
    simpa [Engine.isAtRest] using hrest
  rcases hworker with hw | hw <;> rw [hw] <;> exact ⟨rfl, rfl⟩

theorem not_busy_of_rest (hrest : s.engine.isAtRest = true) (p : Nat) :
    s.engine.worker ≠ .begun p ∧ s.engine.worker ≠ .working p ∧ s.engine.worker ≠ .ended p :=
  Worker.ne_of_held?_ne (by simp [(idle_of_rest hrest).2])

theorem Sound.none_running (h : s.Sound) (hrest : s.engine.isAtRest = true) :
    ∀ j ∈ s.engine.jobs, j.state ≠ .running := by
  intro j hj hrunning
  obtain ⟨p, hp⟩ := List.getElem?_of_mem hj
  obtain ⟨hbegun, hworking, -⟩ := not_busy_of_rest hrest p
  exact ((h.staged.running p j hp).1 hrunning).elim hbegun hworking

theorem Filed.saved_iff (h : s.Filed) (hsound : s.Sound) (herrands : s.errands = [])
    (hrest : s.engine.isAtRest = true) (r : Record) :
    (IsId r.id ∧ s.store.recordOf? s.files r.id = some r) ↔ r ∈ s.engine.records := by
  have hjob : ∀ {p : Nat} {j : Job}, s.engine.jobs[p]? = some j →
      s.store.recordOf? s.files j.id = some j.record := by
    intro p j hp
    obtain ⟨hbegun, hworking, hended⟩ := not_busy_of_rest hrest p
    have howed : ¬ s.IsOwed p := not_owed hbegun hended (by simp [herrands])
    obtain ⟨x, hx, -, hsame⟩ := h.recordOf? hp howed
    rw [hx, hsame hworking]
  constructor
  · rintro ⟨hid, hr⟩
    rcases h.known r.id r hid hr with hmem | ⟨x, hmem, -⟩
    · obtain ⟨j, hj, hjr⟩ := List.mem_map.1 hmem
      obtain ⟨p, hp⟩ := List.getElem?_of_mem hj
      have hsaved := hjob hp
      rw [hjr, hr] at hsaved
      rw [Option.some.inj hsaved]
      exact List.mem_map_of_mem hj
    · rw [herrands] at hmem
      contradiction
  · intro hmem
    obtain ⟨j, hj, rfl⟩ := List.mem_map.1 hmem
    obtain ⟨p, hp⟩ := List.getElem?_of_mem hj
    exact ⟨hsound.isId_job hp, hjob hp⟩

/-- When nothing is under way, opening the directory gives the same records and changes nothing. -/
theorem Filed.reopen (h : s.Filed) (hsound : s.Sound) (herrands : s.errands = [])
    (hrest : s.engine.isAtRest = true) (now : Instant) :
    ∃ e, Engine.open s.engine.settings s.files now = .ok (e, s.files) ∧ e.faults = [] ∧
      e.records.Perm s.engine.records ∧
      e.queuedRecords.Perm (s.engine.records.filter (·.state = .queued)) ∧
      e.queuedRecords.Pairwise fun r later => r.createdAt.rank ≤ later.createdAt.rank := by
  obtain ⟨records, e, u, hopen, hopened⟩ := Engine.open_of_tidy now h.stands h.tidy
  have hmem : ∀ r, r ∈ Engine.oldestFirst records ↔ r ∈ s.engine.records := fun r =>
    hopened.mem_oldestFirst.trans (h.saved_iff hsound herrands hrest r)
  have hcalm : ∀ r ∈ Engine.oldestFirst records, r.state ≠ .running := by
    intro r hr
    obtain ⟨j, hj, rfl⟩ := List.mem_map.1 ((hmem r).1 hr)
    exact hsound.none_running hrest j hj
  obtain ⟨rfl, hfaults⟩ := hopened.onDisk.calm hcalm
  have hrecords : e.records = Engine.oldestFirst records := by
    rw [hopened.records_eq]
    exact List.map_congr_left (g := id) (fun r hr => Engine.recovered_of_ne_running (hcalm r hr))
      |>.trans (List.map_id _)
  have hperm : e.records.Perm s.engine.records := by
    have hids : s.engine.records.map Record.id = s.engine.ids := Engine.map_id_records _
    have hids' : e.records.map Record.id = e.ids := Engine.map_id_records _
    refine (List.perm_ext_iff_of_nodup (.of_map Record.id (hids' ▸ hopened.nodup_ids))
      (.of_map Record.id (hids ▸ hsound.ids_nodup))).2 fun r => ?_
    rw [hrecords]
    exact hmem r
  have hqueue := hopened.isOpening.queuedRecords_eq
  refine ⟨e, hopen, hfaults, hperm, ?_, ?_⟩
  · rw [hqueue]
    exact hperm.filter _
  · rw [hqueue, hrecords]
    exact (Engine.sorted_oldestFirst records).filter _

/-- What has become of a shift `s` when the worker has come to rest after the request to stop and
the further `moves`. The queue is kept, and so is every queued job; all of them were in the queue
unless the worker had stopped before. -/
structure Stopped (s : Shift) (moves : List Move) (last : Shift) : Prop where
  none_running : ∀ j ∈ last.engine.jobs, j.state ≠ .running
  running_ended : ∀ (p : Nat) (j : Job), s.engine.jobs[p]? = some j → j.state = .running →
    ∃ k, last.engine.jobs[p]? = some k ∧ k.isTerminal = true
  queue_kept : s.engine.queue <+: last.engine.queue
  queued_kept : ∀ (p : Nat) (j : Job), s.engine.jobs[p]? = some j → j.state = .queued →
    p ∉ last.started → (∀ now, .cancel j.id now ∉ moves) →
    (s.engine.worker ≠ .stopped → p ∈ last.engine.queue) ∧
      ∃ k, last.engine.jobs[p]? = some k ∧ k.record = j.record
  reopened : ∀ now, ∃ e, Engine.open last.engine.settings last.files now = .ok (e, last.files) ∧
    e.faults = [] ∧ e.records.Perm last.engine.records ∧
    e.queuedRecords.Perm (last.engine.records.filter (·.state = .queued)) ∧
    e.queuedRecords.Pairwise fun r later => r.createdAt.rank ≤ later.createdAt.rank

theorem Sound.stopped (h : s.Sound) (hstopping : s.engine.isStopping = true) {moves : List Move}
    (hlawful : s.Lawful moves) (hfiled : (s.run moves).Filed)
    (herrands : (s.run moves).errands = []) (hrest : (s.run moves).engine.isAtRest = true) :
    s.Stopped moves (s.run moves) := by
  have hlast := h.run hlawful
  refine ⟨hlast.none_running hrest, fun p j hj hrunning => ?_, queue_prefix_run hstopping hlawful,
    fun p j hj hqueued hnot hcancel => ?_, hfiled.reopen hlast herrands hrest⟩
  · have hstarted : p ∈ s.started := by
      rcases (h.staged.running p j hj).1 hrunning with hw | hw <;>
        exact h.staged.held p (by rw [hw]; rfl)
    have hp := subset_started_run hlawful hstarted
    have hk := List.getElem?_eq_getElem (hlast.lined.bounded p (List.mem_append_left _ hp))
    obtain ⟨hbegun, hworking, -⟩ := not_busy_of_rest hrest p
    exact ⟨_, hk, (hlast.ended hp hk).resolve_right (not_or.2 ⟨hbegun, hworking⟩)⟩
  · obtain ⟨hline, hjob⟩ := (h.queued_run hj hqueued hlawful hcancel).resolve_left hnot
    rw [line_of_not_taken (idle_of_rest hrest).1] at hline
    exact ⟨fun hgoing => hline ((h.staged.waiting p j hj hqueued).2.1 hgoing), hjob⟩

theorem Stopped.of_touched {last : Shift} {moves : List Move} (h : s'.Stopped moves last)
    (htouched : s.engine.Touched s'.engine) : s.Stopped moves last where
  none_running := h.none_running
  running_ended p j hj hrunning := by
    obtain ⟨k, hk, hjk⟩ := htouched.exists hj
    exact h.running_ended p k hk (hjk.state.trans hrunning)
  queue_kept := htouched.queue ▸ h.queue_kept
  queued_kept p j hj hqueued hnot hcancel := by
    obtain ⟨k, hk, hjk⟩ := htouched.exists hj
    have hid : k.id = j.id := congrArg Record.id hjk.record
    have hkept := h.queued_kept p k hk (hjk.state.trans hqueued) hnot (by rwa [hid])
    rwa [hjk.record, htouched.worker] at hkept
  reopened := h.reopened

/-- Disk and memory agree: about every job with which nothing is going on, about every announced
end, and about all jobs when the worker has stopped. -/
structure Archived (s : Shift) : Prop where
  agree : ∀ (p : Nat) (j : Job), s.engine.jobs[p]? = some j → ¬ s.IsOwed p →
    ∃ r, s.store.recordOf? s.files j.id = some r ∧
      r = { j.record with errorSummary := r.errorSummary } ∧
      (s.engine.worker ≠ .working p → r = j.record)
  announced : ∀ (p : Nat) (j : Job) (r : Record), s.engine.jobs[p]? = some j →
    j.Awaits (.done r) → s.store.recordOf? s.files j.id = some r
  stopped : ∀ m, (m = .halt ∨ ∃ now, m = .stop now) → ∀ moves, (s.apply m).Lawful moves →
    ((s.apply m).run moves).engine.faults = [] → ((s.apply m).run moves).errands = [] →
    ((s.apply m).run moves).engine.isAtRest = true →
    s.Stopped moves ((s.apply m).run moves)

theorem Filed.archived (h : s.Filed) (hsound : s.Sound) (hannounced : s.Announced) :
    s.Archived where
  agree p j hj howed := h.recordOf? hj howed
  announced p j r hj hr := by
    obtain ⟨hrecord, hend, howed⟩ := hannounced p j r hj hr
    obtain ⟨x, hx, -, hsame⟩ := h.recordOf? hj howed
    rw [hx, hrecord, hsame fun hworker => ?_]
    exact Job.ne_running_of_terminal hend ((hsound.staged.running p j hj).2 (.inr hworker))
  stopped m hm moves hlawful hfaults herrands hrest := by
    have htouched : s.engine.Touched (s.apply m).engine ∧ (s.apply m).engine.isStopping = true := by
      rcases hm with rfl | ⟨now, rfl⟩
      · exact ⟨s.engine.touched_halt, rfl⟩
      · exact s.engine.touched_beginStop now
    have hone : s.Lawful [m] := by
      rcases hm with rfl | ⟨now, rfl⟩ <;> exact ⟨trivial, trivial⟩
    have hsound' := hsound.run hone
    have hfiled := (h.run hsound hone (faults_run hlawful hfaults)).run hsound' hlawful hfaults
    exact (Sound.stopped hsound' htouched.2 hlawful hfiled herrands hrest).of_touched htouched.1

/-- As long as no save fails, disk and memory agree in every shift that starts with a directory in
which every record is in the file named after its id. -/
theorem archived_of_open {settings : Settings} {files dir : Tree} {e : Engine} {now : Instant}
    (hstands : (ofSettings settings).Stands files) (htidy : (ofSettings settings).Tidy files)
    (hopen : Engine.open settings files now = .ok (e, dir)) {moves : List Move}
    (hlawful : (opening e dir {}).Lawful moves)
    (hfaults : ((opening e dir {}).run moves).engine.faults = []) :
    ((opening e dir {}).run moves).Archived := by
  obtain ⟨records, e', dir', hopen', hopened⟩ := Engine.open_of_tidy now hstands htidy
  rw [hopen] at hopen'
  obtain ⟨rfl, rfl⟩ := Prod.mk.inj (Except.ok.inj hopen')
  have hsound := hopened.sound {}
  have hfiled := filed_opening hopened {} (faults_run hlawful hfaults)
  exact (hfiled.run hsound hlawful hfaults).archived (hsound.run hlawful)
    ((announced_opening hopened {}).run hsound hlawful)

def canceledTwo : Record := Job.canceledRecord (Engine.queuedRecord "two") Job.noon

/-- What is left to do for the two jobs when the worker is told to stop. -/
def lastMoves : List Move :=
  [.serve (.close 1 canceledTwo), .work 0 Job.noon, .serve (.tell 1 canceledTwo), .work 0 Job.noon,
    .work 0 Job.noon]

theorem lawful_lastMoves (s : Shift) : s.Lawful lastMoves := by
  simp only [lastMoves, Lawful, Permits, and_self]

theorem archived_twoJobs :
    (ofSettings Engine.benchSettings).Stands benchTree ∧
      (ofSettings Engine.benchSettings).Tidy benchTree ∧
      Engine.open Engine.benchSettings benchTree Job.noon =
        .ok (Engine.empty Engine.benchSettings, benchTree) ∧
      bench.Lawful twoJobs ∧ (bench.run twoJobs).engine.faults = [] ∧
      (bench.run twoJobs).Archived ∧
      (bench.run twoJobs).Stopped lastMoves
        (((bench.run twoJobs).apply (.stop Job.noon)).run lastMoves) := by
  have hfaults := run_twoJobs.2
  have harchived : (bench.run twoJobs).Archived := by
    unfold bench at hfaults ⊢
    exact archived_of_open stands_benchTree tidy_benchTree open_benchTree lawful_twoJobs hfaults
  obtain ⟨hsaved, herrands, hrest⟩ :
      (((bench.run twoJobs).apply (.stop Job.noon)).run lastMoves).engine.faults = [] ∧
      (((bench.run twoJobs).apply (.stop Job.noon)).run lastMoves).errands = [] ∧
      (((bench.run twoJobs).apply (.stop Job.noon)).run lastMoves).engine.isAtRest = true := by
    decide +kernel
  have hstopped := harchived.stopped (.stop Job.noon) (.inr ⟨Job.noon, rfl⟩) lastMoves
    (lawful_lastMoves _) hsaved herrands hrest
  exact ⟨stands_benchTree, tidy_benchTree, open_benchTree, lawful_twoJobs, hfaults, harchived,
    hstopped⟩

end Shift

end FirmwareJobs

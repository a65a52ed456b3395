import FirmwareJobs.Proofs.Engine.Fifo
import Mathlib.Data.List.Pairwise

/-!
# Records on disk

As long as no save fails, the saved record of a job is the one in memory, except between a change
of the job and the save that follows it. While the toolchain works its summary may be newer. Every
announcement of an end carries the record that is saved.
-/

namespace FirmwareJobs.Shift

open Files Store Time

variable {s s' : Shift}

/-- A record of the job at a position is on its way to the disk. -/
def IsOwed (s : Shift) (p : Nat) : Prop :=
  s.engine.worker = .begun p ∨ s.engine.worker = .ended p ∨ ∃ r, .close p r ∈ s.errands

theorem not_owed {p : Nat} (hbegun : s.engine.worker ≠ .begun p)
    (hended : s.engine.worker ≠ .ended p) (hclose : ∀ r, .close p r ∉ s.errands) :
    ¬ s.IsOwed p := by
  rintro (hw | hw | ⟨r, hmem⟩)
  · exact hbegun hw
  · exact hended hw
  · exact hclose r hmem

/-- How the record that is saved for the job at a position goes with the job. -/
structure Reflects (s : Shift) (p : Nat) (j : Job) (r : Record) : Prop where
  begun : s.engine.worker = .begun p → r.state = .queued
  ended : s.engine.worker = .ended p → r.state = .running
  working : s.engine.worker = .working p → r = { j.record with errorSummary := r.errorSummary }
  same : ¬ s.IsOwed p → s.engine.worker ≠ .working p → r = j.record

/-- The directory has the records of the jobs and no others. -/
structure Filed (s : Shift) : Prop where
  stands : s.store.Stands s.files
  tidy : s.store.Tidy s.files
  jobs : ∀ (p : Nat) (j : Job), s.engine.jobs[p]? = some j →
    ∃ r, s.store.recordOf? s.files j.id = some r ∧ s.Reflects p j r
  newcomers : ∀ r, .enroll r ∈ s.errands → s.store.recordOf? s.files r.id = some r
  known : ∀ id r, IsId id → s.store.recordOf? s.files id = some r →
    id ∈ s.engine.ids ∨ ∃ r, .enroll r ∈ s.errands ∧ r.id = id

/-! ## What a step does to a saved record -/

theorem Reflects.calm {p : Nat} {j k : Job} {r : Record} (h : s.Reflects p j r)
    (hrecord : k.record = j.record)
    (hbegun : s'.engine.worker = .begun p → s.engine.worker = .begun p)
    (hended : s'.engine.worker = .ended p → s.engine.worker = .ended p)
    (hworking : s'.engine.worker = .working p ↔ s.engine.worker = .working p)
    (howed : s.IsOwed p → s'.IsOwed p) : s'.Reflects p k r where
  begun hw := h.begun (hbegun hw)
  ended hw := h.ended (hended hw)
  working hw := by
    rw [hrecord]
    exact h.working (hworking.1 hw)
  same hnot hw := by
    rw [hrecord]
    exact h.same (mt howed hnot) (mt hworking.2 hw)

theorem Reflects.congr {p : Nat} {j k : Job} {r : Record} (h : s.Reflects p j r)
    (hrecord : k.record = j.record) (hworker : s'.engine.worker = s.engine.worker)
    (hclose : ∀ r, .close p r ∈ s.errands → .close p r ∈ s'.errands) : s'.Reflects p k r := by
  refine h.calm hrecord (by rw [hworker]; exact id) (by rw [hworker]; exact id) (by rw [hworker]) ?_
  rw [IsOwed, IsOwed, hworker]
  rintro (hw | hw | ⟨r', hmem⟩)
  · exact .inl hw
  · exact .inr (.inl hw)
  · exact .inr (.inr ⟨r', hclose r' hmem⟩)

theorem Filed.quiet (h : s.Filed) (hsound : s.Sound) (hstore : s'.store = s.store)
    (hstands : s.store.Stands s'.files) (hsame : s.store.SameRecords s.files s'.files)
    (hjobs : ∀ (p : Nat) (k : Job), s'.engine.jobs[p]? = some k → ∃ j, s.engine.jobs[p]? = some j ∧
      k.id = j.id ∧ ∀ r, s.Reflects p j r → s'.Reflects p k r)
    (hids : s'.engine.ids = s.engine.ids)
    (henroll : ∀ r, .enroll r ∈ s'.errands ↔ .enroll r ∈ s.errands) : s'.Filed where
  stands := hstore ▸ hstands
  tidy := hstore ▸ hsame.tidy h.tidy
  jobs p k hk := by
    obtain ⟨j, hj, hid, hreflects⟩ := hjobs p k hk
    obtain ⟨r, hr, hrj⟩ := h.jobs p j hj
    refine ⟨r, ?_, hreflects r hrj⟩
    rw [hstore, hid, hsame.recordOf? (hsound.isId_job hj)]
    exact hr
  newcomers r hmem := by
    rw [henroll] at hmem
    rw [hstore, hsame.recordOf? (hsound.isId_new hmem rfl)]
    exact h.newcomers r hmem
  known id r hid hr := by
    rw [hstore, hsame.recordOf? hid] at hr
    rw [hids]
    simpa only [henroll] using h.known id r hid hr

theorem Filed.saving (h : s.Filed) (hsound : s.Sound) (hstore : s'.store = s.store) {r : Record}
    {outcome : Except Fault Unit} (hsaved : Saved s.store s.files r outcome s'.files)
    (hok : outcome = .ok ()) (hid : IsId r.id)
    (hjobs : ∀ (p : Nat) (k : Job), s'.engine.jobs[p]? = some k → ∃ j, s.engine.jobs[p]? = some j ∧
      k.id = j.id ∧ (j.id ≠ r.id → ∀ r', s.Reflects p j r' → s'.Reflects p k r') ∧
      (j.id = r.id → s'.Reflects p k r))
    (hids : s'.engine.ids = s.engine.ids)
    (henroll : ∀ r', .enroll r' ∈ s'.errands → r' = r ∨ .enroll r' ∈ s.errands ∧ r'.id ≠ r.id)
    (hkept : ∀ r', .enroll r' ∈ s.errands → .enroll r' ∈ s'.errands)
    (hknown : r.id ∈ s.engine.ids ∨ .enroll r ∈ s'.errands) : s'.Filed where
  stands := hstore ▸ hsaved.stands
  tidy := hstore ▸ hsaved.tidy hid.nonempty h.tidy
  jobs p k hk := by
    obtain ⟨j, hj, hkj, hother, hself⟩ := hjobs p k hk
    rw [hstore, hkj]
    by_cases he : j.id = r.id
    · exact ⟨r, he ▸ hsaved.recordOf?_self hok hid.nonempty, hself he⟩
    · obtain ⟨r', hr', hreflects⟩ := h.jobs p j hj
      exact ⟨r', (hsaved.recordOf?_other (hsound.isId_job hj) he).trans hr', hother he r' hreflects⟩
  newcomers r' hmem := by
    rw [hstore]
    rcases henroll r' hmem with rfl | ⟨hold, hne⟩
    · exact hsaved.recordOf?_self hok hid.nonempty
    · rw [hsaved.recordOf?_other (hsound.isId_new hold rfl) hne]
      exact h.newcomers r' hold
  known id x hx hr := by
    rw [hids]
    by_cases he : id = r.id
    · rcases hknown with hmem | hmem
      · exact .inl (he ▸ hmem)
      · exact .inr ⟨r, hmem, he.symm⟩
    · rw [hstore, hsaved.recordOf?_other hx he] at hr
      rcases h.known id x hx hr with hold | ⟨r', hmem, hr'⟩
      · exact .inl hold
      · exact .inr ⟨r', hkept r' hmem, hr'⟩

theorem Reflects.aside {p : Nat} {j : Job} {r : Record} (h : s.Reflects p j r)
    (hbefore : s.engine.worker.held? ≠ some p) (hafter : s'.engine.worker.held? ≠ some p)
    (hclose : ∀ r, .close p r ∈ s.errands → .close p r ∈ s'.errands) : s'.Reflects p j r := by
  obtain ⟨hb, hw, he⟩ := Worker.ne_of_held?_ne hbefore
  obtain ⟨hb', hw', he'⟩ := Worker.ne_of_held?_ne hafter
  refine h.calm rfl (absurd · hb') (absurd · he') (iff_of_false hw' hw) ?_
  rintro (hbegun | hended | ⟨r', hmem⟩)
  · exact absurd hbegun hb
  · exact absurd hended he
  · exact .inr (.inr ⟨r', hclose r' hmem⟩)

theorem Reflects.elsewhere {p q : Nat} {j : Job} {r : Record} (h : s.Reflects q j r) (hq : q ≠ p)
    (hbefore : ∀ x, s.engine.worker.held? = some x → x = p)
    (hafter : ∀ x, s'.engine.worker.held? = some x → x = p) (herrands : s'.errands = s.errands) :
    s'.Reflects q j r :=
  h.aside (fun hheld => hq (hbefore q hheld)) (fun hheld => hq (hafter q hheld))
    fun _ => herrands ▸ id

/-- A job goes with its own record, unless the worker is about to save another one. -/
theorem reflects_self {p : Nat} {j : Job} (hbegun : s.engine.worker ≠ .begun p)
    (hended : s.engine.worker ≠ .ended p) : s.Reflects p j j.record :=
  ⟨fun hw => absurd hw hbegun, fun hw => absurd hw hended, fun _ => rfl, fun _ _ => rfl⟩

theorem Sound.held_ne (h : s.Sound) {p : Nat} (hp : p ∉ s.started) :
    s.engine.worker.held? ≠ some p := fun hheld => hp (h.staged.held p hheld)

theorem ne_of_nodup_filterMap {α β : Type} {f : α → Option β} {l : List α}
    (h : (l.filterMap f).Nodup) {a b : α} (ha : a ∈ l) (hb : b ∈ l) (hne : a ≠ b) {x y : β}
    (hx : f a = some x) (hy : f b = some y) : x ≠ y := by
  have : Std.Symm fun a b : α => ∀ x, f a = some x → ∀ y, f b = some y → x ≠ y :=
    ⟨fun _ _ hab x hx y hy => (hab y hy x hx).symm⟩
  exact (List.pairwise_filterMap.1 h).forall ha hb hne x hx y hy

theorem Sound.newId_ne (h : s.Sound) {a b : Errand} (ha : a ∈ s.errands) (hb : b ∈ s.errands)
    (hne : a ≠ b) {id other : String} (hid : a.newId? = some id) (hother : b.newId? = some other) :
    id ≠ other :=
  ne_of_nodup_filterMap (List.nodup_append.1 h.named.distinct).2.1 ha hb hne hid hother

/-- A job that was canceled but not begun is owed a save only while that has not been done. -/
theorem Sound.not_owed_of_tell (h : s.Sound) {p : Nat} {r : Record} (hmem : .tell p r ∈ s.errands) :
    ¬ s.IsOwed p := by
  obtain ⟨hbegun, -, hended⟩ := Worker.ne_of_held?_ne (h.held_ne (h.attended.serves _ hmem).1)
  exact not_owed hbegun hended fun r' hclose =>
    ne_of_nodup_filterMap h.attended.distinct hmem hclose (by simp) rfl rfl rfl

theorem Sound.not_owed_of_queued (h : s.Sound) {p : Nat} {j : Job}
    (hj : s.engine.jobs[p]? = some j) (hqueued : j.state = .queued) : ¬ s.IsOwed p := by
  obtain ⟨hbegun, -, hended⟩ :=
    Worker.ne_of_held?_ne (h.held_ne (h.staged.waiting p j hj hqueued).1)
  exact not_owed hbegun hended (h.attended.close_notMem hj hqueued)

theorem Sound.not_owed_of_saved (h : s.Sound) {p : Nat} (hworker : s.engine.worker = .saved p) :
    ¬ s.IsOwed p :=
  not_owed (by simp [hworker]) (by simp [hworker]) fun _ hclose =>
    (h.attended.serves _ hclose).1 (h.staged.held p (by rw [hworker]; rfl))

theorem setJob_cases {p q : Nat} {j k x : Job} (hjob : s.engine.jobs[p]? = some j)
    (hx : (s.engine.setJob p k).jobs[q]? = some x) :
    q = p ∧ x = k ∨ q ≠ p ∧ s.engine.jobs[q]? = some x := by
  rw [Engine.getElem?_setJob hjob] at hx
  split_ifs at hx with hq
  · exact .inl ⟨hq, (Option.some.inj hx).symm⟩
  · exact .inr ⟨hq, hx⟩

theorem Filed.enroll (h : s.Filed) (hsound : s.Sound) {r : Record} (hmem : .enroll r ∈ s.errands)
    (hengine : s'.engine = s.engine.enroll r) (hfiles : s'.files = s.files)
    (herrands : s'.errands = s.errands.erase (.enroll r)) : s'.Filed := by
  have hstore : s'.store = s.store := congrArg Store.ofSettings (by rw [hengine]; rfl)
  have hids : s'.engine.ids = s.engine.ids ++ [r.id] := by
    rw [hengine]
    exact Engine.ids_accept _ _
  have hworker : s'.engine.worker = s.engine.worker := by rw [hengine]; rfl
  have hkept : ∀ errand ∈ s.errands, errand ≠ .enroll r → errand ∈ s'.errands :=
    fun errand hold hne => herrands ▸ (List.mem_erase_of_ne hne).2 hold
  refine ⟨hstore ▸ hfiles ▸ h.stands, hstore ▸ hfiles ▸ h.tidy, fun p k hk => ?_, fun r' hr' => ?_,
    fun id x hid hx => ?_⟩
  · rw [hstore, hfiles]
    rw [hengine] at hk
    rcases (s.engine.getElem?_accept _ p k).1 hk with hold | ⟨rfl, rfl⟩
    · obtain ⟨x, hx, hreflects⟩ := h.jobs p k hold
      exact ⟨x, hx, hreflects.congr rfl hworker fun r' hclose => hkept _ hclose (by simp)⟩
    · refine ⟨r, h.newcomers r hmem, ?_⟩
      have hlast : s.engine.jobs.length ∉ s.started := fun hstarted =>
        Nat.lt_irrefl _ (hsound.lined.bounded _ (List.mem_append_left _ hstarted))
      obtain ⟨hbegun, -, hended⟩ := Worker.ne_of_held?_ne (hworker ▸ hsound.held_ne hlast)
      exact reflects_self hbegun hended
  · rw [hstore, hfiles]
    exact h.newcomers r' (List.mem_of_mem_erase (herrands ▸ hr'))
  · rw [hstore, hfiles] at hx
    rw [hids, List.mem_append, List.mem_singleton]
    rcases h.known id x hid hx with hold | ⟨r', hr', hid'⟩
    · exact .inl (.inl hold)
    · by_cases he : r' = r
      · exact .inl (.inr (he ▸ hid'.symm))
      · exact .inr ⟨r', hkept _ hr' (fun hsame => he (Errand.enroll.inj hsame)), hid'⟩

theorem Filed.saving_job (h : s.Filed) (hsound : s.Sound) (hstore : s'.store = s.store) {p : Nat}
    {j : Job} (hj : s.engine.jobs[p]? = some j) (hok : (s.store.save s.files j.record).1 = .ok ())
    (hfiles : s'.files = (s.store.save s.files j.record).2)
    (hjobs : s'.engine.jobs = s.engine.jobs)
    (hothers : ∀ q, q ≠ p → ∀ (k : Job) r, s.engine.jobs[q]? = some k → s.Reflects q k r →
      s'.Reflects q k r)
    (hself : s'.Reflects p j j.record)
    (henroll : ∀ r, .enroll r ∈ s'.errands ↔ .enroll r ∈ s.errands) : s'.Filed := by
  have hid := hsound.isId_job hj
  refine h.saving hsound hstore (hfiles ▸ saved_save h.stands hid) hok hid (fun q k hk => ?_)
    (congrArg (List.map Job.id) hjobs) (fun r hr => ?_) (fun r hr => (henroll r).2 hr)
    (.inl (List.mem_map_of_mem (List.mem_of_getElem? hj)))
  · rw [hjobs] at hk
    refine ⟨k, hk, rfl, fun hne r hr => hothers q ?_ k r hk hr, fun he => ?_⟩
    · rintro rfl
      rw [hj] at hk
      exact hne (congrArg Job.id (Option.some.inj hk).symm)
    · obtain rfl := hsound.position_eq hk hj he
      rw [hj] at hk
      exact Option.some.inj hk ▸ hself
  · rw [henroll] at hr
    exact .inr ⟨hr, Ne.symm (hsound.new_ne hr rfl hj)⟩

theorem Filed.still (h : s.Filed) (hsound : s.Sound) (hstore : s'.store = s.store)
    (hstands : s.store.Stands s'.files) (hsame : s.store.SameRecords s.files s'.files)
    (hjobs : s'.engine.jobs = s.engine.jobs)
    (hreflects : ∀ (p : Nat) (j : Job) r, s.Reflects p j r → s'.Reflects p j r)
    (henroll : ∀ r, .enroll r ∈ s'.errands ↔ .enroll r ∈ s.errands) : s'.Filed :=
  h.quiet hsound hstore hstands hsame (fun p k hk => ⟨k, hjobs ▸ hk, rfl, hreflects p k⟩)
    (congrArg (List.map Job.id) hjobs) henroll

theorem Filed.replace (h : s.Filed) (hsound : s.Sound) (hstore : s'.store = s.store)
    (hfiles : s'.files = s.files) {p : Nat} {j k : Job} (hj : s.engine.jobs[p]? = some j)
    (hjobs : s'.engine.jobs = (s.engine.setJob p k).jobs) (hid : k.id = j.id)
    (hself : ∀ r, s.Reflects p j r → s'.Reflects p k r)
    (hothers : ∀ q, q ≠ p → ∀ (x : Job) r, s.Reflects q x r → s'.Reflects q x r)
    (henroll : ∀ r, .enroll r ∈ s'.errands ↔ .enroll r ∈ s.errands) : s'.Filed := by
  refine h.quiet hsound hstore (hfiles ▸ h.stands) (fun _ _ _ => by rw [hfiles])
    (fun q x hx => ?_) ((congrArg (List.map Job.id) hjobs).trans (Engine.ids_setJob hj hid)) henroll
  rw [hjobs] at hx
  rcases setJob_cases hj hx with ⟨rfl, rfl⟩ | ⟨hq, hold⟩
  · exact ⟨j, hj, hid, hself⟩
  · exact ⟨x, hold, rfl, hothers q hq x⟩

theorem Filed.step (h : s.Filed) (hsound : s.Sound) (hstep : Step s s')
    (hfaults : s'.engine.faults = []) : s'.Filed := by
  have hstore := hstep.store
  have hstands : s.store.Stands s'.files := hstore ▸ hstep.stands hsound h.stands
  cases hstep with
  | touch ht =>
    refine h.quiet hsound hstore hstands (fun _ _ _ => rfl) (fun p k hk => ?_) ht.ids
      fun _ => Iff.rfl
    obtain ⟨j, hj, hjk⟩ := ht.jobs p k hk
    exact ⟨j, hj, congrArg Record.id hjk.record,
      fun r hr => hr.congr hjk.record ht.worker fun _ => id⟩
  | @toil p j k hworker hjob hrecord =>
    have hid : k.id = j.id := by
      rw [Job.id, hrecord]
      rfl
    refine h.replace hsound hstore rfl hjob rfl hid (fun r hr => ?_)
      (fun q _ x r hr => hr.congr rfl rfl fun _ => id) fun _ => Iff.rfl
    refine ⟨hr.begun, hr.ended, fun hw => ?_, fun _ hw => absurd hworker hw⟩
    rw [hrecord]
    exact hr.working hw
  | change _ hsame =>
    refine h.still hsound hstore hstands
      (fun name hname hjson => hsame name hname fun job _ he => ?_) rfl
      (fun p k r hr => hr.congr rfl rfl fun _ => id) fun _ => Iff.rfl
    exact extension?_logName_ne job.id (he ▸ hjson)
  | order hid _ _ _ hlog =>
    exact h.still hsound hstore hstands (sameRecords_createLog h.stands hid hlog) rfl
      (fun p k r hr => hr.congr rfl rfl fun _ => List.mem_append_left _) fun r => by simp
  | @save r files hmem hsave =>
    have hid := hsound.isId_new hmem rfl
    have hsaved := saved_save h.stands hid
    rw [hsave] at hsaved
    refine h.saving hsound hstore hsaved rfl hid (fun p k hk => ?_) rfl (fun r' hr' => ?_)
      (fun r' hr' => mem_erase_concat hr' (by simp))
      (.inr (List.mem_append_right _ (List.mem_singleton_self _)))
    · exact ⟨k, hk, rfl, fun _ x hx => hx.congr rfl rfl fun _ hc => mem_erase_concat hc (by simp),
        fun he => absurd he (hsound.new_ne hmem rfl hk)⟩
    · rcases List.mem_append.1 hr' with hold | hnew
      · have hold := List.mem_of_mem_erase hold
        exact .inr ⟨hold, hsound.newId_ne hold hmem (by simp) rfl rfl⟩
      · exact .inl (Errand.enroll.inj (List.mem_singleton.1 hnew))
  | @refuse r files fault hmem hsave =>
    have hsaved := saved_save h.stands (hsound.isId_new hmem rfl)
    rw [hsave] at hsaved
    exact h.still hsound hstore hstands (hsaved.sameRecords (by simp)) rfl
      (fun p k r hr => hr.congr rfl rfl fun _ hold => (List.mem_erase_of_ne (by simp)).2 hold)
      fun r' => List.mem_erase_of_ne (by simp)
  | enroll hmem => exact h.enroll hsound hmem rfl rfl rfl
  | excuse =>
    exact h.still hsound hstore hstands (fun _ _ _ => rfl) rfl
      (fun p k r hr => hr.congr rfl rfl fun _ => id) fun _ => Iff.rfl
  | @withdraw p j now hjob hqueued =>
    have hidle : s.engine.worker ≠ .working p := fun hworker => by
      rw [(hsound.staged.running p j hjob).2 (.inr hworker)] at hqueued
      contradiction
    refine h.replace hsound hstore rfl hjob rfl rfl (fun r hr => ?_)
      (fun q _ x r hr => hr.congr rfl rfl fun _ => List.mem_append_left _) fun r => by simp
    -- the canceled record is owed now, so the saved one may differ until the job is closed
    refine ⟨hr.begun, hr.ended, fun hw => absurd hw hidle,
      fun hnot => absurd (.inr (.inr ⟨Job.canceledRecord j.record now, ?_⟩)) hnot⟩
    exact List.mem_append_right _ (List.mem_singleton_self _)
  | @close p r hmem =>
    obtain ⟨hnot, j, hj, rfl, -⟩ := hsound.attended.serves _ hmem
    have hworker : (s.engine.persist s.files j.record).1.worker = s.engine.worker :=
      Engine.worker_persist _ _ _
    refine h.saving_job hsound hstore hj (Engine.faults_persist _ _ _ hfaults).2
      (Engine.snd_persist _ _ _) (Engine.jobs_persist _ _ _) (fun q hq k r _ hr => ?_) ?_
      fun r => ?_
    · refine hr.congr rfl hworker fun r' hclose => mem_erase_concat hclose fun he => hq ?_
      exact (Errand.close.inj he).1
    · obtain ⟨hbegun, -, hended⟩ := Worker.ne_of_held?_ne (hsound.held_ne hnot)
      exact reflects_self (fun hw => hbegun (hworker.symm.trans hw))
        fun hw => hended (hworker.symm.trans hw)
    · refine ⟨fun hr => ?_, fun hr => mem_erase_concat hr (by simp)⟩
      rcases List.mem_append.1 hr with hold | hnew
      · exact List.mem_of_mem_erase hold
      · simp at hnew
  | @tell p r hmem =>
    have hclose : ∀ q r', .close q r' ∈ s.errands → .close q r' ∈ s.errands.erase (.tell p r) :=
      fun _ _ hold => (List.mem_erase_of_ne (by simp)).2 hold
    have henroll : ∀ r', .enroll r' ∈ s.errands.erase (.tell p r) ↔ .enroll r' ∈ s.errands :=
      fun _ => List.mem_erase_of_ne (by simp)
    have hworker : (s.engine.notify p).worker = s.engine.worker := s.engine.worker_notify p
    rcases s.engine.notify_cases p with hn | ⟨j, hj, hn⟩
    · exact h.still hsound hstore hstands (fun _ _ _ => rfl) (congrArg Engine.jobs hn)
        (fun q x r' hr' => hr'.congr rfl hworker (hclose q)) henroll
    · exact h.replace hsound hstore rfl hj (congrArg Engine.jobs hn) (id_notifyDone j)
        (fun r' hr' => hr'.congr (Job.sameCore_notifyDone j).record hworker (hclose p))
        (fun q _ x r' hr' => hr'.congr rfl hworker (hclose q)) henroll
  | start hworker | rest hworker | take hworker | skip hworker =>
    refine h.still hsound hstore hstands (fun _ _ _ => rfl) rfl
      (fun p k r hr => hr.aside ?_ ?_ fun _ => id) fun _ => Iff.rfl
    · simp [hworker, Worker.held?]
    · simp [Worker.held?]
  | @begin p j k hworker hjob hqueued now hbegun =>
    have hid : k.id = j.id := by
      rw [hbegun]
      rfl
    refine h.replace hsound hstore rfl hjob rfl hid (fun r hr => ?_) (fun q hq x r hr =>
      hr.elsewhere hq (by simp [hworker, Worker.held?]) (by simp [Worker.held?]) rfl)
      fun _ => Iff.rfl
    -- nothing is owed for a queued job, so what is saved is its record before the start
    refine ⟨fun _ => ?_, by simp, by simp, fun hnot => absurd (.inl rfl) hnot⟩
    rw [hr.same (hsound.not_owed_of_queued hjob hqueued) (by simp [hworker])]
    exact hqueued
  | @launch p j hworker hjob | @archive p j hworker hjob =>
    exact h.saving_job hsound hstore hjob (Engine.faults_persist _ _ _ hfaults).2
      (Engine.snd_persist _ _ _) (Engine.jobs_persist _ _ _)
      (fun q hq k r _ hr =>
        hr.elsewhere hq (by simp [hworker, Worker.held?]) (by simp [Worker.held?]) rfl)
      (reflects_self (by simp) (by simp)) fun _ => Iff.rfl
  | @finish p j hworker hjob code now =>
    refine h.replace hsound hstore rfl hjob rfl (id_finish j code now) (fun r hr => ?_)
      (fun q hq x r hr =>
        hr.elsewhere hq (by simp [hworker, Worker.held?]) (by simp [Worker.held?]) rfl)
      fun _ => Iff.rfl
    refine ⟨by simp, fun _ => ?_, by simp, fun hnot => absurd (.inr (.inl rfl)) hnot⟩
    rw [hr.working hworker]
    exact (hsound.staged.running p j hjob).2 (.inr hworker)
  | @report p j hworker hjob =>
    refine h.replace hsound hstore rfl hjob rfl (id_notifyDone j) (fun r hr => ?_)
      (fun q hq x r hr =>
        hr.elsewhere hq (by simp [hworker, Worker.held?]) (by simp [Worker.held?]) rfl)
      fun _ => Iff.rfl
    refine ⟨by simp, by simp, by simp, fun hnot _ => ?_⟩
    have hsaved : ¬ s.IsOwed p := hsound.not_owed_of_saved hworker
    exact (hr.same hsaved (by simp [hworker])).trans (Job.sameCore_notifyDone j).record.symm

theorem filed_opening {settings : Settings} {now : Instant} {t u : Tree} {records : List Record}
    {e : Engine} (h : Engine.Opened settings now t records e u) (c : Chronicle)
    (hfaults : e.faults = []) : (opening e u c).Filed := by
  have hworker : (opening e u c).engine.worker = .absent := h.isOpening.worker
  have hstore : (opening e u c).store = .ofSettings settings := h.store_eq
  refine ⟨hstore ▸ h.onDisk.stands, hstore ▸ h.onDisk.tidy, fun p j hj => ?_,
    (fun _ hmem => absurd hmem List.not_mem_nil), fun id r hid hr => .inl ?_⟩
  · have hmem : j.record ∈ e.records := List.mem_map_of_mem (List.mem_of_getElem? hj)
    exact ⟨j.record, ((h.recordOf?_eq_some_iff hfaults).2 hmem).2,
      reflects_self (by simp [hworker]) (by simp [hworker])⟩
  · have htidy : (Store.ofSettings settings).Tidy u := h.onDisk.tidy
    rw [← hstore] at htidy
    obtain rfl := htidy.id_eq hid hr
    obtain ⟨j, hj, rfl⟩ := List.mem_map.1 ((h.recordOf?_eq_some_iff hfaults).1 ⟨hid, hr⟩)
    exact List.mem_map_of_mem hj

theorem Filed.run (h : s.Filed) (hsound : s.Sound) {moves : List Move} (hlawful : s.Lawful moves)
    (hfaults : (s.run moves).engine.faults = []) : (s.run moves).Filed :=
  hsound.run_induction_of_faults (fun _ _ hsound hs hstep hnone => hs.step hsound hstep hnone) h
    hlawful hfaults

/-- The saved record of a job with which nothing is going on is its record; while the toolchain
works, the summary may have changed. -/
theorem Filed.recordOf? (h : s.Filed) {p : Nat} {j : Job} (hj : s.engine.jobs[p]? = some j)
    (howed : ¬ s.IsOwed p) : ∃ r, s.store.recordOf? s.files j.id = some r ∧
      r = { j.record with errorSummary := r.errorSummary } ∧
      (s.engine.worker ≠ .working p → r = j.record) := by
  obtain ⟨r, hr, hreflects⟩ := h.jobs p j hj
  refine ⟨r, hr, ?_, hreflects.same howed⟩
  by_cases hw : s.engine.worker = .working p
  · exact hreflects.working hw
  · rw [hreflects.same howed hw]

/-! ## Announcements -/

theorem Step.close_cases (h : Step s s') {p : Nat} {r : Record} (hmem : .close p r ∈ s'.errands) :
    .close p r ∈ s.errands ∨ ∃ j, s.engine.jobs[p]? = some j ∧ j.state = .queued ∧ r.id = j.id := by
  cases h with
  | touch | toil | change | excuse | start | rest | take | skip | begin | launch | finish
  | archive | report => exact .inl hmem
  | order =>
    rcases List.mem_append.1 hmem with hold | hnew
    · exact .inl hold
    · simp at hnew
  | save | close =>
    rcases List.mem_append.1 hmem with hold | hnew
    · exact .inl (List.mem_of_mem_erase hold)
    · simp at hnew
  | refuse | enroll | tell => exact .inl (List.mem_of_mem_erase hmem)
  | withdraw now hjob hqueued =>
    rcases List.mem_append.1 hmem with hold | hnew
    · exact .inl hold
    · obtain ⟨rfl, rfl⟩ := Errand.close.inj (List.mem_singleton.1 hnew)
      exact .inr ⟨_, hjob, hqueued, rfl⟩

theorem Step.isOwed (h : Step s s') (hsound : s.Sound) {p : Nat} {j : Job}
    (hj : s.engine.jobs[p]? = some j) (hend : j.isTerminal = true) (howed : s'.IsOwed p) :
    s.IsOwed p := by
  have hlive : ∀ {k : Job}, s.engine.jobs[p]? = some k →
      k.state ≠ .queued ∧ k.state ≠ .running := by
    intro k hk
    rw [hj] at hk
    obtain rfl := Option.some.inj hk
    exact ⟨Job.ne_queued_of_terminal hend, Job.ne_running_of_terminal hend⟩
  have hworker : s'.engine.worker = .begun p ∨ s'.engine.worker = .ended p →
      s.engine.worker = .begun p ∨ s.engine.worker = .ended p := by
    cases h with
    | touch ht => simp [ht.worker]
    | toil | change | order | save | refuse | enroll | excuse | withdraw => exact id
    | start | rest | take | skip | launch | archive | report | close | tell => simp
    | @begin q k x hw hk hq =>
      rintro (he | he)
      · obtain rfl : q = p := by simpa using he
        exact absurd hq (hlive hk).1
      · simp at he
    | @finish q k hw hk =>
      rintro (he | he)
      · simp at he
      · obtain rfl : q = p := by simpa using he
        exact absurd ((hsound.staged.running q k hk).2 (.inr hw)) (hlive hk).2
  rcases howed with hw | hw | ⟨r, hr⟩
  · exact (hworker (.inl hw)).imp_right .inl
  · exact (hworker (.inr hw)).imp_right .inl
  · rcases h.close_cases hr with hold | ⟨k, hk, hq, -⟩
    · exact .inr (.inr ⟨r, hold⟩)
    · exact absurd hq (hlive hk).1

/-- Whoever is told of an end is told the final record, and that record is saved. -/
def Announced (s : Shift) : Prop :=
  ∀ (p : Nat) (j : Job) (r : Record), s.engine.jobs[p]? = some j → j.Awaits (.done r) →
    r = j.record ∧ j.isTerminal = true ∧ ¬ s.IsOwed p

theorem Announced.step (h : s.Announced) (hsound : s.Sound) (hstep : Step s s') :
    s'.Announced := by
  intro p k r hk hr
  rcases hstep.comes hk with ⟨j, hj, hevolves⟩ | ⟨-, x, -, rfl⟩
  · -- What was announced before is the final record still.
    have hold : j.Awaits (.done r) → r = k.record ∧ k.isTerminal = true ∧ ¬ s'.IsOwed p := by
      intro hdone
      obtain ⟨hrecord, hend, howed⟩ := h p j r hj hdone
      have hsame := hevolves.record_of_terminal hsound.staged hj hend
      exact ⟨hrecord.trans hsame.symm, by rwa [Job.isTerminal, hsame],
        mt (hstep.isOwed hsound hj hend) howed⟩
    cases hevolves with
    | touched ht => exact hold (ht.done r hr)
    | toiled _ _ hdone => exact hold (hdone r hr)
    | withdrawn => exact hold hr
    | begun => exact hold hr
    | finished code now =>
      have hsilent : Job.Operation.isSilent (.finish code now) = true := rfl
      exact hold (by rwa [Job.Awaits, ← (Job.sameListeners_apply j hsilent).mailboxes])
    | told hmem =>
      change (j.apply .notifyDone).Awaits (.done r) at hr
      rcases Job.awaits_apply hr with hdone | ⟨line, -, hline⟩ | ⟨-, hend, hrecord⟩
      · exact hold hdone
      · simp at hline
      · have hcore := Job.sameCore_notifyDone j
        refine ⟨(Event.done.inj hrecord).trans hcore.record.symm, hcore.isTerminal.trans hend,
          mt (hstep.isOwed hsound hj hend) ?_⟩
        rcases hmem with ⟨x, hmem⟩ | hworker
        · exact hsound.not_owed_of_tell hmem
        · exact hsound.not_owed_of_saved hworker
  · obtain ⟨m, hm, -⟩ := hr
    contradiction

theorem announced_opening {settings : Settings} {now : Instant} {t u : Tree} {records : List Record}
    {e : Engine} (h : Engine.Opened settings now t records e u) (c : Chronicle) :
    (opening e u c).Announced := by
  intro p j r hj hr
  obtain ⟨x, -, rfl⟩ := h.exists_record hj
  obtain ⟨m, hm, -⟩ := hr
  contradiction

theorem Announced.run (h : s.Announced) (hsound : s.Sound) {moves : List Move}
    (hlawful : s.Lawful moves) : (s.run moves).Announced :=
  hsound.run_induction (fun _ _ hsound hs hstep => hs.step hsound hstep) h hlawful

end FirmwareJobs.Shift

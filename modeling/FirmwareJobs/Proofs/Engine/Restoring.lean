import FirmwareJobs.Proofs.Engine.Listing
import FirmwareJobs.Proofs.Engine.Opening
import FirmwareJobs.Proofs.Engine.Upkeep

/-!
# A shift that starts with what is saved

Opening a tidy job directory saves the records of jobs that were interrupted and leaves the others
alone, whether it comes to its end or not. The shift that starts then is sound.
-/

namespace FirmwareJobs

open Files Store Time

namespace Engine

/-! ## The first moment -/

theorem IsOpening.sound {e : Engine} (h : e.IsOpening) (files : Tree) (c : Chronicle)
    (hnodup : e.ids.Nodup) (hids : ∀ id ∈ e.ids, IsId id)
    (hrest : ∀ job ∈ e.jobs, job.state ≠ .running ∧ job.cancelRequested = false) :
    (Shift.opening e files c).Sound := by
  have hworker : (Shift.opening e files c).engine.worker = .absent := h.worker
  have hline : (Shift.opening e files c).line = queuedPositions e.jobs := by
    rw [Shift.line_of_not_taken (by rw [hworker]; rfl)]
    exact h.queue
  have hnames : (Shift.opening e files c).names = e.ids := List.append_nil _
  refine ⟨⟨?_, ?_⟩, ⟨h.indexed, hnames ▸ hnodup, hnames ▸ hids⟩, ⟨?_, ?_, ?_⟩, ⟨?_, ?_⟩⟩
  · rw [hline]
    exact pairwise_queuedPositions e.jobs
  · intro p hp
    rw [hline] at hp
    obtain ⟨job, hjob, -⟩ := mem_queuedPositions.1 hp
    exact (List.getElem?_eq_some_iff.1 hjob).1
  · intro p j hj
    rw [hworker]
    exact iff_of_false (hrest j (List.mem_of_getElem? hj)).1 (by simp)
  · intro p j hj hqueued
    rw [hline]
    exact ⟨List.not_mem_nil, fun _ => mem_queuedPositions.2 ⟨j, hj, hqueued⟩,
      (hrest j (List.mem_of_getElem? hj)).2⟩
  · intro p hp
    rw [hworker] at hp
    contradiction
  · exact fun _ hmem => nomatch hmem
  · exact List.nodup_nil

/-! ## Restored records -/

theorem state_recovered_ne_running (now : Instant) (r : Record) :
    (recovered now r).state ≠ .running := by
  unfold recovered
  split_ifs with h
  · exact nofun
  · exact h

/-- What restoring saved records leaves on disk. -/
structure Restored (now : Instant) (e : Engine) (t : Tree) (records : List Record) (f : Engine)
    (u : Tree) : Prop where
  stands : e.store.Stands u
  tidy : e.store.Tidy u
  others : ∀ id, IsId id → (∀ r ∈ records, r.id ≠ id) →
    e.store.recordOf? u id = e.store.recordOf? t id
  kept : ∀ r ∈ records, e.store.recordOf? u r.id = some r ∨
    e.store.recordOf? u r.id = some (recovered now r)
  saved : f.faults = [] → ∀ r ∈ records, e.store.recordOf? u r.id = some (recovered now r)
  calm : (∀ r ∈ records, r.state ≠ .running) → u = t ∧ f.faults = e.faults

/-- A saved record is as it was or has been restored. -/
theorem Restored.recordOf?_cases {now : Instant} {e f : Engine} {t u : Tree} {records : List Record}
    (h : Restored now e t records f u)
    (hrecords : ∀ r ∈ records, e.store.recordOf? t r.id = some r) {id : String} (hid : IsId id)
    {r : Record} (hr : e.store.recordOf? t id = some r) :
    e.store.recordOf? u id = some r ∨ e.store.recordOf? u id = some (recovered now r) := by
  by_cases hold : ∃ x ∈ records, x.id = id
  · obtain ⟨x, hx, rfl⟩ := hold
    obtain rfl := Option.some.inj ((hrecords x hx).symm.trans hr)
    exact h.kept x hx
  · exact .inl ((h.others id hid fun x hx he => hold ⟨x, hx, he⟩).trans hr)

theorem faults_restore {now : Instant} {e : Engine} {t : Tree} {r : Record}
    (h : (restore now e t r).1.faults = []) : e.faults = [] := by
  rw [restore_eq] at h
  split_ifs at h
  · exact (faults_persist _ _ _ h).1
  · exact h

theorem faults_restoreAll {now : Instant} {records : List Record} {e : Engine} {t : Tree}
    (h : (restoreAll now e t records).1.faults = []) : e.faults = [] := by
  induction records generalizing e t with
  | nil => exact h
  | cons r rest ih => exact faults_restore (ih h)

theorem restored_restore (now : Instant) {e : Engine} {t : Tree} {r : Record}
    (hstands : e.store.Stands t) (htidy : e.store.Tidy t) (hid : IsId r.id)
    (hr : e.store.recordOf? t r.id = some r) :
    Restored now e t [r] (restore now e t r).1 (restore now e t r).2 := by
  rw [restore_eq]
  split_ifs with hrunning
  · have hid' : IsId (recovered now r).id := (id_recovered now r).symm ▸ hid
    have hsaved := saved_save hstands hid'
    have hself : (e.store.save t (recovered now r)).1 = .ok () →
        e.store.recordOf? (e.store.save t (recovered now r)).2 r.id = some (recovered now r) :=
      fun hok => id_recovered now r ▸ hsaved.recordOf?_self hok hid'.nonempty
    rw [snd_persist]
    refine ⟨hsaved.stands, hsaved.tidy hid'.nonempty htidy, fun id hother hne => ?_, ?_, ?_, ?_⟩
    · refine hsaved.recordOf?_other hother ?_
      rw [id_recovered]
      exact (hne r (List.mem_singleton_self r)).symm
    · intro r' hr'
      obtain rfl := List.mem_singleton.1 hr'
      by_cases hok : (e.store.save t (recovered now r')).1 = .ok ()
      · exact .inr (hself hok)
      · refine .inl (Eq.trans ?_ hr)
        have hsame := hsaved.recordOf?_failed hok
        rwa [id_recovered] at hsame
    · intro hnone r' hr'
      obtain rfl := List.mem_singleton.1 hr'
      exact hself (faults_persist (e.accept (restored e.settings now r')) t _ hnone).2
    · exact fun hcalm => absurd hrunning (hcalm r (List.mem_singleton_self r))
  · have hsame : recovered now r = r := recovered_of_ne_running hrunning
    refine ⟨hstands, htidy, fun _ _ _ => rfl, ?_, ?_, fun _ => ⟨rfl, rfl⟩⟩
    · intro r' hr'
      obtain rfl := List.mem_singleton.1 hr'
      exact .inl hr
    · intro _ r' hr'
      obtain rfl := List.mem_singleton.1 hr'
      rw [hsame]
      exact hr

theorem Restored.cons {now : Instant} {e f g : Engine} {t u v : Tree} {r : Record}
    {rest : List Record} (hone : Restored now e t [r] f u) (hrest : Restored now f u rest g v)
    (hstore : f.store = e.store) (hfaults : g.faults = [] → f.faults = []) (hid : IsId r.id)
    (hne : ∀ r' ∈ rest, r'.id ≠ r.id) : Restored now e t (r :: rest) g v := by
  obtain ⟨hstands, htidy, hothers, hkept, hsaved, hcalm⟩ := hrest
  rw [hstore] at hstands htidy
  simp only [hstore] at hothers hkept hsaved
  have hfirst := hothers r.id hid hne
  refine ⟨hstands, htidy, fun id hother hnone => ?_, ?_, ?_, ?_⟩
  · rw [hothers id hother fun r' hr' => hnone r' (List.mem_cons_of_mem r hr')]
    refine hone.others id hother fun x hx => ?_
    rw [List.mem_singleton.1 hx]
    exact hnone r List.mem_cons_self
  · intro r' hr'
    rcases List.mem_cons.1 hr' with rfl | hr'
    · rw [hfirst]
      exact hone.kept _ (List.mem_singleton_self _)
    · exact hkept r' hr'
  · intro hnone r' hr'
    rcases List.mem_cons.1 hr' with rfl | hr'
    · rw [hfirst]
      exact hone.saved (hfaults hnone) _ (List.mem_singleton_self _)
    · exact hsaved hnone r' hr'
  · intro hrunning
    obtain ⟨htree, hnone⟩ := hone.calm fun x hx => by
      rw [List.mem_singleton.1 hx]
      exact hrunning r List.mem_cons_self
    obtain ⟨htree', hnone'⟩ := hcalm fun r' hr' => hrunning r' (List.mem_cons_of_mem r hr')
    exact ⟨htree'.trans htree, hnone'.trans hnone⟩

theorem restored_restoreAll (now : Instant) (records : List Record) {e : Engine} {t : Tree}
    (hstands : e.store.Stands t) (htidy : e.store.Tidy t) (hnodup : (records.map Record.id).Nodup)
    (hrecords : ∀ r ∈ records, IsId r.id ∧ e.store.recordOf? t r.id = some r) :
    Restored now e t records (restoreAll now e t records).1 (restoreAll now e t records).2 := by
  induction records generalizing e t with
  | nil =>
    exact ⟨hstands, htidy, fun _ _ _ => rfl, fun _ hr => absurd hr List.not_mem_nil,
      fun _ _ hr => absurd hr List.not_mem_nil, fun _ => ⟨rfl, rfl⟩⟩
  | cons r rest ih =>
    rw [List.map_cons, List.nodup_cons] at hnodup
    obtain ⟨hid, hr⟩ := hrecords r List.mem_cons_self
    have hone := restored_restore now hstands htidy hid hr
    have hstore : (restore now e t r).1.store = e.store :=
      congrArg Store.ofSettings (restore_fst now e t r).1
    have hne : ∀ r' ∈ rest, r'.id ≠ r.id := fun r' hr' he =>
      hnodup.1 (List.mem_map.2 ⟨r', hr', he⟩)
    refine hone.cons (ih (hstore ▸ hone.stands) (hstore ▸ hone.tidy) hnodup.2
      fun r' hr' => ?_) hstore (faults_restoreAll (e := (restore now e t r).1)) hid hne
    obtain ⟨hid', hsome⟩ := hrecords r' (List.mem_cons_of_mem r hr')
    rw [hstore]
    refine ⟨hid', (hone.others _ hid' fun x hx => ?_).trans hsome⟩
    rw [List.mem_singleton.1 hx]
    exact (hne r' hr').symm

/-! ## The queue -/

/-- The records of the jobs in the queue. -/
def queuedRecords (e : Engine) : List Record :=
  e.queue.filterMap fun p => (e.jobs[p]?).map (·.record)

theorem filterMap_queuedPositions (jobs : List Job) :
    (queuedPositions jobs).filterMap (fun p => (jobs[p]?).map (·.record)) =
      (jobs.map (·.record)).filter (·.state = .queued) := by
  induction jobs using List.reverseRecOn with
  | nil => rfl
  | append_singleton jobs job ih =>
    have hold : (queuedPositions jobs).filterMap (fun p => ((jobs ++ [job])[p]?).map (·.record)) =
        (queuedPositions jobs).filterMap fun p => (jobs[p]?).map (·.record) := by
      refine List.filterMap_congr fun p hp => ?_
      obtain ⟨j, hj, -⟩ := mem_queuedPositions.1 hp
      rw [List.getElem?_append_left (List.getElem?_eq_some_iff.1 hj).1]
    rw [queuedPositions_concat, List.map_append, List.filter_append, ← ih, ← hold]
    split_ifs with hq
    · have hq' : job.record.state = .queued := hq
      simp [hq']
    · have hq' : job.record.state ≠ .queued := hq
      simp [hq']

theorem IsOpening.queuedRecords_eq {e : Engine} (h : e.IsOpening) :
    e.queuedRecords = e.records.filter (·.state = .queued) := by
  rw [queuedRecords, h.queue, filterMap_queuedPositions]
  rfl

/-! ## Opening a tidy directory -/

/-- What opening a tidy directory `t` gives: an engine with the saved records, and the directory
`u` with the records of the jobs that were interrupted. -/
structure Opened (settings : Settings) (now : Instant) (t : Tree) (records : List Record)
    (e : Engine) (u : Tree) : Prop where
  distinct : (records.map Record.id).Nodup
  mem_iff : ∀ r, r ∈ records ↔ IsId r.id ∧ (ofSettings settings).recordOf? t r.id = some r
  settings_eq : e.settings = settings
  jobs : e.jobs = (oldestFirst records).map (restored settings now)
  isOpening : e.IsOpening
  onDisk : Restored now (empty settings) t (oldestFirst records) e u

theorem storeOpen_of_stands {settings : Settings} {t : Tree}
    (hstands : (ofSettings settings).Stands t) :
    Store.open t settings = .ok (ofSettings settings, t) := by
  have hdir : t.isDirectoryAt settings.home settings.jobDir = true := hstands.isDirectoryAt
  simp [Store.open, ofSettings, Tree.makeDirectories_of_isDirectoryAt hdir, bind, Except.bind]

theorem open_of_tidy {settings : Settings} {t : Tree} (now : Instant)
    (hstands : (ofSettings settings).Stands t) (htidy : (ofSettings settings).Tidy t) :
    ∃ records e u, Engine.open settings t now = .ok (e, u) ∧ Opened settings now t records e u := by
  obtain ⟨records, hload, hdistinct, hmem⟩ := loadAll_of_tidy hstands htidy
  have hstore := storeOpen_of_stands hstands
  have hsorted := perm_oldestFirst records
  obtain ⟨hsettings, hjobs, hopening⟩ := restoreAll_fst now (oldestFirst records) (empty settings) t
  have hrestored := restored_restoreAll now (oldestFirst records) (e := empty settings)
    hstands htidy ((hsorted.map Record.id).nodup_iff.2 hdistinct)
    fun r hr => (hmem r).1 (hsorted.mem_iff.1 hr)
  refine ⟨records, (restoreAll now (empty settings) t (oldestFirst records)).1,
    (restoreAll now (empty settings) t (oldestFirst records)).2, ?_, hdistinct, hmem, hsettings,
    hjobs, hopening (isOpening_empty settings), hrestored⟩
  simp only [Engine.open, hstore, hload]

namespace Opened

variable {settings : Settings} {now : Instant} {t u : Tree} {records : List Record} {e : Engine}

theorem ids_eq (h : Opened settings now t records e u) :
    e.ids = (oldestFirst records).map Record.id := by
  rw [ids, h.jobs, List.map_map]
  exact List.map_congr_left fun r _ => id_recovered now r

theorem records_eq (h : Opened settings now t records e u) :
    e.records = (oldestFirst records).map (recovered now) := by
  rw [Engine.records, h.jobs, List.map_map]
  rfl

theorem nodup_ids (h : Opened settings now t records e u) : e.ids.Nodup := by
  rw [h.ids_eq]
  exact ((perm_oldestFirst records).map Record.id).nodup_iff.2 h.distinct

theorem mem_oldestFirst (h : Opened settings now t records e u) {r : Record} :
    r ∈ oldestFirst records ↔ IsId r.id ∧ (ofSettings settings).recordOf? t r.id = some r :=
  (perm_oldestFirst records).mem_iff.trans (h.mem_iff r)

theorem exists_record (h : Opened settings now t records e u) {p : Nat} {j : Job}
    (hj : e.jobs[p]? = some j) :
    ∃ r ∈ oldestFirst records, j = restored settings now r := by
  rw [h.jobs, List.getElem?_map] at hj
  obtain ⟨r, hr, rfl⟩ := Option.map_eq_some_iff.1 hj
  exact ⟨r, List.mem_of_getElem? hr, rfl⟩

theorem sound (h : Opened settings now t records e u) (c : Chronicle) :
    (Shift.opening e u c).Sound := by
  refine h.isOpening.sound u c h.nodup_ids (fun id hid => ?_) fun job hjob => ?_
  · rw [h.ids_eq] at hid
    obtain ⟨r, hr, rfl⟩ := List.mem_map.1 hid
    exact (h.mem_oldestFirst.1 hr).1
  · obtain ⟨p, hp⟩ := List.getElem?_of_mem hjob
    obtain ⟨r, -, rfl⟩ := h.exists_record hp
    exact ⟨state_recovered_ne_running now r, rfl⟩

theorem store_eq (h : Opened settings now t records e u) : e.store = ofSettings settings :=
  congrArg ofSettings h.settings_eq

theorem recordOf?_eq_some_iff (h : Opened settings now t records e u) (hfaults : e.faults = [])
    {r : Record} : (IsId r.id ∧ e.store.recordOf? u r.id = some r) ↔ r ∈ e.records := by
  rw [h.store_eq, h.records_eq, List.mem_map]
  have hdisk := h.onDisk
  constructor
  · rintro ⟨hid, hr⟩
    by_cases hold : ∃ x ∈ oldestFirst records, x.id = r.id
    · obtain ⟨x, hx, hxr⟩ := hold
      have hsaved := hdisk.saved hfaults x hx
      rw [hxr] at hsaved
      exact ⟨x, hx, Option.some.inj (hsaved.symm.trans hr)⟩
    · have hother := hdisk.others r.id hid fun x hx he => hold ⟨x, hx, he⟩
      refine absurd ⟨r, h.mem_oldestFirst.2 ⟨hid, ?_⟩, rfl⟩ hold
      exact hother.symm.trans hr
  · rintro ⟨x, hx, rfl⟩
    rw [id_recovered]
    exact ⟨(h.mem_oldestFirst.1 hx).1, hdisk.saved hfaults x hx⟩

theorem job?_eq (h : Opened settings now t records e u) {r : Record}
    (hr : r ∈ oldestFirst records) : e.job? r.id = some (Engine.restored settings now r) := by
  obtain ⟨p, hp⟩ := List.getElem?_of_mem hr
  have hjob : e.jobs[p]? = some (Engine.restored settings now r) := by
    rw [h.jobs, List.getElem?_map, hp]
    rfl
  have hposition := h.isOpening.indexed.position?_of_nodup h.nodup_ids hjob
  rw [show (Engine.restored settings now r).id = r.id from id_recovered now r] at hposition
  rw [job?, hposition]
  exact hjob

/-- The queue has every saved record that is queued, oldest first. -/
theorem queuedRecords_eq (h : Opened settings now t records e u) :
    e.queuedRecords = (oldestFirst records).filter (·.state = .queued) := by
  have hstate : ∀ r, decide ((recovered now r).state = .queued) = decide (r.state = .queued) :=
    fun r => decide_eq_decide.2 state_recovered_eq_queued
  rw [h.isOpening.queuedRecords_eq, h.records_eq, List.filter_map]
  change ((oldestFirst records).filter fun r =>
    decide ((recovered now r).state = .queued)).map _ = _
  simp only [hstate]
  refine (List.map_congr_left fun r hr => ?_).trans (List.map_id _)
  have hqueued : r.state = .queued := of_decide_eq_true (List.mem_filter.1 hr).2
  exact recovered_of_ne_running (by simp [hqueued])

theorem mem_queuedRecords (h : Opened settings now t records e u) {r : Record} :
    r ∈ e.queuedRecords ↔
      r.state = .queued ∧ IsId r.id ∧ (ofSettings settings).recordOf? t r.id = some r := by
  rw [h.queuedRecords_eq, List.mem_filter, decide_eq_true_iff, h.mem_oldestFirst, and_comm]

theorem findsQueue (h : Opened settings now t records e u) : e.FindsQueue := by
  rw [h.isOpening.findsQueue_iff]
  exact (List.pairwise_map.1 h.nodup_ids).imp fun hne _ => hne.symm

end Opened

end Engine

end FirmwareJobs

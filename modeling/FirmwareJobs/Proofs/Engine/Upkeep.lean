import FirmwareJobs.Proofs.Engine.Order

/-!
# The job directory during a shift

A step leaves the files alone, or lets somebody else change files outside the job directory, or
creates the log of a new job, or saves one record. So the directory stays there, and the log of a
job changes only while the toolchain works on the job.
-/

namespace FirmwareJobs.Shift

open Files Store

variable {s s' : Shift}

theorem Step.settings (h : Step s s') : s'.engine.settings = s.engine.settings := by
  cases h with
  | touch ht => exact ht.settings
  | close | tell | launch | archive => simp
  | toil | change | order | save | refuse | enroll | excuse | withdraw | start | rest | take | skip
  | begin | finish | report => rfl

theorem Step.store (h : Step s s') : s'.store = s.store := congrArg Store.ofSettings h.settings

theorem store_run {moves : List Move} (hlawful : s.Lawful moves) : (s.run moves).store = s.store :=
  run_induction (P := fun t => t.store = s.store) (fun _ _ ht hstep => hstep.store.trans ht) rfl
    hlawful

theorem Step.faults (h : Step s s') (hnone : s'.engine.faults = []) : s.engine.faults = [] := by
  cases h with
  | touch ht => exact ht.faults ▸ hnone
  | tell => simpa using hnone
  | close => exact (Engine.faults_persist _ _ _ hnone).1
  | launch => exact (Engine.faults_persist _ _ _ hnone).1
  | archive => exact (Engine.faults_persist _ _ _ hnone).1
  | toil | change | order | save | refuse | enroll | excuse | withdraw | start | rest | take | skip
  | begin | finish | report => exact hnone

theorem faults_run {moves : List Move} (hlawful : s.Lawful moves)
    (hnone : (s.run moves).engine.faults = []) : s.engine.faults = [] :=
  run_induction (P := fun t => t.engine.faults = [] → s.engine.faults = [])
    (fun _ _ ht hstep hfaults => ht (hstep.faults hfaults)) id hlawful hnone

/-- What every step of a sound shift without a new fault preserves holds after a lawful run without
faults. -/
theorem Sound.run_induction_of_faults {P : Shift → Prop} (h : s.Sound)
    (hstep : ∀ s s', s.Sound → P s → Step s s' → s'.engine.faults = [] → P s') (hs : P s)
    {moves : List Move} (hlawful : s.Lawful moves) (hnone : (s.run moves).engine.faults = []) :
    P (s.run moves) :=
  h.run_induction (P := fun s => s.engine.faults = [] → P s)
    (fun s s' hsound hs hnext hfaults =>
      hstep s s' hsound (hs (hnext.faults hfaults)) hnext hfaults)
    (fun _ => hs) hlawful hnone

/-! ## Ids -/

theorem Sound.isId_job (h : s.Sound) {p : Nat} {j : Job} (hj : s.engine.jobs[p]? = some j) :
    IsId j.id :=
  h.named.isId _ (List.mem_append_left _ (List.mem_map_of_mem (List.mem_of_getElem? hj)))

theorem Sound.isId_new (h : s.Sound) {errand : Errand} {id : String} (hmem : errand ∈ s.errands)
    (hnew : errand.newId? = some id) : IsId id :=
  h.named.isId _ (List.mem_append_right _ (List.mem_filterMap.2 ⟨errand, hmem, hnew⟩))

theorem Sound.isId_close (h : s.Sound) {p : Nat} {r : Record} (hmem : .close p r ∈ s.errands) :
    IsId r.id := by
  obtain ⟨-, j, hj, rfl, -⟩ := h.attended.serves _ hmem
  exact h.isId_job hj

theorem Step.entry_cases (h : Step s s') :
    s'.engine.table = s.engine.table ∧ s'.engine.ids = s.engine.ids ∧
        s'.chronicle.accepted = s.chronicle.accepted ∨
      ∃ r, .enroll r ∈ s.errands ∧ s'.engine = s.engine.enroll r ∧
        s'.chronicle.accepted = s.chronicle.accepted ++ [r.id] := by
  cases h with
  | touch ht => exact .inl ⟨ht.table, ht.ids, rfl⟩
  | toil _ hjob hrecord =>
    exact .inl ⟨rfl, Engine.ids_setJob hjob (by rw [Job.id, hrecord]; rfl), rfl⟩
  | change | order | save | refuse | excuse | start | rest | take | skip =>
    exact .inl ⟨rfl, rfl, rfl⟩
  | enroll hmem => exact .inr ⟨_, hmem, rfl, rfl⟩
  | withdraw _ hjob => exact .inl ⟨rfl, Engine.ids_setJob hjob rfl, rfl⟩
  | close | launch | archive => exact .inl ⟨by simp, by simp [Engine.ids], rfl⟩
  | tell => exact .inl ⟨by simp, by simp, rfl⟩
  | begin _ hjob _ _ hk => exact .inl ⟨rfl, Engine.ids_setJob hjob (by rw [hk]; rfl), rfl⟩
  | finish _ hjob code now =>
    exact .inl ⟨rfl, Engine.ids_setJob hjob (id_finish _ code now), rfl⟩
  | report _ hjob => exact .inl ⟨rfl, Engine.ids_setJob hjob (id_notifyDone _), rfl⟩

theorem Step.ids_cases (h : Step s s') :
    s'.engine.ids = s.engine.ids ∧ s'.chronicle.accepted = s.chronicle.accepted ∨
      ∃ r, .enroll r ∈ s.errands ∧ s'.engine.ids = s.engine.ids ++ [r.id] ∧
        s'.chronicle.accepted = s.chronicle.accepted ++ [r.id] := by
  rcases h.entry_cases with ⟨-, hids, haccepted⟩ | ⟨r, hmem, hengine, haccepted⟩
  · exact .inl ⟨hids, haccepted⟩
  · exact .inr ⟨r, hmem, by rw [hengine]; exact Engine.ids_accept _ _, haccepted⟩

theorem Step.indexed (h : Step s s') (hindexed : s.engine.Indexed) : s'.engine.Indexed := by
  rcases h.entry_cases with ⟨htable, hids, -⟩ | ⟨r, -, hengine, -⟩
  · exact hindexed.congr htable hids
  · rw [hengine]
    exact hindexed.accept _

/-! ## Files -/

/-- The record is to be saved by the step to `s'`. -/
def Keeps (s s' : Shift) (r : Record) : Prop :=
  .save r ∈ s.errands ∨
  (∃ p, .close p r ∈ s.errands ∧ s'.errands = s.errands.erase (.close p r) ++ [.tell p r]) ∨
    ∃ p j, (s.engine.worker = .begun p ∨ s.engine.worker = .ended p) ∧
      s.engine.jobs[p]? = some j ∧ r = j.record

theorem Sound.isId_of_keeps (h : s.Sound) {r : Record} (hr : s.Keeps s' r) : IsId r.id := by
  rcases hr with hmem | ⟨p, hmem, -⟩ | ⟨p, j, -, hj, rfl⟩
  · exact h.isId_new hmem rfl
  · exact h.isId_close hmem
  · exact h.isId_job hj

/-- What a step can do to the files. -/
theorem Step.files_cases (h : Step s s') : s'.files = s.files ∨
    (s.store.Stands s'.files ∧ ∀ name, IsName name →
      (∀ job, s.toiling? = some job → name ≠ logName job.id) →
      s.store.content? s'.files name = s.store.content? s.files name) ∨
    (∃ id, IsId id ∧ s.IsFresh id ∧ s.store.createLog s.files id = .ok s'.files) ∨
    ∃ r, s.Keeps s' r ∧ s'.files = (s.store.save s.files r).2 := by
  cases h with
  | touch | toil | enroll | excuse | withdraw | tell | start | rest | take | skip | begin | finish
  | report => exact .inl rfl
  | change hstands hsame => exact .inr (.inl ⟨hstands, hsame⟩)
  | order hid hfresh _ _ hlog => exact .inr (.inr (.inl ⟨_, hid, hfresh, hlog⟩))
  | save hmem hsave => exact .inr (.inr (.inr ⟨_, .inl hmem, by rw [hsave]⟩))
  | refuse hmem hsave => exact .inr (.inr (.inr ⟨_, .inl hmem, by rw [hsave]⟩))
  | close hmem =>
    exact .inr (.inr (.inr ⟨_, .inr (.inl ⟨_, hmem, rfl⟩), Engine.snd_persist _ _ _⟩))
  | launch hworker hjob =>
    exact .inr (.inr (.inr ⟨_, .inr (.inr ⟨_, _, .inl hworker, hjob, rfl⟩),
      Engine.snd_persist _ _ _⟩))
  | archive hworker hjob =>
    exact .inr (.inr (.inr ⟨_, .inr (.inr ⟨_, _, .inr hworker, hjob, rfl⟩),
      Engine.snd_persist _ _ _⟩))

theorem Step.stands (h : Step s s') (hsound : s.Sound) (hstands : s.store.Stands s.files) :
    s'.store.Stands s'.files := by
  rw [h.store]
  rcases h.files_cases with hsame | ⟨hother, -⟩ | ⟨id, hid, -, hlog⟩ | ⟨r, hr, hsave⟩
  · rwa [hsame]
  · exact hother
  · exact (createLog_eq_ok hstands hid hlog).1
  · rw [hsave]
    exact (saved_save hstands (hsound.isId_of_keeps hr)).stands

/-- A saved record stays as it is unless the step saves the record of its job. -/
theorem Step.recordOf?_cases (h : Step s s') (hsound : s.Sound) (hstands : s.store.Stands s.files)
    {id : String} (hid : IsId id) :
    s'.store.recordOf? s'.files id = s.store.recordOf? s.files id ∨
      ∃ r, r.id = id ∧ s.Keeps s' r ∧ s'.store.recordOf? s'.files id = some r := by
  rw [h.store]
  rcases h.files_cases with hsame | ⟨-, hother⟩ | ⟨new, hnew, -, hlog⟩ | ⟨r, hr, hsave⟩
  · exact .inl (by rw [hsame])
  · have hsame : s.store.SameRecords s.files s'.files := fun name hname hjson =>
      hother name hname fun job _ he => extension?_logName_ne job.id (he ▸ hjson)
    exact .inl (hsame.recordOf? hid)
  · exact .inl ((sameRecords_createLog hstands hnew hlog).recordOf? hid)
  · have hrid := hsound.isId_of_keeps hr
    have hsaved := saved_save hstands hrid
    rw [← hsave] at hsaved
    by_cases hok : (s.store.save s.files r).1 = .ok ()
    · by_cases he : id = r.id
      · exact .inr ⟨r, he.symm, hr, he ▸ hsaved.recordOf?_self hok hrid.nonempty⟩
      · exact .inl (hsaved.recordOf?_other hid he)
    · exact .inl ((hsaved.sameRecords hok).recordOf? hid)

theorem Step.content?_log (h : Step s s') (hsound : s.Sound) (hstands : s.store.Stands s.files)
    {id : String} (hid : id ∈ s.names) (hidle : ∀ job, s.toiling? = some job → job.id ≠ id) :
    s'.store.content? s'.files (logName id) = s.store.content? s.files (logName id) := by
  have hname := hsound.named.isId id hid
  rw [h.store]
  rcases h.files_cases with hsame | ⟨-, hother⟩ | ⟨new, hnew, hfresh, hlog⟩ | ⟨r, hr, hsave⟩
  · rw [hsame]
  · refine hother _ (isName_logName hname) fun job hjob he => hidle job hjob ?_
    exact (logName_inj.1 he).symm
  · refine (createLog_eq_ok hstands hnew hlog).2.2 _ (isName_logName hname) fun he => ?_
    exact hfresh.not_mem_names (logName_inj.1 he ▸ hid)
  · rw [hsave]
    exact (saved_save hstands (hsound.isId_of_keeps hr)).content?_log hname

end FirmwareJobs.Shift

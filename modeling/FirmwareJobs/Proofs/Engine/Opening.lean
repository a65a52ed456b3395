import FirmwareJobs.Proofs.Engine.RecordFile
import FirmwareJobs.Proofs.Engine.Table
import FirmwareJobs.Proofs.Job.Operation

/-!
# Opening a job directory

Every record that is read becomes a job, in the order of creation. The table leads from an id to
the last job that came under it, but the queue gets the position of each queued job. So a queued
record whose id comes again is a job that runs though nobody can ask for it.
-/

namespace FirmwareJobs

open Files Time

namespace Engine

/-! ## The queue of an opened engine -/

/-- The positions of the queued jobs. -/
def queuedPositions (jobs : List Job) : List Nat :=
  jobs.zipIdx.filterMap fun (job, p) => if job.state = .queued then some p else none

theorem queuedPositions_concat (jobs : List Job) (job : Job) :
    queuedPositions (jobs ++ [job]) =
      if job.state = .queued then queuedPositions jobs ++ [jobs.length]
      else queuedPositions jobs := by
  rw [queuedPositions, List.zipIdx_append, List.filterMap_append, ← queuedPositions]
  split_ifs with h <;> simp [h]

theorem mem_queuedPositions {jobs : List Job} {p : Nat} :
    p ∈ queuedPositions jobs ↔ ∃ job, jobs[p]? = some job ∧ job.state = .queued := by
  simp only [queuedPositions, List.mem_filterMap, Option.ite_none_right_eq_some, Option.some.injEq]
  constructor
  · rintro ⟨⟨job, q⟩, hmem, hq, rfl⟩
    exact ⟨job, List.mem_zipIdx_iff_getElem?.1 hmem, hq⟩
  · rintro ⟨job, hjob, hq⟩
    exact ⟨(job, p), List.mem_zipIdx_iff_getElem?.2 hjob, hq, rfl⟩

theorem pairwise_queuedPositions (jobs : List Job) :
    (queuedPositions jobs).Pairwise (· < ·) := by
  induction jobs using List.reverseRecOn with
  | nil => exact .nil
  | append_singleton jobs job ih =>
    rw [queuedPositions_concat]
    split_ifs
    · refine List.pairwise_append.2 ⟨ih, List.pairwise_singleton _ _, fun p hp q hq => ?_⟩
      obtain ⟨job, hjob, -⟩ := mem_queuedPositions.1 hp
      rw [List.mem_singleton.1 hq]
      exact (List.getElem?_eq_some_iff.1 hjob).1
    · exact ih

theorem nodup_queuedPositions (jobs : List Job) : (queuedPositions jobs).Nodup :=
  (pairwise_queuedPositions jobs).imp Nat.ne_of_lt

/-- An engine as it is opened: the queue has every queued job and the worker has not started. -/
structure IsOpening (e : Engine) : Prop where
  indexed : e.Indexed
  queue : e.queue = queuedPositions e.jobs
  worker : e.worker = .absent
  isStopping : e.isStopping = false

theorem isOpening_empty (settings : Settings) : (empty settings).IsOpening :=
  ⟨indexed_empty settings, rfl, rfl, rfl⟩

theorem IsOpening.accept {e : Engine} (h : e.IsOpening) (job : Job) : (e.accept job).IsOpening where
  indexed := h.indexed.accept job
  queue := by
    rw [jobs_accept, queuedPositions_concat, ← h.queue]
    simp only [Engine.accept, h.worker, ne_eq, reduceCtorEq, not_false_eq_true, and_true]
  worker := h.worker
  isStopping := h.isStopping

theorem IsOpening.persist {e : Engine} (h : e.IsOpening) (files : Tree) (r : Record) :
    (e.persist files r).1.IsOpening :=
  ⟨h.indexed.persist files r, by simpa using h.queue, by simpa using h.worker,
    by simpa using h.isStopping⟩

/-! ## Restored jobs -/

/-- The record under which a saved job goes on: one that was running has failed. -/
def recovered (now : Instant) (r : Record) : Record :=
  if r.state = .running then
    { r with
      state := .failed, endedAt := some now, exitCode := some 1
      errorSummary := interruptedSummary }
  else r

theorem id_recovered (now : Instant) (r : Record) : (recovered now r).id = r.id := by
  unfold recovered
  split_ifs <;> rfl

theorem recovered_of_ne_running {now : Instant} {r : Record} (h : r.state ≠ .running) :
    recovered now r = r := if_neg h

theorem state_recovered_eq_queued {now : Instant} {r : Record} :
    (recovered now r).state = .queued ↔ r.state = .queued := by
  unfold recovered
  split_ifs with h
  · simp [h]
  · rfl

def restored (settings : Settings) (now : Instant) (r : Record) : Job :=
  .ofRecord (recovered now r) settings.capacity

theorem restore_eq (now : Instant) (e : Engine) (files : Tree) (r : Record) :
    restore now e files r =
      if r.state = .running then
        (e.accept (restored e.settings now r)).persist files (recovered now r)
      else (e.accept (restored e.settings now r), files) := by
  unfold restore restored recovered Job.interrupt?
  by_cases h : r.state = .running
  · have hstate : (Job.ofRecord r e.settings.capacity).state = .running := h
    simp only [if_pos h, if_pos hstate]
    rfl
  · have hstate : (Job.ofRecord r e.settings.capacity).state ≠ .running := h
    simp only [if_neg h, if_neg hstate]

theorem restore_fst (now : Instant) (e : Engine) (files : Tree) (r : Record) :
    (restore now e files r).1.settings = e.settings ∧
      (restore now e files r).1.jobs = e.jobs ++ [restored e.settings now r] ∧
      (e.IsOpening → (restore now e files r).1.IsOpening) := by
  rw [restore_eq]
  split_ifs
  · exact ⟨settings_persist _ _ _, jobs_persist _ _ _, fun h => (h.accept _).persist _ _⟩
  · exact ⟨rfl, rfl, fun h => h.accept _⟩

theorem restoreAll_fst (now : Instant) (records : List Record) :
    ∀ (e : Engine) (files : Tree),
      (restoreAll now e files records).1.settings = e.settings ∧
      (restoreAll now e files records).1.jobs = e.jobs ++ records.map (restored e.settings now) ∧
      (e.IsOpening → (restoreAll now e files records).1.IsOpening) := by
  induction records with
  | nil => exact fun e files => ⟨rfl, (List.append_nil _).symm, id⟩
  | cons r records ih =>
    intro e files
    obtain ⟨hsettings, hjobs, hopening⟩ := restore_fst now e files r
    obtain ⟨hsettings', hjobs', hopening'⟩ :=
      ih (restore now e files r).1 (restore now e files r).2
    refine ⟨hsettings'.trans hsettings, ?_, fun h => hopening' (hopening h)⟩
    rw [restoreAll, hjobs', hjobs, hsettings, List.map_cons, List.append_assoc]
    rfl

theorem open_eq {settings : Settings} {files files' : Tree} {store : Store} {records : List Record}
    (now : Instant) (hstore : Store.open files settings = .ok (store, files'))
    (hload : store.loadAll files' = .ok records) :
    ∃ e last, Engine.open settings files now = .ok (e, last) ∧ e.settings = settings ∧
      e.jobs = (oldestFirst records).map (restored settings now) ∧ e.IsOpening := by
  obtain ⟨hsettings, hjobs, hopening⟩ :=
    restoreAll_fst now (oldestFirst records) (empty settings) files'
  refine ⟨(restoreAll now (empty settings) files' (oldestFirst records)).1,
    (restoreAll now (empty settings) files' (oldestFirst records)).2, ?_, hsettings, hjobs,
    hopening (isOpening_empty settings)⟩
  simp only [Engine.open, hstore, hload]

/-! ## Which jobs can be asked for -/

theorem Indexed.exists_job?_iff {e : Engine} (h : e.Indexed) (id : String) :
    (∃ job, e.job? id = some job ∧ job.id = id) ↔ ∃ job ∈ e.jobs, job.id = id := by
  constructor
  · rintro ⟨job, hjob, hid⟩
    obtain ⟨p, -, hp⟩ := Option.bind_eq_some_iff.1 hjob
    exact ⟨job, List.mem_of_getElem? hp, hid⟩
  · rintro ⟨job, hmem, hid⟩
    let P := fun p : Nat => ∃ job : Job, e.jobs[p]? = some job ∧ job.id = id
    have hlt : ∀ p, P p → p ≤ e.jobs.length := fun p ⟨_, hp, _⟩ =>
      Nat.le_of_lt (List.getElem?_eq_some_iff.1 hp).1
    obtain ⟨p, hp⟩ := List.getElem?_of_mem hmem
    classical
    have hlast : P (Nat.findGreatest P e.jobs.length) :=
      Nat.findGreatest_spec (hlt p ⟨job, hp, hid⟩) ⟨job, hp, hid⟩
    have hposition := (h.leads id (Nat.findGreatest P e.jobs.length)).2
      ⟨hlast, fun q k hq hk => Nat.le_findGreatest (hlt q ⟨k, hq, hk⟩) ⟨k, hq, hk⟩⟩
    obtain ⟨last, hjobs, hlastid⟩ := hlast
    exact ⟨last, Option.bind_eq_some_iff.2 ⟨_, hposition, hjobs⟩, hlastid⟩

/-- Every job in the queue is the one that the table has under its id, and is queued once. -/
def FindsQueue (e : Engine) : Prop :=
  e.queue.Nodup ∧ ∀ p ∈ e.queue, ∃ job, e.jobs[p]? = some job ∧ e.position? job.id = some p

/-- An opened engine finds its queue if and only if no queued job is followed by one with its id. -/
theorem IsOpening.findsQueue_iff {e : Engine} (h : e.IsOpening) :
    e.FindsQueue ↔ e.jobs.Pairwise fun job later => job.state = .queued → later.id ≠ job.id := by
  rw [FindsQueue, h.queue, and_iff_right (nodup_queuedPositions e.jobs), List.pairwise_iff_getElem]
  constructor
  · intro hfinds p q hp hq hlt hqueued hid
    obtain ⟨job, hjob, hposition⟩ :=
      hfinds p (mem_queuedPositions.2 ⟨_, List.getElem?_eq_getElem hp, hqueued⟩)
    obtain rfl : e.jobs[p] = job := by
      rw [List.getElem?_eq_getElem hp] at hjob
      exact Option.some.inj hjob
    have hle := ((h.indexed.leads _ _).1 hposition).2 q _ (List.getElem?_eq_getElem hq) hid
    omega
  · intro hpairs p hp
    obtain ⟨job, hjob, hqueued⟩ := mem_queuedPositions.1 hp
    refine ⟨job, hjob, (h.indexed.leads _ _).2 ⟨⟨job, hjob, rfl⟩, fun q later hlater hid => ?_⟩⟩
    by_contra hlt
    obtain ⟨hp', rfl⟩ := List.getElem?_eq_some_iff.1 hjob
    obtain ⟨hq', rfl⟩ := List.getElem?_eq_some_iff.1 hlater
    exact hpairs p q hp' hq' (by omega) hqueued hid

theorem pairwise_restored {settings : Settings} {now : Instant} {records : List Record} :
    (records.map (restored settings now)).Pairwise
        (fun job later => job.state = .queued → later.id ≠ job.id) ↔
      records.Pairwise fun r later => r.state = .queued → later.id ≠ r.id := by
  rw [List.pairwise_map]
  refine List.Pairwise.iff fun r later => ?_
  change ((recovered now r).state = .queued → (recovered now later).id ≠ (recovered now r).id) ↔ _
  rw [state_recovered_eq_queued, id_recovered, id_recovered]

end Engine

/-! ## A directory that is there -/

theorem Files.Tree.makeDirectories_of_isDirectoryAt {files : Tree} {here : Place} {path : String}
    (h : files.isDirectoryAt here path = true) : files.makeDirectories here path = .ok files := by
  have hpath : path ≠ "" := by
    rintro rfl
    exact nomatch h
  have htaken : files.makeDirectory here path = .error .taken := by
    unfold isDirectoryAt at h
    unfold makeDirectory
    cases hlocate : files.locate here path with
    | error fault => simp [hlocate] at h
    | ok place =>
      have hentry : files.entry? place = some .directory := by simpa [hlocate, isDirectory] using h
      simp [bind, Except.bind, hentry]
  rw [makeDirectories, makeDirectoriesFrom, if_neg hpath, htaken]
  simp [h]

/-- Whether or not its directory had to be created, it is the store of the settings. -/
theorem Store.eq_ofSettings_of_open {settings : Settings} {files dir : Tree} {store : Store}
    (h : Store.open files settings = .ok (store, dir)) : store = ofSettings settings := by
  change (files.makeDirectories _ _ >>= fun made =>
    Except.ok (ofSettings settings, made)) = _ at h
  cases hmake : files.makeDirectories (ofSettings settings).home
      (ofSettings settings).directory with
  | error fault =>
    rw [hmake] at h
    contradiction
  | ok made =>
    rw [hmake] at h
    exact (congrArg Prod.fst (Except.ok.inj h)).symm

theorem Store.loadAll_of_isDirectoryAt {s : Store} {files : Tree}
    (h : files.isDirectoryAt s.home s.directory = true) :
    ∃ records, s.loadAll files = .ok records := by
  unfold Tree.isDirectoryAt at h
  cases hlocate : files.locate s.home s.directory with
  | error fault => simp [hlocate] at h
  | ok place =>
    have hentry : files.entry? place = some .directory := by
      simpa [hlocate, Tree.isDirectory] using h
    simp [Store.loadAll, Tree.list, hlocate, Tree.demand, hentry, bind, Except.bind]

theorem Store.readRecord?_of_content {s : Store} {files : Tree} {path : String} {r : Record}
    (h : files.content? s.home path = some (recordBytes r)) (hid : r.id ≠ "") :
    s.readRecord? files path = some r := by
  simp [readRecord?, h, decode_recordBytes, Except.toOption, hid]

namespace Engine

theorem open_of_isDirectoryAt {settings : Settings} {files : Tree} (now : Instant)
    (hdir : files.isDirectoryAt settings.home settings.jobDir = true) {records : List Record}
    (hload : (Store.ofSettings settings).loadAll files = .ok records) :
    ∃ e last, Engine.open settings files now = .ok (e, last) ∧ e.settings = settings ∧
      e.jobs = (oldestFirst records).map (restored settings now) ∧ e.IsOpening := by
  have hmake := Tree.makeDirectories_of_isDirectoryAt hdir
  have hstore : Store.open files settings = .ok (.ofSettings settings, files) := by
    simp [Store.open, Store.ofSettings, hmake, bind, Except.bind]
  exact open_eq now hstore hload

/-- Opening a directory gives each id in it one job. The queue holds only jobs that can be found,
each once, if and only if no queued record is followed, in the order of creation, by a record with
the same id. -/
theorem open_findsQueue_iff (settings : Settings) (files : Tree) (now : Instant)
    (hdir : files.isDirectoryAt settings.home settings.jobDir = true) :
    ∃ records e last, (Store.ofSettings settings).loadAll files = .ok records ∧
      Engine.open settings files now = .ok (e, last) ∧
      (e.table.map Prod.fst).Nodup ∧
      (∀ id, (∃ job, e.job? id = some job ∧ job.id = id) ↔ ∃ r ∈ records, r.id = id) ∧
      (e.FindsQueue ↔ (oldestFirst records).Pairwise
        fun r later => r.state = .queued → later.id ≠ r.id) := by
  obtain ⟨records, hload⟩ := Store.loadAll_of_isDirectoryAt (s := .ofSettings settings) hdir
  obtain ⟨e, last, hopen, -, hjobs, hopening⟩ := open_of_isDirectoryAt now hdir hload
  refine ⟨records, e, last, hload, hopen, hopening.indexed.nodup, fun id => ?_, ?_⟩
  · rw [hopening.indexed.exists_job?_iff, hjobs]
    have hids : ∀ r, (restored settings now r).id = r.id := id_recovered now
    simp only [List.mem_map, exists_exists_and_eq_and, hids, oldestFirst, List.mem_mergeSort]
  · rw [hopening.findsQueue_iff, hjobs, pairwise_restored]

/-! ## Two records with one id -/

def benchSettings : Settings := { jobDir := "/jobs", workDir := "/config" }

def queuedRecord (id : String) : Record := .fresh id "node.yaml" .compile "" false Job.noon

/-- A job directory with two queued records. -/
def pairDirectory (first second : String) : Tree :=
  ⟨[(["jobs"], .directory),
    (["jobs", "first.json"], .file (Store.recordBytes (queuedRecord first))),
    (["jobs", "second.json"], .file (Store.recordBytes (queuedRecord second)))]⟩

theorem loadAll_pairDirectory {first second : String} (hfirst : first ≠ "")
    (hsecond : second ≠ "") :
    (Store.ofSettings benchSettings).loadAll (pairDirectory first second) =
      .ok [queuedRecord first, queuedRecord second] := by
  have hlist : (pairDirectory first second).list [] "/jobs" =
      .ok ["first.json", "second.json"] := rfl
  have hone : (Store.ofSettings benchSettings).readRecord? (pairDirectory first second)
      ((Store.ofSettings benchSettings).path "first.json") = some (queuedRecord first) :=
    Store.readRecord?_of_content rfl hfirst
  have htwo : (Store.ofSettings benchSettings).readRecord? (pairDirectory first second)
      ((Store.ofSettings benchSettings).path "second.json") = some (queuedRecord second) :=
    Store.readRecord?_of_content rfl hsecond
  have hextensions : Path.extension? "first.json" = some "json" ∧
      Path.extension? "second.json" = some "json" := by decide
  change (do
    let names ← (pairDirectory first second).list [] "/jobs"
    Except.ok (names.filterMap _)) = _
  simp [hlist, bind, Except.bind, hextensions, hone, htwo]

theorem oldestFirst_pair (first second : String) :
    oldestFirst [queuedRecord first, queuedRecord second] =
      [queuedRecord first, queuedRecord second] := by
  refine List.mergeSort_of_pairwise ?_
  simp [queuedRecord, Record.fresh]

/-- A queued record that shares its id with a later one: its job waits in the queue, but the table
has the other job. -/
theorem not_findsQueue_twins : ∃ e last,
    Engine.open benchSettings (pairDirectory "twin" "twin") Job.noon = .ok (e, last) ∧
      ¬ e.FindsQueue := by
  have hdir : (pairDirectory "twin" "twin").isDirectoryAt benchSettings.home benchSettings.jobDir =
      true := by decide
  obtain ⟨e, last, hopen, -, hjobs, hopening⟩ :=
    open_of_isDirectoryAt Job.noon hdir (loadAll_pairDirectory (by decide) (by decide))
  refine ⟨e, last, hopen, ?_⟩
  rw [hopening.findsQueue_iff, hjobs, pairwise_restored, oldestFirst_pair, List.pairwise_pair]
  exact fun h => h rfl rfl

theorem findsQueue_pair : (pairDirectory "one" "two").isDirectoryAt [] "/jobs" = true ∧
    ∃ e last, Engine.open benchSettings (pairDirectory "one" "two") Job.noon = .ok (e, last) ∧
      e.FindsQueue := by
  refine ⟨by decide, ?_⟩
  obtain ⟨records, e, last, hload, hopen, -, -, hfinds⟩ :=
    open_findsQueue_iff benchSettings (pairDirectory "one" "two") Job.noon (by decide)
  rw [loadAll_pairDirectory (by decide) (by decide)] at hload
  obtain rfl := Except.ok.inj hload
  refine ⟨e, last, hopen, hfinds.2 ?_⟩
  rw [oldestFirst_pair, List.pairwise_pair]
  exact fun _ => by decide

end Engine

end FirmwareJobs

import FirmwareJobs.Proofs.Engine.Beside
import FirmwareJobs.Proofs.Engine.Fifo

/-!
# Submitting a job

A submission checks the request, creates a log, saves a record and enters the job, and each of
these can fail. If one does, no job was added and the same records are loaded as before. Otherwise
one job was added, which is found under its id and is loaded again. It waits as the last in the
queue, unless the worker has stopped.
-/

namespace FirmwareJobs

open Files Store Time

/-! ## An opened engine -/

theorem Store.directory_ne_of_loadAll {s : Store} {t : Tree} {records : List Record}
    (h : s.loadAll t = .ok records) : s.directory ≠ "" := by
  intro hempty
  have hlocate : t.locate s.home s.directory = .error .missing := by
    rw [Tree.locate_eq, if_pos hempty]
  rw [loadAll, Tree.list, hlocate] at h
  contradiction

theorem Engine.of_open_eq_ok {settings : Settings} {files dir : Tree} {now : Instant} {e : Engine}
    (h : Engine.open settings files now = .ok (e, dir)) :
    settings.jobDir ≠ "" ∧ e.settings = settings ∧ e.IsOpening := by
  have hopened := h
  unfold Engine.open at h
  split at h
  · contradiction
  · next store found hstore =>
    split at h
    · contradiction
    · next records hload =>
      obtain ⟨e', last, hopen, hsettings, -, hopening⟩ := open_eq now hstore hload
      obtain ⟨rfl, -⟩ := Prod.mk.inj (Except.ok.inj (hopen.symm.trans hopened))
      have hdirectory := directory_ne_of_loadAll hload
      rw [eq_ofSettings_of_open hstore] at hdirectory
      exact ⟨hdirectory, hsettings, hopening⟩

/-! ## The table after any moves -/

namespace Shift

variable {s : Shift} {settings : Settings}

/-- The engine has its settings, and the table and the queue lead to its jobs. -/
structure Grounded (settings : Settings) (s : Shift) : Prop where
  settings : s.engine.settings = settings
  indexed : s.engine.Indexed
  bounded : ∀ p ∈ s.line, p < s.engine.jobs.length

theorem Grounded.alter (h : s.Grounded settings) (p : Nat) (op : Job.Operation) :
    (s.alter p op).Grounded settings := by
  unfold Shift.alter
  split
  · next j hj =>
    refine ⟨h.settings, h.indexed.congr rfl (Engine.ids_setJob hj (Job.sameOrder_apply j op).id),
      fun q hq => ?_⟩
    exact (h.bounded q hq).trans_eq (s.engine.length_setJob p _).symm
  · exact h

theorem Grounded.step (h : s.Grounded settings) {s' : Shift} (hstep : Step s s') :
    s'.Grounded settings := by
  refine ⟨hstep.settings.trans h.settings, hstep.indexed h.indexed, fun p hp => ?_⟩
  have hle := hstep.length_le
  rcases hstep.line_cases with ⟨hline, -⟩ | ⟨hline, -, hlength⟩ | ⟨q, hline, -⟩
  · exact Nat.lt_of_lt_of_le (h.bounded p (hline ▸ hp)) hle
  · rw [hline, List.mem_append, List.mem_singleton] at hp
    rcases hp with hp | rfl
    · exact Nat.lt_of_lt_of_le (h.bounded p hp) hle
    · omega
  · exact Nat.lt_of_lt_of_le (h.bounded p (hline ▸ List.mem_cons_of_mem q hp)) hle

/-- Any move will do, be it permitted or not. -/
theorem Grounded.apply (h : s.Grounded settings) (m : Move) : (s.apply m).Grounded settings := by
  have hstep (hpermits : s.Permits m) : (s.apply m).Grounded settings := by
    rcases s.step_apply hpermits with hsame | hnext
    · rwa [hsame]
    · exact h.step hnext
  cases m with
  | submit request id now =>
    rw [Shift.apply, Shift.submit]
    split
    · exact ⟨h.settings, h.indexed, h.bounded⟩
    · exact h
  | toil op =>
    rw [Shift.apply]
    split
    · exact h.alter _ op
    · exact h
  | listen p op => exact h.alter p op
  | change files => exact ⟨h.settings, h.indexed, h.bounded⟩
  | cancel | serve | start | halt | stop | work => exact hstep trivial

theorem Grounded.run (h : s.Grounded settings) (moves : List Move) :
    (s.run moves).Grounded settings := by
  induction moves generalizing s with
  | nil => exact h
  | cons m moves ih => exact ih (h.apply m)

/-- A state that an engine comes to after it was opened, whatever happens then. -/
def Reached (settings : Settings) (s : Shift) : Prop :=
  ∃ (files dir : Tree) (opened : Instant) (e : Engine) (c : Chronicle) (moves : List Move),
    Engine.open settings files opened = .ok (e, dir) ∧ s = (opening e dir c).run moves

theorem Reached.grounded (h : s.Reached settings) :
    settings.jobDir ≠ "" ∧ s.Grounded settings := by
  obtain ⟨files, dir, opened, e, c, moves, hopen, rfl⟩ := h
  obtain ⟨hdir, hsettings, hopening⟩ := Engine.of_open_eq_ok hopen
  have hstart : (opening e dir c).Grounded settings := by
    refine ⟨hsettings, hopening.indexed, fun p hp => ?_⟩
    rw [line_of_not_taken (by rw [opening, hopening.worker]; rfl)] at hp
    obtain ⟨job, hjob, -⟩ := Engine.mem_queuedPositions.1 (hopening.queue ▸ hp)
    exact (List.getElem?_eq_some_iff.1 hjob).1
  exact ⟨hdir, hstart.run moves⟩

end Shift

/-! ## How a submission can end -/

/-- The record of the job that was ordered. -/
def Order.record (o : Order) (id : String) (now : Instant) : Record :=
  .fresh id o.document o.action o.device o.clean now

namespace Engine

variable {e f : Engine} {t u : Tree} {request : Request} {id : String} {now : Instant}

/-- A request is valid, and its document is a file. -/
structure Orders (e : Engine) (t : Tree) (request : Request) (o : Order) : Prop where
  valid : request.validate = .ok o
  document : t.isFile e.settings.home (e.settings.documentPath o.document) = true

/-- How a submission under an id can end: the answer, and the engine and the files after it. The
log may fail to be created, and the save of the record may stop anywhere, for whatever fault. -/
inductive Submission (e : Engine) (t : Tree) (request : Request) (id : String) (now : Instant) :
    Except EngineError Record → Engine → Tree → Prop where
  | invalid {rejection : Rejection} (h : request.validate = .error rejection) :
      Submission e t request id now (.error (.invalid rejection)) e t
  | missing {o : Order} (h : request.validate = .ok o)
      (hmissing : t.isFile e.settings.home (e.settings.documentPath o.document) = false) :
      Submission e t request id now (.error (.documentNotFound o.document)) e t
  | unlogged {o : Order} (h : e.Orders t request o) (fault : Fault) :
      Submission e t request id now (.error (.io fault)) e t
  | unsaved {o : Order} {logged u : Tree} (h : e.Orders t request o)
      (hlog : e.store.createLog t id = .ok logged)
      (hsave : e.store.Attempt logged (o.record id now) false u) (fault : Fault) :
      Submission e t request id now (.error (.io fault)) e u
  | accepted {o : Order} {logged u : Tree} (h : e.Orders t request o)
      (hlog : e.store.createLog t id = .ok logged)
      (hsave : e.store.save logged (o.record id now) = (.ok (), u)) :
      Submission e t request id now (.ok (o.record id now)) (e.enroll (o.record id now)) u

theorem submission_submit (e : Engine) (t : Tree) (request : Request) (id : String)
    (now : Instant) : e.Submission t request id now (e.submit t request id now).1
      (e.submit t request id now).2.1 (e.submit t request id now).2.2 := by
  cases hvalid : request.validate with
  | error rejection =>
    have hprepare : e.prepare t request id now = .error (.invalid rejection) := by
      rw [prepare, hvalid]
    rw [submit, hprepare]
    exact .invalid hvalid
  | ok o =>
    cases hfile : t.isFile e.settings.home (e.settings.documentPath o.document) with
    | false =>
      have hprepare : e.prepare t request id now = .error (.documentNotFound o.document) := by
        simp [prepare, hvalid, hfile]
      rw [submit, hprepare]
      exact .missing hvalid hfile
    | true =>
      cases hlog : e.store.createLog t id with
      | error fault =>
        have hprepare : e.prepare t request id now = .error (.io fault) := by
          simp [prepare, hvalid, hfile, hlog]
        rw [submit, hprepare]
        exact .unlogged ⟨hvalid, hfile⟩ fault
      | ok logged =>
        have hprepare : e.prepare t request id now = .ok (o.record id now, logged) := by
          simp [prepare, hvalid, hfile, hlog, Order.record]
        rw [submit, hprepare]
        dsimp only
        rcases hsave : e.store.save logged (o.record id now) with ⟨fault | _, u⟩
        · exact .unsaved ⟨hvalid, hfile⟩ hlog (.failed hsave) fault
        · exact .accepted ⟨hvalid, hfile⟩ hlog hsave

/-! ## Nothing -/

/-- Nothing has come of a submission: the engine is as before, and so is what is loaded. No files
have changed but a log and a draft under the new id, and no file at all unless the request is valid
and its document is there. -/
structure Declined (e : Engine) (t : Tree) (request : Request) (id : String) (f : Engine)
    (u : Tree) : Prop where
  engine : f = e
  loadAll : e.store.loadAll u = e.store.loadAll t
  others : ∀ name, IsName name → name ≠ logName id → name ≠ draftName id →
    e.store.content? u name = e.store.content? t name
  untouched : (∀ o, ¬ e.Orders t request o) → u = t

theorem declined_refl : e.Declined t request id e t :=
  ⟨rfl, rfl, fun _ _ _ _ => rfl, fun _ => rfl⟩

theorem Submission.isDeclined {error : EngineError}
    (h : e.Submission t request id now (.error error) f u) (hplain : e.store.Plain t)
    (hdir : e.store.directory ≠ "") (hid : IsId id) : e.Declined t request id f u := by
  cases h with
  | invalid | missing | unlogged => exact declined_refl
  | @unsaved o logged _ horders hlog hsave =>
    have hstands := hplain.stands_of_createLog hdir hid hlog
    obtain ⟨hlogged, -, hothers⟩ := createLog_eq_ok hstands hid hlog
    have hrecord : IsId (o.record id now).id := hid
    obtain ⟨outcome, hsaved, hdone⟩ := hsave.exists_saved hlogged hrecord
    have hkept := hsaved.kept fun hok => Bool.false_ne_true (hdone.1 hok)
    refine ⟨rfl, ?_, fun name hname hlogName hdraft => ?_, fun hno => absurd horders (hno o)⟩
    · exact (hsave.loadAll_eq hlogged hrecord).trans (loadAll_createLog hstands hid hlog)
    · rw [← hothers name hname hlogName]
      by_cases he : name = recordName id
      · rw [he]
        exact hkept
      · exact hsaved.others name hname hdraft he

/-! ## All -/

/-- One job has come of a submission. It is found under its id and waits as the last in the queue,
its record is saved and its log is empty. The other jobs and files are as before. The record is
loaded beside those that were loaded before, and an engine that is opened later has the job in its
queue. A worker that has stopped receives no jobs; then the job is in no queue until the directory
is opened again. -/
structure Accepted (e : Engine) (t : Tree) (request : Request) (id : String) (now : Instant)
    (r : Record) (f : Engine) (u : Tree) : Prop where
  order : ∃ o, e.Orders t request o ∧ r = o.record id now
  engine : f = { e with
    jobs := e.jobs ++ [.ofRecord r e.settings.capacity]
    table := e.table ++ [(id, e.jobs.length)]
    queue := if e.worker = .stopped then e.queue else e.queue ++ [e.jobs.length] }
  waits : e.jobs.length ∈ f.queue ↔ e.worker ≠ .stopped
  job : f.job? id = some (.ofRecord r e.settings.capacity)
  others : ∀ other, other ≠ id → f.job? other = e.job? other
  saved : e.store.recordOf? u id = some r
  log : e.store.content? u (logName id) = some []
  files : ∀ name, IsName name → name ≠ logName id → name ≠ draftName id → name ≠ recordName id →
    e.store.content? u name = e.store.content? t name
  loadAll : ∃ before after, e.store.loadAll t = .ok before ∧ e.store.loadAll u = .ok after ∧
    after.Perm (r :: before)
  resumes : ∀ later, ∃ next dir, Engine.open e.settings u later = .ok (next, dir) ∧
    ∃ p ∈ next.queue, next.jobs[p]? = some (.ofRecord r e.settings.capacity)

theorem Indexed.enter_of_new (h : e.Indexed) (hnew : id ∉ e.ids) (p : Nat) :
    enter e.table id p = e.table ++ [(id, p)] := by
  rw [enter, List.filter_eq_self.2]
  rintro ⟨key, q⟩ hmem
  rw [bne_iff_ne]
  rintro rfl
  obtain ⟨⟨job, hjob, hid⟩, -⟩ :=
    (h.leads key q).1 ((lookup_eq_some_iff_mem h.nodup key q).2 hmem)
  exact hnew (hid ▸ List.mem_map_of_mem (List.mem_of_getElem? hjob))

theorem job?_accept_self (e : Engine) (job : Job) : (e.accept job).job? job.id = some job := by
  rw [job?, position?_accept, if_pos rfl]
  exact (e.getElem?_accept job _ _).2 (.inr ⟨rfl, rfl⟩)

theorem Indexed.job?_accept_other (h : e.Indexed) {job : Job} {other : String}
    (hne : other ≠ job.id) : (e.accept job).job? other = e.job? other := by
  rw [job?, job?, position?_accept, if_neg hne]
  cases hp : e.position? other with
  | none => rfl
  | some p =>
    obtain ⟨⟨k, hk, -⟩, -⟩ := (h.leads other p).1 hp
    exact ((e.getElem?_accept job p k).2 (.inl hk)).trans hk.symm

theorem queued_of_open {s : Settings} {records : List Record} {r : Record} (later : Instant)
    (hdir : u.isDirectoryAt s.home s.jobDir = true)
    (hload : (ofSettings s).loadAll u = .ok records) (hr : r ∈ records)
    (hqueued : r.state = .queued) :
    ∃ next dir, Engine.open s u later = .ok (next, dir) ∧
      ∃ p ∈ next.queue, next.jobs[p]? = some (.ofRecord r s.capacity) := by
  obtain ⟨next, dir, hopen, -, hjobs, hopening⟩ := open_of_isDirectoryAt later hdir hload
  obtain ⟨p, hp⟩ := List.getElem?_of_mem ((perm_oldestFirst records).mem_iff.2 hr)
  have hsame : recovered later r = r := recovered_of_ne_running (by rw [hqueued]; decide)
  have hjob : next.jobs[p]? = some (.ofRecord r s.capacity) := by
    rw [hjobs, List.getElem?_map, hp, Option.map_some, restored, hsame]
  refine ⟨next, dir, hopen, p, ?_, hjob⟩
  rw [hopening.queue]
  exact mem_queuedPositions.2 ⟨_, hjob, hqueued⟩

theorem Submission.isAccepted {r : Record} (h : e.Submission t request id now (.ok r) f u)
    (hplain : e.store.Plain t) (hdir : e.store.directory ≠ "") (hid : IsId id)
    (hindexed : e.Indexed) (hbounded : ∀ p ∈ e.queue, p < e.jobs.length) (hnew : id ∉ e.ids)
    (hfree : e.store.recordOf? t id = none) :
    e.Accepted t request id now r f u := by
  cases h with
  | @accepted o logged _ horders hlog hsave =>
    have hstands := hplain.stands_of_createLog hdir hid hlog
    obtain ⟨hlogged, hempty, hothers⟩ := createLog_eq_ok hstands hid hlog
    have hrecord : IsId (o.record id now).id := hid
    have hsaved := saved_save hlogged hrecord
    rw [hsave] at hsaved
    have hlogFree : e.store.recordOf? logged id = none := by
      rwa [(sameRecords_createLog hstands hid hlog).recordOf? hid]
    obtain ⟨before, after, hbefore, hafter, hperm⟩ :=
      hsaved.loadAll_perm hlogged hrecord hlogFree
    rw [loadAll_createLog hstands hid hlog] at hbefore
    have hmem : o.record id now ∈ after := hperm.mem_iff.2 List.mem_cons_self
    have hengine : e.enroll (o.record id now) = { e with
        jobs := e.jobs ++ [.ofRecord (o.record id now) e.settings.capacity]
        table := e.table ++ [(id, e.jobs.length)]
        queue := if e.worker = .stopped then e.queue else e.queue ++ [e.jobs.length] } := by
      rw [← hindexed.enter_of_new hnew, ← queue_enroll_eq_ite (r := o.record id now) rfl]
      rfl
    refine ⟨⟨o, horders, rfl⟩, hengine, ?_, e.job?_accept_self _, fun other hother => ?_, ?_, ?_,
      ?_, ⟨before, after, hbefore, hafter, hperm⟩, fun later => ?_⟩
    · have hout : e.jobs.length ∉ e.queue := fun hmem => Nat.lt_irrefl _ (hbounded _ hmem)
      rw [hengine]
      split_ifs with hstopped <;> simp [hstopped, hout]
    · exact hindexed.job?_accept_other hother
    · exact hsaved.recordOf?_self rfl hid.nonempty
    · exact (hsaved.content?_log hid).trans hempty
    · intro name hname hlogName hdraft hrecordName
      exact (hsaved.others name hname hdraft hrecordName).trans (hothers name hname hlogName)
    · exact queued_of_open later hsaved.stands.isDirectoryAt hafter hmem rfl

end Engine

namespace Shift

/-- A submission is all or nothing, whatever the engine has come to and wherever the submission
fails. Under a new id an answer with a record means that this job, and nothing else, was added; an
error means that nothing was. The job directory may be missing, but has nothing except files and
directories in it. -/
theorem submit_allOrNothing {settings : Settings} {s : Shift} (h : s.Reached settings)
    (hplain : s.store.Plain s.files) (request : Request) {id : String} (hid : IsId id)
    (now : Instant) :
    s.engine.Submission s.files request id now (s.engine.submit s.files request id now).1
        (s.engine.submit s.files request id now).2.1
        (s.engine.submit s.files request id now).2.2 ∧
      (∀ error f u, s.engine.Submission s.files request id now (.error error) f u →
        s.engine.Declined s.files request id f u) ∧
      (id ∉ s.engine.ids → s.store.recordOf? s.files id = none →
        ∀ r f u, s.engine.Submission s.files request id now (.ok r) f u →
          s.engine.Accepted s.files request id now r f u) := by
  obtain ⟨hjobDir, hsettings, hindexed, hbounded⟩ := h.grounded
  have hdir : s.engine.store.directory ≠ "" := by
    rw [Engine.store, hsettings]
    exact hjobDir
  refine ⟨s.engine.submission_submit s.files request id now, fun error f u hend => ?_,
    fun hnew hfree r f u hend => ?_⟩
  · exact hend.isDeclined hplain hdir hid
  · exact hend.isAccepted hplain hdir hid hindexed
      (fun p hp => hbounded p (List.mem_append_right _ hp)) hnew hfree

theorem reached_bench (moves : List Move) : (bench.run moves).Reached Engine.benchSettings :=
  ⟨_, _, _, _, _, moves, open_benchTree, rfl⟩

theorem plain_bench {moves : List Move} (hlawful : bench.Lawful moves) :
    (bench.run moves).store.Plain (bench.run moves).files :=
  ((untouched_empty stands_benchTree).run (sound_empty _ _) hlawful).stands.plain

/-- The worker has started and stopped, and nobody has ordered anything. -/
def restMoves : List Move := [.start, .halt, .work 0 Job.noon]

theorem lawful_restMoves : bench.Lawful restMoves := by
  simp only [restMoves, Lawful, Permits, and_self]

/-- While the first of two jobs runs, a third one is accepted and a request for an unknown action
is not. A job is accepted when the worker has stopped, too. -/
theorem submit_thirdJob :
    (bench.run twoJobs).Reached Engine.benchSettings ∧
      (bench.run twoJobs).store.Plain (bench.run twoJobs).files ∧ IsId "three" ∧
      "three" ∉ (bench.run twoJobs).engine.ids ∧
      (bench.run twoJobs).store.recordOf? (bench.run twoJobs).files "three" = none ∧
      (∃ f u, (bench.run twoJobs).engine.Accepted (bench.run twoJobs).files benchOrder "three"
        Job.noon (Engine.queuedRecord "three") f u) ∧
      (∃ f u, (bench.run twoJobs).engine.Declined (bench.run twoJobs).files
        { benchOrder with action := "deploy" } "three" f u) ∧
      (bench.run restMoves).engine.worker = .stopped ∧
      ∃ f u, (bench.run restMoves).engine.Accepted (bench.run restMoves).files benchOrder "three"
        Job.noon (Engine.queuedRecord "three") f u := by
  have hplain := plain_bench lawful_twoJobs
  have hid : IsId "three" := ⟨by decide, by decide, by decide⟩
  have hnew : "three" ∉ (bench.run twoJobs).engine.ids := by decide +kernel
  have hfree : (bench.run twoJobs).store.recordOf? (bench.run twoJobs).files "three" = none := by
    decide +kernel
  have haccept : ((bench.run twoJobs).engine.submit (bench.run twoJobs).files benchOrder "three"
      Job.noon).1 = .ok (Engine.queuedRecord "three") := by decide +kernel
  have hdecline : ((bench.run twoJobs).engine.submit (bench.run twoJobs).files
      { benchOrder with action := "deploy" } "three" Job.noon).1 =
        .error (.invalid .action) := by decide +kernel
  have hrest : ((bench.run restMoves).engine.submit (bench.run restMoves).files benchOrder "three"
      Job.noon).1 = .ok (Engine.queuedRecord "three") := by decide +kernel
  obtain ⟨hend, -, haccepted⟩ :=
    submit_allOrNothing (reached_bench twoJobs) hplain benchOrder hid Job.noon
  obtain ⟨hend', hdeclined, -⟩ := submit_allOrNothing (reached_bench twoJobs) hplain
    { benchOrder with action := "deploy" } hid Job.noon
  obtain ⟨hend'', -, hrested⟩ := submit_allOrNothing (reached_bench restMoves)
    (plain_bench lawful_restMoves) benchOrder hid Job.noon
  rw [haccept] at hend
  rw [hdecline] at hend'
  rw [hrest] at hend''
  exact ⟨reached_bench twoJobs, hplain, hid, hnew, hfree, ⟨_, _, haccepted hnew hfree _ _ _ hend⟩,
    ⟨_, _, hdeclined _ _ _ hend'⟩, by decide +kernel, _, _,
    hrested (by decide +kernel) (by decide +kernel) _ _ _ hend''⟩

/-- A worker that has stopped gets no more jobs: the submission is answered with a record, but the
job is in no queue. -/
theorem submit_afterRest :
    (bench.run restMoves).Reached Engine.benchSettings ∧
      ((bench.run restMoves).engine.submit (bench.run restMoves).files benchOrder "three"
        Job.noon).1 = .ok (Engine.queuedRecord "three") ∧
      ((bench.run restMoves).engine.submit (bench.run restMoves).files benchOrder "three"
        Job.noon).2.1.ids = ["three"] ∧
      ((bench.run restMoves).engine.submit (bench.run restMoves).files benchOrder "three"
        Job.noon).2.1.queue = [] :=
  ⟨reached_bench restMoves, by decide +kernel, by decide +kernel, by decide +kernel⟩

end Shift

end FirmwareJobs

import FirmwareJobs.Proofs.Engine.Stopping

/-!
# One life after another

An engine may crash at any moment and be opened again, any number of times. A job is saved before
its submission is answered, it is saved as running before the toolchain gets it, and what ended it
is saved before the request that ended it is answered. So the toolchain gets no job twice. Another
request to cancel the job is answered without a save, and a crash may undo that answer.
-/

namespace FirmwareJobs

open Files Store Time

/-! ## Marks on disk -/

/-- What the directory says about the jobs of a chronicle: an accepted job is saved, one that was
launched or dismissed is not saved as queued, and one whose cancellation was undone is. -/
structure Chronicle.Kept (c : Chronicle) (s : Store) (t : Tree) : Prop where
  accepted : ∀ id ∈ c.accepted, IsId id ∧ ∃ r, s.recordOf? t id = some r
  launched : ∀ id ∈ c.launched, IsId id ∧ ∃ r, s.recordOf? t id = some r ∧ r.state ≠ .queued
  dismissed : ∀ id ∈ c.dismissed, IsId id ∧ ∃ r, s.recordOf? t id = some r ∧ r.state ≠ .queued
  undone : ∀ id ∈ c.undone, IsId id ∧ ∃ r, s.recordOf? t id = some r ∧ r.state = .queued
  once : c.launched.Nodup

namespace Shift

variable {s s' : Shift}

theorem Evolves.id {p : Nat} {j k : Job} (h : Evolves s s' p j k) : k.id = j.id := by
  cases h with
  | touched ht => exact congrArg Record.id ht.record
  | toiled _ hrecord =>
    rw [Job.id, hrecord]
    rfl
  | withdrawn | begun => rfl
  | told => exact id_notifyDone j
  | finished code now => exact id_finish j code now

theorem Sound.ne_queued_of_started (h : s.Sound) {p : Nat} (hp : p ∈ s.started) {j : Job}
    (hj : s.engine.jobs[p]? = some j) : j.state ≠ .queued := fun hqueued =>
  (h.staged.waiting p j hj hqueued).1 hp

theorem Sound.ne_queued_of_close (h : s.Sound) {p : Nat} {r : Record}
    (hmem : .close p r ∈ s.errands) : r.state ≠ .queued := by
  obtain ⟨-, j, -, rfl, hcanceled⟩ := h.attended.serves _ hmem
  exact fun hqueued => absurd (hcanceled.symm.trans hqueued) (by decide)

/-- Nothing makes a saved record queued again. -/
theorem Filed.state_step (h : s.Filed) (hsound : s.Sound) (hstep : Step s s') {id : String}
    (hid : IsId id) {r : Record} (hr : s.store.recordOf? s.files id = some r)
    (hstate : r.state ≠ .queued) :
    ∃ r, s'.store.recordOf? s'.files id = some r ∧ r.state ≠ .queued := by
  rcases hstep.recordOf?_cases hsound h.stands hid with hsame | ⟨x, hx, hkeeps, hsaved⟩
  · exact ⟨r, hsame.trans hr, hstate⟩
  · refine ⟨x, hsaved, ?_⟩
    rcases hkeeps with hmem | ⟨p, hmem, -⟩ | ⟨p, j, hworker, hj, rfl⟩
    · -- A record that is saved for the first time has no file yet.
      rcases h.known id r hid hr with hold | ⟨y, hy, hyid⟩
      · obtain ⟨j, hj, hjid⟩ := List.mem_map.1 hold
        obtain ⟨q, hq⟩ := List.getElem?_of_mem hj
        exact absurd (hjid.trans hx.symm) (hsound.new_ne hmem rfl hq)
      · exact absurd (hyid.trans hx.symm) (hsound.newId_ne hy hmem nofun rfl rfl)
    · exact hsound.ne_queued_of_close hmem
    · exact hsound.ne_queued_of_started (hsound.staged.held p (by
        rcases hworker with hw | hw <;> rw [hw] <;> rfl)) hj

/-! ## Cancellations that are not saved -/

/-- A job that is about to be closed is still saved as queued. -/
def Unclosed (s : Shift) : Prop := ∀ p r, .close p r ∈ s.errands →
  ∃ x, s.store.recordOf? s.files r.id = some x ∧ x.state = .queued

theorem Attended.not_mem_erase (h : s.Attended) {errand other : Errand} {p : Nat}
    (hmem : errand ∈ s.errands) (hp : errand.position? = some p) (hother : other.position? = some p) :
    other ∉ s.errands.erase errand := by
  have hdistinct := (filterMap_erase (f := Errand.position?) hmem).nodup_iff.1 h.distinct
  rw [hp] at hdistinct
  exact fun hleft => (List.nodup_cons.1 hdistinct).1 (List.mem_filterMap.2 ⟨other, hleft, hother⟩)

theorem Filed.record_of_queued (h : s.Filed) (hsound : s.Sound) {p : Nat} {j : Job}
    (hj : s.engine.jobs[p]? = some j) (hqueued : j.state = .queued) :
    s.store.recordOf? s.files j.id = some j.record := by
  obtain ⟨-, hworking, -⟩ :=
    Worker.ne_of_held?_ne (hsound.held_ne (hsound.staged.waiting p j hj hqueued).1)
  obtain ⟨r, hr, -, hsame⟩ := h.recordOf? hj (hsound.not_owed_of_queued hj hqueued)
  rw [hr, hsame hworking]

theorem Step.recordOf?_of_waiting (h : Step s s') (hsound : s.Sound)
    (hstands : s.store.Stands s.files) {p : Nat} {j : Job} (hj : s.engine.jobs[p]? = some j)
    (hp : p ∉ s.started) (hclose : ∀ r, .close p r ∈ s.errands →
      s'.errands ≠ s.errands.erase (.close p r) ++ [.tell p r]) :
    s'.store.recordOf? s'.files j.id = s.store.recordOf? s.files j.id := by
  refine (h.recordOf?_cases hsound hstands (hsound.isId_job hj)).resolve_right ?_
  rintro ⟨r, hr, hnew | ⟨q, hmem, herrands⟩ | ⟨q, k, hworker, hk, rfl⟩, -⟩
  · exact hsound.new_ne hnew rfl hj hr.symm
  · obtain ⟨-, k, hk, rfl, -⟩ := hsound.attended.serves _ hmem
    obtain rfl := hsound.position_eq hk hj hr
    exact hclose _ hmem herrands
  · obtain rfl := hsound.position_eq hk hj hr
    exact hp (hsound.staged.held q (by rcases hworker with hw | hw <;> rw [hw] <;> rfl))

theorem Unclosed.step (h : s.Unclosed) (hsound : s.Sound) (hfiled : s.Filed) (hstep : Step s s') :
    s'.Unclosed := by
  intro p r hmem
  rcases hstep.close_cases hmem with hold | ⟨j, hj, hqueued, hid⟩
  · obtain ⟨hp, j, hj, rfl, -⟩ := hsound.attended.serves _ hold
    rw [← Job.id, hstep.recordOf?_of_waiting hsound hfiled.stands hj hp fun x hclose herrands => ?_]
    · exact h p j.record hold
    · rw [herrands, List.mem_append] at hmem
      exact hsound.attended.not_mem_erase hclose rfl rfl (hmem.resolve_right (by simp))
  · rw [hid, hstep.recordOf?_of_waiting hsound hfiled.stands hj
      (hsound.staged.waiting p j hj hqueued).1 fun x hclose => ?_]
    · exact ⟨j.record, hfiled.record_of_queued hsound hj hqueued, hqueued⟩
    · exact absurd hclose (hsound.attended.close_notMem hj hqueued x)

theorem Unclosed.run (h : s.Unclosed) (hsound : s.Sound) (hfiled : s.Filed) {moves : List Move}
    (hlawful : s.Lawful moves) (hfaults : (s.run moves).engine.faults = []) :
    (s.run moves).Unclosed :=
  (hsound.run_induction_of_faults (P := fun s => s.Filed ∧ s.Unclosed)
    (fun _ _ hsound ⟨hfiled, hs⟩ hstep hnone =>
      ⟨hfiled.step hsound hstep hnone, hs.step hsound hfiled hstep⟩) ⟨hfiled, h⟩ hlawful hfaults).2

theorem Step.closed (h : Step s s') (hsound : s.Sound) (hstands : s.store.Stands s.files)
    (hfaults : s'.engine.faults = []) {p : Nat} {r : Record} (hmem : .close p r ∈ s.errands) :
    .close p r ∈ s'.errands ∨ s'.store.recordOf? s'.files r.id = some r := by
  rw [h.store]
  cases h with
  | touch | toil | change | excuse | start | rest | take | skip | begin | launch | finish
  | archive | report => exact .inl hmem
  | order | withdraw => exact .inl (List.mem_append_left _ hmem)
  | save => exact .inl (mem_erase_concat hmem (by simp))
  | refuse | enroll | tell => exact .inl ((List.mem_erase_of_ne (by simp)).2 hmem)
  | @close q x hx =>
    by_cases he : Errand.close p r = .close q x
    · obtain ⟨rfl, rfl⟩ := Errand.close.inj he
      have hid := hsound.isId_close hmem
      have hok := (Engine.faults_persist _ _ _ hfaults).2
      refine .inr ?_
      dsimp only
      rw [Engine.snd_persist]
      exact (saved_save hstands hid).recordOf?_self hok hid.nonempty
    · exact .inl (mem_erase_concat hmem he)

theorem Filed.not_queued (h : s.Filed) {p : Nat} {j : Job} (hj : s.engine.jobs[p]? = some j)
    (hstate : j.state ≠ .queued) (hworker : s.engine.worker ≠ .begun p) :
    (∃ r, .close p r ∈ s.errands) ∨
      ∃ r, s.store.recordOf? s.files j.id = some r ∧ r.state ≠ .queued := by
  by_cases hclose : ∃ r, .close p r ∈ s.errands
  · exact .inl hclose
  · obtain ⟨r, hr, hreflects⟩ := h.jobs p j hj
    refine .inr ⟨r, hr, ?_⟩
    by_cases hended : s.engine.worker = .ended p
    · rw [hreflects.ended hended]
      decide
    · have howed : ¬ s.IsOwed p := not_owed hworker hended fun r hmem => hclose ⟨r, hmem⟩
      obtain ⟨x, hx, hsummary, -⟩ := h.recordOf? hj howed
      rw [hr] at hx
      obtain rfl := Option.some.inj hx
      rw [hsummary]
      exact hstate

/-! ## Marks during a shift -/

/-- What is known of the jobs of the chronicle while the engine is at work. -/
structure Marked (s : Shift) : Prop where
  accepted : ∀ id ∈ s.chronicle.accepted, id ∈ s.engine.ids
  launched : ∀ id ∈ s.chronicle.launched, IsId id ∧
    ∃ r, s.store.recordOf? s.files id = some r ∧ r.state ≠ .queued
  dismissed : ∀ id ∈ s.chronicle.dismissed, IsId id ∧
    ((∃ p r, .close p r ∈ s.errands ∧ r.id = id) ∨
      ∃ r, s.store.recordOf? s.files id = some r ∧ r.state ≠ .queued)
  once : s.chronicle.launched.Nodup

theorem Marked.step (h : s.Marked) (hsound : s.Sound) (hfiled : s.Filed) (hstep : Step s s')
    (hfaults : s'.engine.faults = []) : s'.Marked := by
  have hstore := hstep.store
  have hfiled' := hfiled.step hsound hstep hfaults
  have haccepted : ∀ id ∈ s'.chronicle.accepted, id ∈ s'.engine.ids := by
    intro id hid
    rcases hstep.ids_cases with ⟨hids, hsame⟩ | ⟨r, -, hids, hnew⟩
    · rw [hids]
      exact h.accepted id (hsame ▸ hid)
    · rw [hnew, List.mem_append] at hid
      rw [hids, List.mem_append]
      exact hid.imp_left (h.accepted id)
  have hlaunched : ∀ id ∈ s.chronicle.launched, IsId id ∧
      ∃ r, s'.store.recordOf? s'.files id = some r ∧ r.state ≠ .queued := by
    intro id hid
    obtain ⟨hisId, r, hr, hstate⟩ := h.launched id hid
    exact ⟨hisId, hfiled.state_step hsound hstep hisId hr hstate⟩
  have hdismissed : ∀ id ∈ s.chronicle.dismissed, IsId id ∧
      ((∃ p r, .close p r ∈ s'.errands ∧ r.id = id) ∨
        ∃ r, s'.store.recordOf? s'.files id = some r ∧ r.state ≠ .queued) := by
    intro id hid
    obtain ⟨hisId, ⟨p, r, hclose, rfl⟩ | ⟨r, hr, hstate⟩⟩ := h.dismissed id hid
    · refine ⟨hisId, ?_⟩
      rcases hstep.closed hsound hfiled.stands hfaults hclose with hold | hsaved
      · exact .inl ⟨p, r, hold, rfl⟩
      · exact .inr ⟨r, hsaved, hsound.ne_queued_of_close hclose⟩
    · exact ⟨hisId, .inr (hfiled.state_step hsound hstep hisId hr hstate)⟩
  cases hstep with
  | excuse hjob hend =>
    refine ⟨haccepted, hlaunched, fun id hid => ?_, h.once⟩
    rcases List.mem_append.1 hid with hold | hnew
    · exact hdismissed id hold
    · obtain rfl := List.mem_singleton.1 hnew
      refine ⟨hsound.isId_job hjob, ?_⟩
      refine (hfiled.not_queued hjob (Job.ne_queued_of_terminal hend) fun hworker => ?_).imp_left
        fun ⟨r, hclose⟩ => ?_
      · exact Job.ne_running_of_terminal hend ((hsound.staged.running _ _ hjob).2 (.inl hworker))
      · obtain ⟨-, k, hk, hrecord, -⟩ := hsound.attended.serves _ hclose
        rw [hjob] at hk
        exact ⟨_, r, hclose, by rw [← hrecord, ← Option.some.inj hk]; rfl⟩
  | @tell p r hmem =>
    refine ⟨haccepted, hlaunched, fun id hid => ?_, h.once⟩
    rcases List.mem_append.1 hid with hold | hnew
    · exact hdismissed id hold
    · obtain rfl := List.mem_singleton.1 hnew
      obtain ⟨hnot, j, hj, rfl, hcanceled⟩ := hsound.attended.serves _ hmem
      refine ⟨hsound.isId_job hj, .inr ?_⟩
      obtain ⟨x, hx, -, hsame⟩ := hfiled.recordOf? hj (hsound.not_owed_of_tell hmem)
      refine ⟨x, hstore ▸ hx, ?_⟩
      rw [hsame fun hworker => hnot (hsound.staged.held p (by rw [hworker]; rfl))]
      exact fun hqueued => absurd (hcanceled.symm.trans hqueued) (by decide)
  | @launch p j hworker hjob =>
    obtain ⟨r, hr, hreflects⟩ := hfiled.jobs p j hjob
    refine ⟨haccepted, fun id hid => ?_, hdismissed, ?_⟩
    · rcases List.mem_append.1 hid with hold | hnew
      · exact hlaunched id hold
      · obtain rfl := List.mem_singleton.1 hnew
        have hstarted := hsound.staged.held p (by rw [hworker]; rfl)
        have hworking :=
          Engine.worker_persist { s.engine with worker := .working p } s.files j.record
        refine ⟨hsound.isId_job hjob, (hfiled'.not_queued (p := p) ?_
          (hsound.ne_queued_of_started hstarted hjob) ?_).resolve_left ?_⟩
        · exact (congrArg (·[p]?) (Engine.jobs_persist _ _ _)).trans hjob
        · exact fun hbegun => absurd (hworking.symm.trans hbegun) (by simp)
        · exact fun ⟨x, hclose⟩ => (hsound.attended.serves _ hclose).1 hstarted
    · -- The job was saved as queued until now, so it was not launched before.
      refine List.nodup_append.2 ⟨h.once, by simp, fun id hid other hother he => ?_⟩
      obtain rfl := List.mem_singleton.1 hother
      obtain ⟨-, x, hx, hstate⟩ := h.launched id hid
      rw [he, hr] at hx
      exact hstate (Option.some.inj hx ▸ hreflects.begun hworker)
  | touch | toil | change | order | save | refuse | enroll | withdraw | close | start | rest | take
  | skip | begin | finish | archive | report => exact ⟨haccepted, hlaunched, hdismissed, h.once⟩

theorem Marked.run (h : s.Marked) (hsound : s.Sound) (hfiled : s.Filed) {moves : List Move}
    (hlawful : s.Lawful moves) (hfaults : (s.run moves).engine.faults = []) :
    (s.run moves).Marked :=
  (hsound.run_induction_of_faults (P := fun s => s.Filed ∧ s.Marked)
    (fun _ _ hsound ⟨hfiled, hs⟩ hstep hnone =>
      ⟨hfiled.step hsound hstep hnone, hs.step hsound hfiled hstep hnone⟩)
    ⟨hfiled, h⟩ hlawful hfaults).2

/-! ## Jobs that do not wait -/

theorem Step.mem_line (h : Step s s') {p : Nat} (hp : p ∈ s'.line) :
    p ∈ s.line ∨ p = s.engine.jobs.length := by
  rcases h.line_cases with ⟨hline, -⟩ | ⟨hline, -⟩ | ⟨q, hline, -⟩
  · exact .inl (hline ▸ hp)
  · rwa [hline, List.mem_append, List.mem_singleton] at hp
  · exact .inl (hline ▸ List.mem_cons_of_mem q hp)

/-- A job that does not wait never waits again. -/
theorem Sound.not_queued_run (h : s.Sound) {p : Nat} {j : Job} (hj : s.engine.jobs[p]? = some j)
    (hp : p ∉ s.line) {moves : List Move} (hlawful : s.Lawful moves) :
    ∀ q ∈ (s.run moves).engine.queue, ∀ k : Job, (s.run moves).engine.jobs[q]? = some k →
      k.id ≠ j.id := by
  have hrun : (∃ k, (s.run moves).engine.jobs[p]? = some k ∧ k.id = j.id) ∧
      p ∉ (s.run moves).line := by
    refine h.run_induction (P := fun t => (∃ k, t.engine.jobs[p]? = some k ∧ k.id = j.id) ∧
      p ∉ t.line) (fun t t' _ ht hstep => ?_) ⟨⟨j, hj, rfl⟩, hp⟩ hlawful
    obtain ⟨⟨k, hk, hid⟩, hnot⟩ := ht
    obtain ⟨x, hx, hevolves⟩ := hstep.evolves hk
    refine ⟨⟨x, hx, hevolves.id.trans hid⟩, fun hline => ?_⟩
    rcases hstep.mem_line hline with hold | rfl
    · exact hnot hold
    · exact Nat.lt_irrefl _ (List.getElem?_eq_some_iff.1 hk).1
  obtain ⟨⟨k, hk, hid⟩, hnot⟩ := hrun
  intro q hq x hx he
  obtain rfl := (h.run hlawful).position_eq hx hk (he.trans hid.symm)
  exact hnot (List.mem_append_right _ hq)

end Shift

/-! ## From one life to the next -/

/-- The job whose canceled record is about to be saved. -/
def Errand.closing? : Errand → Option String
  | .close _ r => some r.id
  | _ => none

/-- The ids of the jobs whose canceled records are about to be saved. -/
def Shift.closing (s : Shift) : List String := s.errands.filterMap Errand.closing?

/-- The chronicle after a crash. A request that finds a job canceled is answered at once, though
another request may still be saving the canceled record. If the crash comes before that save, the
answer is undone. -/
def Shift.left (s : Shift) : Chronicle :=
  { s.chronicle with
    dismissed := s.chronicle.dismissed.filter (· ∉ s.closing)
    undone := s.chronicle.dismissed.filter (· ∈ s.closing) }

/-- The directories and chronicles that any number of lives can leave. A life begins when the
directory is opened and goes on until a crash, which may come at any moment, also while the
directory is being opened. It leaves the record files as they are, as no save is left half done.
In none of the lives a save has failed. -/
inductive Lived (settings : Settings) : Tree → Chronicle → Prop where
  | first {t : Tree} (hstands : (ofSettings settings).Stands t)
      (htidy : (ofSettings settings).Tidy t) : Lived settings t {}
  | opening {t u : Tree} {c : Chronicle} {records : List Record} (h : Lived settings t c)
      (hload : (ofSettings settings).loadAll t = .ok records) (now : Instant) (count : Nat)
      (hstands : (ofSettings settings).Stands u)
      (hsame : (ofSettings settings).SameRecords (Engine.restoreAll now (.empty settings) t
        ((Engine.oldestFirst records).take count)).2 u) : Lived settings u c
  | working {t u dir : Tree} {c : Chronicle} {e : Engine} {now : Instant} {moves : List Move}
      (h : Lived settings t c) (hopen : Engine.open settings t now = .ok (e, dir))
      (hlawful : (Shift.opening e dir c).Lawful moves)
      (hfaults : ((Shift.opening e dir c).run moves).engine.faults = [])
      (hstands : (ofSettings settings).Stands u)
      (hsame : (ofSettings settings).SameRecords ((Shift.opening e dir c).run moves).files u) :
      Lived settings u ((Shift.opening e dir c).run moves).left

section Kept

variable {settings : Settings} {t u dir : Tree} {c : Chronicle} {now : Instant} {e : Engine}
  {records : List Record}

theorem Chronicle.Kept.sameRecords {s : Store} (h : c.Kept s t) (hsame : s.SameRecords t u) :
    c.Kept s u where
  accepted id hid := by
    obtain ⟨hisId, hr⟩ := h.accepted id hid
    exact ⟨hisId, (hsame.recordOf? hisId).symm ▸ hr⟩
  launched id hid := by
    obtain ⟨hisId, hr⟩ := h.launched id hid
    exact ⟨hisId, (hsame.recordOf? hisId).symm ▸ hr⟩
  dismissed id hid := by
    obtain ⟨hisId, hr⟩ := h.dismissed id hid
    exact ⟨hisId, (hsame.recordOf? hisId).symm ▸ hr⟩
  undone id hid := by
    obtain ⟨hisId, hr⟩ := h.undone id hid
    exact ⟨hisId, (hsame.recordOf? hisId).symm ▸ hr⟩
  once := h.once

/-- Restoring saved records keeps what they say about the chronicle. -/
theorem Chronicle.Kept.restored {f : Engine} (h : c.Kept e.store t)
    (hrestored : Engine.Restored now e t records f u)
    (hrecords : ∀ r ∈ records, e.store.recordOf? t r.id = some r) : c.Kept e.store u := by
  have hsome : ∀ {id r}, IsId id → e.store.recordOf? t id = some r →
      ∃ r', e.store.recordOf? u id = some r' ∧ (r'.state = .queued ↔ r.state = .queued) := by
    intro id r hid hr
    rcases hrestored.recordOf?_cases hrecords hid hr with hold | hnew
    · exact ⟨r, hold, Iff.rfl⟩
    · exact ⟨_, hnew, Engine.state_recovered_eq_queued⟩
  have hne : ∀ id, (IsId id ∧ ∃ r, e.store.recordOf? t id = some r ∧ r.state ≠ .queued) →
      IsId id ∧ ∃ r, e.store.recordOf? u id = some r ∧ r.state ≠ .queued := by
    rintro id ⟨hid, r, hr, hstate⟩
    obtain ⟨r', hr', hstate'⟩ := hsome hid hr
    exact ⟨hid, r', hr', mt hstate'.1 hstate⟩
  refine ⟨fun id hid => ?_, fun id hid => hne id (h.launched id hid),
    fun id hid => hne id (h.dismissed id hid), fun id hid => ?_, h.once⟩
  · obtain ⟨hisId, r, hr⟩ := h.accepted id hid
    obtain ⟨r', hr', -⟩ := hsome hisId hr
    exact ⟨hisId, r', hr'⟩
  · obtain ⟨hisId, r, hr, hstate⟩ := h.undone id hid
    obtain ⟨r', hr', hstate'⟩ := hsome hisId hr
    exact ⟨hisId, r', hr', hstate'.2 hstate⟩

theorem Chronicle.Kept.marked (h : c.Kept (ofSettings settings) t)
    (htidy : (ofSettings settings).Tidy t) (hopened : Engine.Opened settings now t records e u) :
    (Shift.opening e u c).Marked := by
  have hkept : c.Kept (ofSettings settings) u :=
    h.restored hopened.onDisk fun r hr => (hopened.mem_oldestFirst.1 hr).2
  have hstore : (Shift.opening e u c).store = ofSettings settings := hopened.store_eq
  refine ⟨fun id hid => ?_, fun id hid => ?_, fun id hid => ?_, h.once⟩
  · obtain ⟨hisId, r, hr⟩ := h.accepted id hid
    obtain rfl := htidy.id_eq hisId hr
    change r.id ∈ e.ids
    rw [hopened.ids_eq]
    exact List.mem_map_of_mem (hopened.mem_oldestFirst.2 ⟨hisId, hr⟩)
  · rw [hstore]
    exact hkept.launched id hid
  · obtain ⟨hisId, hr⟩ := hkept.dismissed id hid
    rw [hstore]
    exact ⟨hisId, .inr hr⟩

theorem Shift.mem_closing {s : Shift} {id : String} :
    id ∈ s.closing ↔ ∃ p r, .close p r ∈ s.errands ∧ r.id = id := by
  rw [closing, List.mem_filterMap]
  constructor
  · rintro ⟨errand, hmem, hid⟩
    cases errand with
    | close p r => exact ⟨p, r, hmem, Option.some.inj hid⟩
    | save | enroll | tell => contradiction
  · rintro ⟨p, r, hmem, hid⟩
    exact ⟨.close p r, hmem, congrArg some hid⟩

/-- What a crash leaves on disk. -/
theorem Shift.Marked.kept {s : Shift} (h : s.Marked) (hsound : s.Sound) (hfiled : s.Filed)
    (hunclosed : s.Unclosed) : s.left.Kept s.store s.files where
  accepted id hid := by
    obtain ⟨j, hj, rfl⟩ := List.mem_map.1 (h.accepted id hid)
    obtain ⟨p, hp⟩ := List.getElem?_of_mem hj
    obtain ⟨r, hr, -⟩ := hfiled.jobs p j hp
    exact ⟨hsound.isId_job hp, r, hr⟩
  launched := h.launched
  dismissed id hid := by
    obtain ⟨hmem, hnot⟩ := List.mem_filter.1 hid
    obtain ⟨hisId, ⟨p, r, hclose, hr⟩ | hr⟩ := h.dismissed id hmem
    · exact absurd (mem_closing.2 ⟨p, r, hclose, hr⟩) (of_decide_eq_true hnot)
    · exact ⟨hisId, hr⟩
  undone id hid := by
    obtain ⟨p, r, hclose, rfl⟩ := mem_closing.1 (of_decide_eq_true (List.mem_filter.1 hid).2)
    exact ⟨hsound.isId_close hclose, hunclosed p r hclose⟩
  once := h.once

theorem Lived.kept (h : Lived settings t c) : (ofSettings settings).Stands t ∧
    (ofSettings settings).Tidy t ∧ c.Kept (ofSettings settings) t := by
  induction h with
  | first hstands htidy =>
    refine ⟨hstands, htidy, fun _ hid => ?_, fun _ hid => ?_, fun _ hid => ?_, fun _ hid => ?_,
      List.nodup_nil⟩ <;> exact absurd hid List.not_mem_nil
  | @opening t u c records _ hload now count hu hsame ih =>
    obtain ⟨hstands, htidy, hkept⟩ := ih
    obtain ⟨records', hload', hdistinct, hmem⟩ := loadAll_of_tidy hstands htidy
    obtain rfl := Except.ok.inj (hload.symm.trans hload')
    have hsub := List.take_sublist count (Engine.oldestFirst records)
    have hperm := Engine.perm_oldestFirst records
    have hrecords : ∀ r ∈ (Engine.oldestFirst records).take count,
        IsId r.id ∧ (ofSettings settings).recordOf? t r.id = some r := fun r hr =>
      (hmem r).1 (hperm.mem_iff.1 (hsub.subset hr))
    have hnodup : (((Engine.oldestFirst records).take count).map Record.id).Nodup :=
      ((hperm.map Record.id).nodup_iff.2 hdistinct).sublist (hsub.map Record.id)
    have hrestored := Engine.restored_restoreAll now _ (e := .empty settings) hstands htidy
      hnodup hrecords
    have hkept' : c.Kept (ofSettings settings) _ :=
      hkept.restored hrestored fun r hr => (hrecords r hr).2
    exact ⟨hu, hsame.tidy hrestored.tidy, hkept'.sameRecords hsame⟩
  | @working t u dir c e now moves _ hopen hlawful hfaults hu hsame ih =>
    obtain ⟨hstands, htidy, hkept⟩ := ih
    obtain ⟨records, e', dir', hopen', hopened⟩ := Engine.open_of_tidy now hstands htidy
    rw [hopen] at hopen'
    obtain ⟨rfl, rfl⟩ := Prod.mk.inj (Except.ok.inj hopen')
    have hsound := hopened.sound c
    have hfiled := Shift.filed_opening hopened c (Shift.faults_run hlawful hfaults)
    have hmarked := (hkept.marked htidy hopened).run hsound hfiled hlawful hfaults
    have hunclosed : (Shift.opening e dir c).Unclosed := fun _ _ hmem => nomatch hmem
    have hstore : ((Shift.opening e dir c).run moves).store = ofSettings settings :=
      (Shift.store_run hlawful).trans hopened.store_eq
    have hlast := hfiled.run hsound hlawful hfaults
    have hleft := hmarked.kept (hsound.run hlawful) hlast
      (hunclosed.run hsound hfiled hlawful hfaults)
    rw [hstore] at hleft
    exact ⟨hu, hsame.tidy (hstore ▸ hlast.tidy), hleft.sameRecords hsame⟩

/-! ## The next life -/

/-- The record of a job that was running when the engine crashed. -/
def interrupted (now : Instant) (r : Record) : Record :=
  { r with
    state := .failed, endedAt := some now, exitCode := some 1
    errorSummary := "Interrupted by server restart" }

/-- What an engine `e` knows and leaves on disk, in `u`, when it opens the directory `t` after the
lives of the chronicle. Only a job whose cancellation was undone is queued again after an answer
that it had ended. -/
structure Resumed (settings : Settings) (t : Tree) (c : Chronicle) (now : Instant) (e : Engine)
    (u : Tree) : Prop where
  accepted : ∀ id ∈ c.accepted, ∃ j, e.job? id = some j ∧ j.id = id
  once : c.launched.Nodup
  never_again : ∀ id, id ∈ c.launched ∨ id ∈ c.dismissed → ∀ moves,
    (Shift.opening e u c).Lawful moves →
    ∀ p ∈ ((Shift.opening e u c).run moves).engine.queue, ∀ j : Job,
      ((Shift.opening e u c).run moves).engine.jobs[p]? = some j → j.id ≠ id
  undone : ∀ id ∈ c.undone, ∃ r ∈ e.queuedRecords, r.id = id
  ended : ∀ id r, IsId id → (ofSettings settings).recordOf? t id = some r →
    r.state.isTerminal = true → (∃ j, e.job? id = some j ∧ j.record = r) ∧
      (ofSettings settings).recordOf? u id = some r
  interrupted : ∀ id r, IsId id → (ofSettings settings).recordOf? t id = some r →
    r.state = .running → (∃ j, e.job? id = some j ∧ j.record = interrupted now r) ∧
      (e.faults = [] → (ofSettings settings).recordOf? u id = some (interrupted now r))
  found : e.FindsQueue
  queued : ∀ r, r ∈ e.queuedRecords ↔
    r.state = .queued ∧ IsId r.id ∧ (ofSettings settings).recordOf? t r.id = some r
  queued_once : (e.queuedRecords.map Record.id).Nodup
  oldest_first : e.queuedRecords.Pairwise fun r later => r.createdAt.rank ≤ later.createdAt.rank

theorem recovered_of_running {r : Record} (h : r.state = .running) :
    Engine.recovered now r = interrupted now r := if_pos h

theorem Engine.Opened.not_queued (h : Engine.Opened settings now t records e u) {r : Record}
    (hr : r ∈ Engine.oldestFirst records) (hstate : r.state ≠ .queued) {moves : List Move}
    (hlawful : (Shift.opening e u c).Lawful moves) :
    ∀ p ∈ ((Shift.opening e u c).run moves).engine.queue, ∀ j : Job,
      ((Shift.opening e u c).run moves).engine.jobs[p]? = some j → j.id ≠ r.id := by
  obtain ⟨p, -, hp⟩ := Option.bind_eq_some_iff.1 (h.job?_eq hr)
  have hid : (Engine.restored settings now r).id = r.id := Engine.id_recovered now r
  rw [← hid]
  refine (h.sound c).not_queued_run hp (fun hline => ?_) hlawful
  have hqueue : (Shift.opening e u c).line = Engine.queuedPositions e.jobs :=
    (Shift.line_of_not_taken (by rw [Shift.opening, h.isOpening.worker]; rfl)).trans
      h.isOpening.queue
  rw [hqueue] at hline
  obtain ⟨j, hj, hqueued⟩ := Engine.mem_queuedPositions.1 hline
  obtain rfl := Option.some.inj (hp.symm.trans hj)
  exact hstate (Engine.state_recovered_eq_queued.1 hqueued)

theorem Chronicle.Kept.queued_of_undone (h : c.Kept (ofSettings settings) t)
    (htidy : (ofSettings settings).Tidy t) (hopened : Engine.Opened settings now t records e u)
    {id : String} (hid : id ∈ c.undone) : ∃ r ∈ e.queuedRecords, r.id = id := by
  obtain ⟨hisId, r, hr, hstate⟩ := h.undone id hid
  obtain rfl := htidy.id_eq hisId hr
  exact ⟨r, hopened.mem_queuedRecords.2 ⟨hstate, hisId, hr⟩, rfl⟩

/-- Whatever happened in the lives before, opening the directory again succeeds, and no job is
executed twice. -/
theorem resumed_of_lived (h : Lived settings t c) (now : Instant) : ∃ e u,
    Engine.open settings t now = .ok (e, u) ∧ Resumed settings t c now e u := by
  obtain ⟨hstands, htidy, hkept⟩ := h.kept
  obtain ⟨records, e, u, hopen, hopened⟩ := Engine.open_of_tidy now hstands htidy
  have hmem : ∀ {id r}, IsId id → (ofSettings settings).recordOf? t id = some r →
      r ∈ Engine.oldestFirst records ∧ r.id = id := by
    intro id r hid hr
    obtain rfl := htidy.id_eq hid hr
    exact ⟨hopened.mem_oldestFirst.2 ⟨hid, hr⟩, rfl⟩
  refine ⟨e, u, hopen, fun id hid => ?_, hkept.once, fun id hid moves hlawful => ?_,
    fun id => hkept.queued_of_undone htidy hopened, fun id r hid hr hend => ?_,
    fun id r hid hr hrunning => ?_, hopened.findsQueue, fun r => hopened.mem_queuedRecords, ?_, ?_⟩
  · obtain ⟨hisId, r, hr⟩ := hkept.accepted id hid
    obtain ⟨hrecord, rfl⟩ := hmem hisId hr
    exact ⟨_, hopened.job?_eq hrecord, Engine.id_recovered now r⟩
  · obtain ⟨hisId, r, hr, hstate⟩ := hid.elim (hkept.launched id) (hkept.dismissed id)
    obtain ⟨hrecord, rfl⟩ := hmem hisId hr
    exact hopened.not_queued hrecord hstate hlawful
  · obtain ⟨hrecord, rfl⟩ := hmem hid hr
    have hsame : Engine.recovered now r = r := Engine.recovered_of_ne_running fun hrunning => by
      rw [hrunning] at hend
      contradiction
    refine ⟨⟨_, hopened.job?_eq hrecord, hsame⟩, ?_⟩
    rcases hopened.onDisk.kept r hrecord with hold | hnew
    · exact hold
    · rwa [hsame] at hnew
  · obtain ⟨hrecord, rfl⟩ := hmem hid hr
    have hsame : Engine.recovered now r = interrupted now r := recovered_of_running hrunning
    refine ⟨⟨_, hopened.job?_eq hrecord, hsame⟩, fun hfaults => ?_⟩
    rw [← hsame]
    exact hopened.onDisk.saved hfaults r hrecord
  · rw [hopened.queuedRecords_eq]
    exact (((Engine.perm_oldestFirst records).map Record.id).nodup_iff.2 hopened.distinct).sublist
      (List.filter_sublist.map _)
  · rw [hopened.queuedRecords_eq]
    exact (Engine.sorted_oldestFirst records).filter _

end Kept

namespace Shift

theorem lived_bench {moves : List Move} (hlawful : bench.Lawful moves)
    (hfaults : (bench.run moves).engine.faults = []) :
    Lived Engine.benchSettings (bench.run moves).files (bench.run moves).left := by
  have hstands := ((untouched_empty stands_benchTree).run (sound_empty _ _) hlawful).stands
  have hstore := store_run hlawful
  unfold bench at hlawful hfaults hstore ⊢
  rw [hstore] at hstands
  exact .working (.first stands_benchTree tidy_benchTree) open_benchTree hlawful hfaults hstands
    fun _ _ _ => rfl

/-- A job that waits is canceled twice, and nothing is saved. -/
def canceledTwice : List Move :=
  [.submit benchOrder "one" Job.noon, .serve (.save (Engine.queuedRecord "one")),
    .serve (.enroll (Engine.queuedRecord "one")), .cancel "one" Job.noon, .cancel "one" Job.noon]

theorem lawful_canceledTwice : bench.Lawful canceledTwice := by
  have hone : IsId "one" := ⟨by decide, by decide, by decide⟩
  refine ⟨⟨hone, by decide +kernel⟩, ?_⟩
  simp only [Lawful, Permits, and_self]

end Shift

/-- The toolchain has returned for the first job, but that is not saved, and the second job is
about to be canceled. The other shift leaves a job with an answer that is undone. -/
theorem resumed_twoJobs :
    Lived Engine.benchSettings (Shift.bench.run Shift.twoJobs).files
        (Shift.bench.run Shift.twoJobs).left ∧
      (Shift.bench.run Shift.twoJobs).left = ⟨["one", "two"], ["one"], [], []⟩ ∧
      (∃ e u, Engine.open Engine.benchSettings (Shift.bench.run Shift.twoJobs).files Job.noon =
          .ok (e, u) ∧
        Resumed Engine.benchSettings (Shift.bench.run Shift.twoJobs).files
          (Shift.bench.run Shift.twoJobs).left Job.noon e u) ∧
      (Shift.bench.run Shift.canceledTwice).left = ⟨["one"], [], [], ["one"]⟩ ∧
      ∃ e u, Engine.open Engine.benchSettings (Shift.bench.run Shift.canceledTwice).files
          Job.noon = .ok (e, u) ∧
        Resumed Engine.benchSettings (Shift.bench.run Shift.canceledTwice).files
          (Shift.bench.run Shift.canceledTwice).left Job.noon e u := by
  have hlived := Shift.lived_bench Shift.lawful_twoJobs Shift.run_twoJobs.2
  have hundone := Shift.lived_bench Shift.lawful_canceledTwice (by decide +kernel)
  exact ⟨hlived, by decide +kernel, resumed_of_lived hlived Job.noon, by decide +kernel,
    resumed_of_lived hundone Job.noon⟩

/-- The second request to cancel a job is answered with the canceled record, the crash comes before
the first one has saved it, and the job is in the queue of the next life. -/
theorem queued_after_canceledTwice :
    Lived Engine.benchSettings (Shift.bench.run Shift.canceledTwice).files
        (Shift.bench.run Shift.canceledTwice).left ∧
      Shift.canceledTwice.getLast? = some (.cancel "one" Job.noon) ∧
      ((Shift.bench.run Shift.canceledTwice.dropLast).engine.cancel
        (Shift.bench.run Shift.canceledTwice.dropLast).files "one" Job.noon).1 =
          .ok (Job.canceledRecord (Engine.queuedRecord "one") Job.noon) ∧
      ∃ e u, Engine.open Engine.benchSettings (Shift.bench.run Shift.canceledTwice).files
          Job.noon = .ok (e, u) ∧
        ∃ p ∈ e.queue, ∃ j : Job, e.jobs[p]? = some j ∧ j.id = "one" := by
  have hlived := Shift.lived_bench Shift.lawful_canceledTwice (by decide +kernel)
  obtain ⟨hstands, htidy, hkept⟩ := hlived.kept
  obtain ⟨records, e, u, hopen, hopened⟩ := Engine.open_of_tidy Job.noon hstands htidy
  have hundone : "one" ∈ (Shift.bench.run Shift.canceledTwice).left.undone := by decide +kernel
  obtain ⟨r, hr, hid⟩ := hkept.queued_of_undone htidy hopened hundone
  obtain ⟨p, hp, hjob⟩ := List.mem_filterMap.1 hr
  obtain ⟨j, hj, rfl⟩ := Option.map_eq_some_iff.1 hjob
  exact ⟨hlived, rfl, by decide +kernel, e, u, hopen, p, hp, j, hj, hid⟩

end FirmwareJobs

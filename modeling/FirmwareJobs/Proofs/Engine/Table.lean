import FirmwareJobs.Engine.Basic
import FirmwareJobs.Proofs.Job.Core
import Mathlib.Data.List.Basic

/-!
# The table of jobs

Jobs are only ever added at the end of the list of jobs, and the table leads from an id to the last
job that came under it. A job that is replaced by a later state of itself stays where it is.
-/

namespace FirmwareJobs.Engine

open Files

/-! ## Looking up ids -/

theorem lookup_cons_eq {key id : String} {p : Nat} (table : List (String × Nat)) :
    ((key, p) :: table).lookup id = if id = key then some p else table.lookup id := by
  by_cases h : id = key
  · simp [h]
  · simp [List.lookup_cons, h, beq_eq_false_iff_ne.2 h]

theorem lookup_eq_some_iff_mem {table : List (String × Nat)} (h : (table.map Prod.fst).Nodup)
    (id : String) (p : Nat) : table.lookup id = some p ↔ (id, p) ∈ table := by
  induction table with
  | nil => simp
  | cons entry table ih =>
    obtain ⟨key, q⟩ := entry
    rw [List.map_cons, List.nodup_cons] at h
    rw [lookup_cons_eq, List.mem_cons, Prod.mk.injEq]
    by_cases hkey : id = key
    · have hnot : (id, p) ∉ table := fun hm =>
        h.1 (List.mem_map.2 ⟨(id, p), hm, hkey⟩)
      simp [hkey ▸ hnot, hkey, eq_comm]
    · simp [hkey, ih h.2]

theorem lookup_filter_ne (table : List (String × Nat)) (id other : String) :
    (table.filter (·.1 != id)).lookup other =
      if other = id then none else table.lookup other := by
  induction table with
  | nil => simp
  | cons entry table ih =>
    obtain ⟨key, q⟩ := entry
    by_cases hkey : key = id
    · rw [List.filter_cons_of_neg (by simp [hkey]), ih, lookup_cons_eq, hkey]
      split_ifs <;> rfl
    · rw [List.filter_cons_of_pos (by simpa using hkey), lookup_cons_eq, ih, lookup_cons_eq]
      by_cases hother : other = key
      · rw [if_pos hother, if_neg (hother ▸ hkey), if_pos hother]
      · simp only [if_neg hother]

theorem lookup_enter (table : List (String × Nat)) (id : String) (p : Nat) (other : String) :
    (enter table id p).lookup other = if other = id then some p else table.lookup other := by
  rw [enter, List.lookup_append, lookup_filter_ne, lookup_cons_eq]
  split_ifs
  · rfl
  · simp

theorem nodup_enter {table : List (String × Nat)} (id : String) (p : Nat)
    (h : (table.map Prod.fst).Nodup) : ((enter table id p).map Prod.fst).Nodup := by
  rw [enter, List.map_append, List.nodup_append]
  refine ⟨h.sublist (List.filter_sublist.map _), by simp, ?_⟩
  simp only [List.mem_map, List.mem_filter, bne_iff_ne, List.map_cons, List.map_nil,
    List.mem_singleton]
  rintro key ⟨entry, ⟨-, hne⟩, rfl⟩ _ rfl
  exact hne

/-! ## The last job under an id -/

/-- The table has each id once and leads from it to the last job that has it. -/
structure Indexed (e : Engine) : Prop where
  nodup : (e.table.map Prod.fst).Nodup
  leads : ∀ id p, e.position? id = some p ↔
    (∃ job, e.jobs[p]? = some job ∧ job.id = id) ∧
      ∀ q (job : Job), e.jobs[q]? = some job → job.id = id → q ≤ p

theorem indexed_empty (settings : Settings) : (empty settings).Indexed :=
  ⟨List.nodup_nil, by simp [empty, position?]⟩

variable {e : Engine}

theorem position?_accept (e : Engine) (job : Job) (id : String) :
    (e.accept job).position? id = if id = job.id then some e.jobs.length else e.position? id :=
  lookup_enter _ _ _ _

theorem jobs_accept (e : Engine) (job : Job) : (e.accept job).jobs = e.jobs ++ [job] := rfl

theorem queue_enroll {e : Engine} {r : Record} (hqueued : r.state = .queued)
    (hgoing : e.worker ≠ .stopped) : (e.enroll r).queue = e.queue ++ [e.jobs.length] :=
  if_pos ⟨hqueued, hgoing⟩

theorem queue_enroll_of_not {e : Engine} {r : Record}
    (h : ¬ (r.state = .queued ∧ e.worker ≠ .stopped)) : (e.enroll r).queue = e.queue :=
  if_neg h

theorem queue_enroll_eq_ite {e : Engine} {r : Record} (hqueued : r.state = .queued) :
    (e.enroll r).queue = if e.worker = .stopped then e.queue else e.queue ++ [e.jobs.length] := by
  split_ifs with hstopped
  · exact queue_enroll_of_not fun h => h.2 hstopped
  · exact queue_enroll hqueued hstopped

theorem getElem?_accept (e : Engine) (job : Job) (q : Nat) (k : Job) :
    (e.accept job).jobs[q]? = some k ↔ e.jobs[q]? = some k ∨ q = e.jobs.length ∧ k = job := by
  rw [jobs_accept, List.getElem?_append]
  split
  · next hq =>
    constructor
    · exact .inl
    · rintro (h | ⟨rfl, -⟩)
      · exact h
      · omega
  · next hq =>
    have hnone : e.jobs[q]? = none := List.getElem?_eq_none (by omega)
    rw [hnone, List.getElem?_singleton]
    by_cases hlast : q = e.jobs.length
    · simp [hlast, eq_comm]
    · rw [if_neg (by omega)]
      simp [hlast]

theorem Indexed.accept (h : e.Indexed) (job : Job) : (e.accept job).Indexed where
  nodup := nodup_enter _ _ h.nodup
  leads id p := by
    rw [position?_accept]
    simp only [getElem?_accept]
    have hlt : ∀ q (k : Job), e.jobs[q]? = some k → q < e.jobs.length := fun q k hk =>
      (List.getElem?_eq_some_iff.1 hk).1
    by_cases hid : id = job.id
    · rw [if_pos hid, Option.some.injEq]
      constructor
      · rintro rfl
        refine ⟨⟨job, .inr ⟨rfl, rfl⟩, hid.symm⟩, fun q k hk _ => ?_⟩
        rcases hk with hk | ⟨rfl, -⟩
        · exact Nat.le_of_lt (hlt q k hk)
        · exact Nat.le_refl _
      · rintro ⟨⟨k, hk, -⟩, hlast⟩
        have hle := hlast e.jobs.length job (.inr ⟨rfl, rfl⟩) hid.symm
        rcases hk with hk | ⟨rfl, -⟩
        · exact absurd (hlt p k hk) (by omega)
        · rfl
    · have hold : ∀ q (k : Job), k.id = id →
          (e.jobs[q]? = some k ∨ q = e.jobs.length ∧ k = job ↔ e.jobs[q]? = some k) := by
        intro q k hk
        refine or_iff_left ?_
        rintro ⟨-, rfl⟩
        exact hid hk.symm
      rw [if_neg hid, h.leads]
      constructor
      · rintro ⟨⟨k, hk, hkid⟩, hlast⟩
        exact ⟨⟨k, (hold p k hkid).2 hk, hkid⟩,
          fun q m hm hmid => hlast q m ((hold q m hmid).1 hm) hmid⟩
      · rintro ⟨⟨k, hk, hkid⟩, hlast⟩
        exact ⟨⟨k, (hold p k hkid).1 hk, hkid⟩,
          fun q m hm hmid => hlast q m ((hold q m hmid).2 hm) hmid⟩

/-! ## Saving leaves the jobs alone -/

section Persist

variable (e : Engine) (files : Tree) (r : Record)

@[simp] theorem settings_persist : (e.persist files r).1.settings = e.settings := by
  unfold persist
  split <;> rfl

@[simp] theorem jobs_persist : (e.persist files r).1.jobs = e.jobs := by
  unfold persist
  split <;> rfl

@[simp] theorem table_persist : (e.persist files r).1.table = e.table := by
  unfold persist
  split <;> rfl

@[simp] theorem queue_persist : (e.persist files r).1.queue = e.queue := by
  unfold persist
  split <;> rfl

@[simp] theorem worker_persist : (e.persist files r).1.worker = e.worker := by
  unfold persist
  split <;> rfl

@[simp] theorem isStopping_persist : (e.persist files r).1.isStopping = e.isStopping := by
  unfold persist
  split <;> rfl

theorem snd_persist : (e.persist files r).2 = (e.store.save files r).2 := by
  unfold persist
  split <;> simp_all

theorem faults_persist (h : (e.persist files r).1.faults = []) :
    e.faults = [] ∧ (e.store.save files r).1 = .ok () := by
  unfold persist at h
  split at h
  · next hsave => exact ⟨h, by rw [hsave]⟩
  · simp at h

end Persist

/-! ## Jobs that stay where they are -/

/-- The ids of all jobs, in the order in which they came. -/
def ids (e : Engine) : List String := e.jobs.map Job.id

theorem getElem?_ids_eq_some {e : Engine} {p : Nat} {id : String} :
    e.ids[p]? = some id ↔ ∃ job, e.jobs[p]? = some job ∧ job.id = id := by
  rw [ids, List.getElem?_map, Option.map_eq_some_iff]

theorem Indexed.congr {e f : Engine} (h : e.Indexed) (htable : f.table = e.table)
    (hids : f.ids = e.ids) : f.Indexed := by
  refine ⟨htable ▸ h.nodup, fun id p => ?_⟩
  have hsome : ∀ (q : Nat) (i : String), (∃ job, f.jobs[q]? = some job ∧ job.id = i) ↔
      ∃ job, e.jobs[q]? = some job ∧ job.id = i := fun q i => by
    rw [← getElem?_ids_eq_some, ← getElem?_ids_eq_some, hids]
  rw [position?, htable, ← position?, h.leads, hsome]
  refine and_congr_right fun _ => forall_congr' fun q => ?_
  constructor
  · intro hlast job hjob hid
    obtain ⟨k, hk, hkid⟩ := (hsome q id).1 ⟨job, hjob, hid⟩
    exact hlast k hk hkid
  · intro hlast job hjob hid
    obtain ⟨k, hk, hkid⟩ := (hsome q id).2 ⟨job, hjob, hid⟩
    exact hlast k hk hkid

theorem Indexed.persist {e : Engine} (h : e.Indexed) (files : Tree) (r : Record) :
    (e.persist files r).1.Indexed :=
  h.congr (table_persist e files r) (by rw [ids, jobs_persist, ids])

theorem getElem?_setJob {e : Engine} {p : Nat} {j : Job} (h : e.jobs[p]? = some j) (k : Job)
    (q : Nat) : (e.setJob p k).jobs[q]? = if q = p then some k else e.jobs[q]? := by
  have hp : p < e.jobs.length := (List.getElem?_eq_some_iff.1 h).1
  change (e.jobs.set p k)[q]? = _
  rw [List.getElem?_set]
  by_cases hq : q = p
  · rw [if_pos hq.symm, if_pos hq, if_pos hp]
  · rw [if_neg (Ne.symm hq), if_neg hq]

theorem length_setJob (e : Engine) (p : Nat) (k : Job) :
    (e.setJob p k).jobs.length = e.jobs.length := List.length_set

theorem ids_setJob {e : Engine} {p : Nat} {j k : Job} (h : e.jobs[p]? = some j)
    (hid : k.id = j.id) : (e.setJob p k).ids = e.ids := by
  refine List.ext_getElem? fun q => ?_
  rw [ids, ids, List.getElem?_map, List.getElem?_map, getElem?_setJob h]
  split_ifs with hq
  · rw [hq, h, Option.map_some, Option.map_some, hid]
  · rfl

theorem ids_accept (e : Engine) (job : Job) : (e.accept job).ids = e.ids ++ [job.id] :=
  List.map_append

theorem notify_eq {e : Engine} {p : Nat} {j : Job} (h : e.jobs[p]? = some j) :
    e.notify p = e.setJob p j.notifyDone := by
  rw [notify, h]

theorem notify_cases (e : Engine) (p : Nat) : e.notify p = e ∨
    ∃ j, e.jobs[p]? = some j ∧ e.notify p = e.setJob p j.notifyDone := by
  cases h : e.jobs[p]? with
  | none => exact .inl (by rw [notify, h])
  | some j => exact .inr ⟨j, rfl, notify_eq h⟩

/-! ## Telling listeners changes nothing but a job -/

section Notify

variable (e : Engine) (p : Nat)

@[simp] theorem settings_notify : (e.notify p).settings = e.settings := by
  unfold notify
  split <;> rfl

@[simp] theorem table_notify : (e.notify p).table = e.table := by
  unfold notify
  split <;> rfl

@[simp] theorem queue_notify : (e.notify p).queue = e.queue := by
  unfold notify
  split <;> rfl

@[simp] theorem worker_notify : (e.notify p).worker = e.worker := by
  unfold notify
  split <;> rfl

@[simp] theorem isStopping_notify : (e.notify p).isStopping = e.isStopping := by
  unfold notify
  split <;> rfl

@[simp] theorem faults_notify : (e.notify p).faults = e.faults := by
  unfold notify
  split <;> rfl

@[simp] theorem length_notify : (e.notify p).jobs.length = e.jobs.length := by
  rcases e.notify_cases p with h | ⟨j, -, h⟩ <;> rw [h]
  exact e.length_setJob p _

@[simp] theorem ids_notify : (e.notify p).ids = e.ids := by
  rcases e.notify_cases p with h | ⟨j, hj, h⟩ <;> rw [h]
  exact ids_setJob hj (congrArg Record.id (Job.sameCore_notifyDone j).record)

end Notify

end FirmwareJobs.Engine

import FirmwareJobs.Proofs.Engine.Table
import Mathlib.Data.List.Nodup

/-!
# Lists of records

Records are listed in the order of their creation, forwards or backwards. When all ids are
distinct, the list of an engine has the record of every job once.
-/

namespace FirmwareJobs.Engine

/-! ## Sorting -/

theorem pairwise_mergeSort_of_keys {compare : Record → Record → Bool} {key : Record → Int}
    (h : ∀ a b, compare a b = true ↔ key a ≤ key b) (records : List Record) :
    (records.mergeSort compare).Pairwise fun r later => key r ≤ key later := by
  refine (List.pairwise_mergeSort (fun a b c hab hbc => ?_) (fun a b => ?_) records).imp
    fun {a b} hab => (h a b).1 hab
  · rw [h] at hab hbc ⊢
    exact Int.le_trans hab hbc
  · rw [Bool.or_eq_true, h, h]
    exact Int.le_total _ _

theorem perm_oldestFirst (records : List Record) : (oldestFirst records).Perm records :=
  List.mergeSort_perm _ _

theorem sorted_oldestFirst (records : List Record) :
    (oldestFirst records).Pairwise fun r later => r.createdAt.rank ≤ later.createdAt.rank :=
  pairwise_mergeSort_of_keys (fun _ _ => decide_eq_true_iff) records

theorem sorted_newestFirst (records : List Record) :
    (newestFirst records).Pairwise fun r later => later.createdAt.rank ≤ r.createdAt.rank := by
  have hkeys := @pairwise_mergeSort_of_keys _ (fun r => -r.createdAt.rank)
    (fun _ _ => decide_eq_true_iff.trans Int.neg_le_neg_iff.symm) records
  exact hkeys.imp fun h => Int.neg_le_neg_iff.1 h

/-! ## The list of an engine -/

def records (e : Engine) : List Record := e.jobs.map (·.record)

theorem map_id_records (e : Engine) : e.records.map Record.id = e.ids := by
  rw [records, ids, List.map_map]
  rfl

variable {e : Engine}

theorem Indexed.position?_of_nodup (h : e.Indexed) (hnodup : e.ids.Nodup) {p : Nat} {job : Job}
    (hjob : e.jobs[p]? = some job) : e.position? job.id = some p := by
  refine (h.leads _ _).2 ⟨⟨job, hjob, rfl⟩, fun q k hk hid => ?_⟩
  have hp := getElem?_ids_eq_some.2 ⟨job, hjob, rfl⟩
  have hq := getElem?_ids_eq_some.2 ⟨k, hk, hid⟩
  obtain ⟨hlt, hval⟩ := List.getElem?_eq_some_iff.1 hp
  obtain ⟨hlt', hval'⟩ := List.getElem?_eq_some_iff.1 hq
  exact Nat.le_of_eq (hnodup.getElem_inj_iff.1 (hval'.trans hval.symm))

theorem Indexed.perm_list (h : e.Indexed) (hnodup : e.ids.Nodup) : e.list.Perm e.records := by
  have hentry : ∀ id p, (id, p) ∈ e.table → ∃ job, e.jobs[p]? = some job ∧ job.id = id :=
    fun id p hmem => ((h.leads id p).1 ((lookup_eq_some_iff_mem h.nodup id p).2 hmem)).1
  have hrecords : e.records.Nodup := List.Nodup.of_map Record.id (by rwa [map_id_records])
  refine (List.mergeSort_perm _ _).trans ((List.perm_ext_iff_of_nodup ?_ hrecords).2 fun r => ?_)
  · refine List.pairwise_filterMap.2 ((List.pairwise_map.1 h.nodup).imp_of_mem ?_)
    rintro ⟨id, p⟩ ⟨id', p'⟩ hmem hmem' hne r hr r' hr' rfl
    obtain ⟨job, hjob, rfl⟩ := hentry id p hmem
    obtain ⟨job', hjob', rfl⟩ := hentry id' p' hmem'
    dsimp only at hr hr'
    rw [hjob] at hr
    rw [hjob'] at hr'
    refine hne (congrArg Record.id ?_)
    exact (Option.some.inj hr).trans (Option.some.inj hr').symm
  · rw [List.mem_filterMap, records, List.mem_map]
    constructor
    · rintro ⟨⟨id, p⟩, -, hr⟩
      obtain ⟨job, hjob, rfl⟩ := Option.map_eq_some_iff.1 hr
      exact ⟨job, List.mem_of_getElem? hjob, rfl⟩
    · rintro ⟨job, hmem, rfl⟩
      obtain ⟨p, hp⟩ := List.getElem?_of_mem hmem
      refine ⟨(job.id, p), ?_, congrArg (Option.map _) hp⟩
      exact (lookup_eq_some_iff_mem h.nodup _ _).1 (h.position?_of_nodup hnodup hp)

end FirmwareJobs.Engine

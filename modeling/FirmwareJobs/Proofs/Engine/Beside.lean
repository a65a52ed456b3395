import FirmwareJobs.Proofs.Engine.Saving
import Mathlib.Data.List.Nodup

/-!
# Files beside the records

Whoever creates a log, or begins to save a record, writes files that are no record files. What is
loaded from the directory stays the same until the draft is moved over the record file. A directory
that is not there takes no files.
-/

namespace FirmwareJobs.Store

open Files

variable {s : Store} {t u : Tree}

/-- A proper tree in which the directory of the store, if it is there, has nothing but files and
directories in it. -/
structure Plain (s : Store) (t : Tree) : Prop where
  proper : t.IsProper
  ordinary : ∀ place name e, t.locate s.home s.directory = .ok place →
    t.entry? (place ++ [name]) = some e → e = .directory ∨ ∃ content, e = .file content

theorem Stands.plain (h : s.Stands t) : s.Plain t := by
  obtain ⟨place, h⟩ := h
  refine ⟨h.proper, fun other name e hother he => ?_⟩
  obtain rfl := Except.ok.inj (h.located.symm.trans hother)
  exact h.ordinary name e he

theorem Plain.stands (h : s.Plain t) (hdir : t.isDirectoryAt s.home s.directory = true) :
    s.Stands t := by
  unfold Tree.isDirectoryAt at hdir
  cases hlocate : t.locate s.home s.directory with
  | error fault => simp [hlocate] at hdir
  | ok place =>
    rw [hlocate] at hdir
    exact ⟨place, h.proper, hlocate, hdir, fun name e => h.ordinary place name e hlocate⟩

theorem Plain.stands_of_createLog (h : s.Plain t) (hdir : s.directory ≠ "") {id : String}
    (hid : IsId id) (hlog : s.createLog t id = .ok u) : s.Stands t := by
  refine h.stands ?_
  change (t.create s.home (s.path (logName id)) >>= _) = _ at hlog
  cases hlocate : t.locate s.home (s.path (logName id)) with
  | error fault =>
    rw [Tree.create, hlocate] at hlog
    contradiction
  | ok target => exact Tree.isDirectoryAt_of_locate_join hdir (isName_logName hid) hlocate

/-! ## What is loaded -/

/-- A file that is no record file makes no difference to what is loaded. -/
theorem StandsAt.loadAll_put {place : Place} {name : String} (h : s.StandsAt t place)
    (hname : IsName name) (hother : Path.extension? name ≠ some "json")
    (hold : t.isDirectory (place ++ [name]) = false) (content : List UInt8) :
    s.loadAll (t.put (place ++ [name]) (.file content)) = s.loadAll t := by
  have hu := h.put hname hold content
  have hsame : ∀ child ∈ t.children place,
      (if Path.extension? child = some "json" then
        s.recordAt? (t.put (place ++ [name]) (.file content)) child else none) =
      if Path.extension? child = some "json" then s.recordAt? t child else none := by
    intro child hchild
    refine ite_congr rfl (fun hjson => recordAt?_congr ?_) fun _ => rfl
    have hne : child ≠ name := fun he => hother (he ▸ hjson)
    refine h.content?_congr hu
      (h.proper.named place child ((Tree.mem_children_iff t place child).1 hchild)) ?_
    rw [Tree.entry?_put _ (by simp), if_neg (by simpa using hne)]
  rw [h.loadAll_eq, hu.loadAll_eq]
  rcases t.children_put place name (.file content) with hchildren | hchildren
  · rw [hchildren, List.filterMap_congr hsame]
  · rw [hchildren, List.filterMap_append, List.filterMap_congr hsame, List.filterMap_cons,
      if_neg hother, List.filterMap_nil, List.append_nil]

theorem StandsAt.loadAll_write {place : Place} {name : String} (h : s.StandsAt t place)
    (hname : IsName name) (hother : Path.extension? name ≠ some "json") {content : List UInt8}
    (hwrite : t.write s.home (s.path name) content = .ok u) : s.loadAll u = s.loadAll t := by
  rcases h.create_cases hname with ⟨fault, hcreate⟩ | ⟨-, hold, hcreate⟩
  · rw [Tree.write, hcreate] at hwrite
    contradiction
  · have hfile := t.isDirectory_put_file place name []
    rw [StandsAt.write_of_create hcreate] at hwrite
    obtain rfl := Except.ok.inj hwrite
    rw [(h.put hname hold []).loadAll_put hname hother hfile, h.loadAll_put hname hother hold]

theorem loadAll_createLog (h : s.Stands t) {id : String} (hid : IsId id)
    (hlog : s.createLog t id = .ok u) : s.loadAll u = s.loadAll t := by
  obtain ⟨place, h⟩ := h
  obtain ⟨-, hold, rfl⟩ := h.of_createLog hid hlog
  exact h.loadAll_put (isName_logName hid) (extension?_logName_ne id) hold []

/-- Until a record has taken its place, what is loaded is what was loaded before. -/
theorem Attempt.loadAll_eq {r : Record} (h : s.Attempt t r false u) (hstands : s.Stands t)
    (hid : IsId r.id) : s.loadAll u = s.loadAll t := by
  obtain ⟨place, hplace⟩ := hstands
  have hdraft : Path.extension? (draftName r.id) ≠ some "json" := by
    rw [extension?_draftName]
    decide
  cases h with
  | unbegun => rfl
  | drafting _ hwrite =>
    rw [draftPath_eq] at hwrite
    exact hplace.loadAll_write (isName_draftName hid) hdraft hwrite
  | failed hsave =>
    unfold save at hsave
    split at hsave
    · rw [← (Prod.mk.inj hsave).2]
    · next drafted hwrite =>
      split at hsave
      · rw [← (Prod.mk.inj hsave).2]
        rw [draftPath_eq] at hwrite
        exact hplace.loadAll_write (isName_draftName hid) hdraft hwrite
      · exact absurd (Prod.mk.inj hsave).1 (by simp)

/-- A record in a new file is loaded beside those that were loaded before. -/
theorem Saved.loadAll_perm {r : Record} (h : Saved s t r (.ok ()) u) (hstands : s.Stands t)
    (hid : IsId r.id) (hnew : s.recordOf? t r.id = none) :
    ∃ before after, s.loadAll t = .ok before ∧ s.loadAll u = .ok after ∧
      after.Perm (r :: before) := by
  obtain ⟨old, hold, holdNodup, holdMem⟩ := exists_files hstands
  obtain ⟨new, hnewLoad, hnewNodup, hnewMem⟩ := exists_files h.stands
  refine ⟨_, _, hold, hnewLoad, ?_⟩
  have hfile (other : Record) : ¬ s.HoldsRecord t (recordName r.id) other := fun hholds => by
    have hrecord : s.recordOf? t r.id = some other := (holdsRecord_iff.1 hholds).2.2
    rw [hnew] at hrecord
    contradiction
  have hfiles : new.Perm ((recordName r.id, r) :: old) := by
    have hnewDistinct := List.Nodup.of_map Prod.fst hnewNodup
    have holdDistinct := List.Nodup.of_map Prod.fst holdNodup
    refine (List.perm_ext_iff_of_nodup hnewDistinct ?_).2 fun (name, other) => ?_
    · exact List.nodup_cons.2 ⟨fun hmem => hfile r ((holdMem _ _).1 hmem), holdDistinct⟩
    · rw [hnewMem, List.mem_cons, Prod.mk.injEq, holdMem, holdsRecord_iff]
      by_cases hname : name = recordName r.id
      · subst hname
        have hself : s.recordAt? u (recordName r.id) = some r := h.recordOf?_self rfl hid.nonempty
        rw [hself, or_iff_left (hfile other)]
        simp [isName_recordName hid, extension?_recordName hid.nonempty, eq_comm]
      · rw [or_iff_right (fun hpair => hname hpair.1), holdsRecord_iff]
        refine and_congr_right fun hisName => and_congr_right fun hjson => ?_
        have hdraft := ne_draftName_of_json hjson r.id
        rw [recordAt?_congr (h.others name hisName hdraft hname)]
  exact hfiles.map Prod.snd

end FirmwareJobs.Store

import FirmwareJobs.Proofs.Engine.Directory
import FirmwareJobs.Proofs.Job.Operation

/-!
# Saves that stop at any point

A save writes a draft and moves it over the record file. Wherever it stops, every record file holds
either what it held before or the whole new record, so what is loaded are the records that were
saved last and those in the files that no save has replaced.
-/

namespace FirmwareJobs.Store

open Files

/-- What an attempt to save a record leaves behind: nothing yet, some part of the draft, what a
failure leaves, or the record in its place. It tells whether the record has taken its place. -/
inductive Attempt (s : Store) (t : Tree) (r : Record) : Bool → Tree → Prop where
  | unbegun : Attempt s t r false t
  | drafting {written : List UInt8} {u : Tree} (hwritten : written <+: recordBytes r)
      (h : t.write s.home (s.draftPath r.id) written = .ok u) : Attempt s t r false u
  | failed {fault : Fault} {u : Tree} (h : s.save t r = (.error fault, u)) : Attempt s t r false u
  | saved {u : Tree} (h : s.save t r = (.ok (), u)) : Attempt s t r true u

/-- One attempt after the other, each of which may stop at any point. The records are those that
have taken their places, in this order. -/
inductive Saves (s : Store) (t : Tree) : List Record → Tree → Prop where
  | start : Saves s t [] t
  | kept {rs : List Record} {r : Record} {u v : Tree} (h : Saves s t rs u) (hid : IsId r.id)
      (hr : Attempt s u r true v) : Saves s t (rs ++ [r]) v
  | lost {rs : List Record} {r : Record} {u v : Tree} (h : Saves s t rs u) (hid : IsId r.id)
      (hr : Attempt s u r false v) : Saves s t rs v

variable {s : Store} {t u v : Tree} {r : Record} {rs : List Record}

/-- The record that was saved last under an id. -/
def lastSaved? (rs : List Record) (id : String) : Option Record :=
  (rs.filter (·.id = id)).getLast?

/-- The directory has a record file with this name, which holds a record with an id. -/
structure HoldsRecord (s : Store) (t : Tree) (name : String) (r : Record) : Prop where
  isName : IsName name
  isRecordFile : Path.extension? name = some "json"
  content : ∃ bytes, s.content? t name = some bytes ∧ Record.format.decode bytes = .ok r
  hasId : r.id ≠ ""

theorem IsId.of_hexDigits {id : String} (hlength : id.toList.length = 32)
    (hdigits : id.toList ⊆ "0123456789abcdef".toList) : IsId id := by
  refine ⟨?_, fun h => absurd (hdigits h) (by decide), fun h => absurd (hdigits h) (by decide)⟩
  rintro rfl
  exact absurd hlength (by decide)

theorem holdsRecord_iff {name : String} : s.HoldsRecord t name r ↔
    IsName name ∧ Path.extension? name = some "json" ∧ s.recordAt? t name = some r := by
  constructor
  · rintro ⟨hname, hjson, ⟨bytes, hbytes, hdecode⟩, hid⟩
    refine ⟨hname, hjson, ?_⟩
    change (s.content? t name).bind _ = _
    simp [hbytes, hdecode, Except.toOption, hid]
  · rintro ⟨hname, hjson, hr⟩
    refine ⟨hname, hjson, ?_, id_ne_of_recordAt? hr⟩
    obtain ⟨bytes, hbytes, hread⟩ := Option.bind_eq_some_iff.1 hr
    obtain ⟨record, hrecord, hsome⟩ := Option.bind_eq_some_iff.1 hread
    refine ⟨bytes, hbytes, ?_⟩
    split_ifs at hsome
    rw [← Option.some.inj hsome]
    cases hdecode : Record.format.decode bytes with
    | error e => rw [hdecode] at hrecord; contradiction
    | ok a => rw [hdecode] at hrecord; exact congrArg Except.ok (Option.some.inj hrecord)

/-! ## One attempt -/

/-- Wherever an attempt stops, it has saved the record or has left it as it was. -/
theorem Attempt.exists_saved {done : Bool} (h : s.Attempt t r done u) (hstands : s.Stands t)
    (hid : IsId r.id) :
    ∃ outcome, Saved s t r outcome u ∧ (outcome = .ok () ↔ done = true) := by
  have hsaved := saved_save hstands hid
  cases h with
  | unbegun => exact ⟨.error .missing, ⟨hstands, fun _ _ _ _ => rfl, nofun, fun _ => rfl⟩, by simp⟩
  | drafting hwritten h =>
    obtain ⟨place, hplace⟩ := hstands
    have hdraft := isName_draftName hid
    rw [draftPath_eq] at h
    rcases hplace.write_cases hdraft _ with ⟨fault, hwrite⟩ | ⟨drafted, hwrite, hd, -, hentry⟩
    · rw [h] at hwrite
      contradiction
    · obtain rfl := Except.ok.inj (h.symm.trans hwrite)
      have hother (name : String) (hname : IsName name) (hne : name ≠ draftName r.id) :
          s.content? u name = s.content? t name := by
        refine hplace.content?_congr hd hname ?_
        rw [hentry, if_neg (by simpa using hne)]
      exact ⟨.error .missing, ⟨⟨place, hd⟩, fun name hname hne _ => hother name hname hne, nofun,
        fun _ => hother _ (isName_recordName hid) (recordName_ne_draftName r.id r.id)⟩, by simp⟩
  | @failed _ fault h =>
    rw [h] at hsaved
    exact ⟨_, hsaved, by simp⟩
  | saved h =>
    rw [h] at hsaved
    exact ⟨_, hsaved, by simp⟩

/-! ## Many attempts -/

theorem lastSaved?_concat (rs : List Record) (r : Record) (id : String) :
    lastSaved? (rs ++ [r]) id = if r.id = id then some r else lastSaved? rs id := by
  rw [lastSaved?, List.filter_append]
  by_cases h : r.id = id
  · simp [h]
  · simp [h, lastSaved?]

/-- A record file holds the record that was saved last under its id; without one it is as it was at
the start. -/
structure Survives (s : Store) (t : Tree) (rs : List Record) (u : Tree) : Prop where
  stands : s.Stands u
  isId : ∀ r ∈ rs, IsId r.id
  last : ∀ id r, lastSaved? rs id = some r → s.recordAt? u (recordName id) = some r
  others : ∀ name, IsName name → Path.extension? name = some "json" →
    (∀ r ∈ rs, name ≠ recordName r.id) → s.recordAt? u name = s.recordAt? t name

theorem mem_of_lastSaved? {id : String} (h : lastSaved? rs id = some r) : r ∈ rs ∧ r.id = id := by
  simpa using List.mem_filter.1 (List.mem_of_getLast? h)

theorem Survives.kept (h : Survives s t rs u) (hid : IsId r.id) (hr : s.Attempt u r true v) :
    Survives s t (rs ++ [r]) v := by
  obtain ⟨outcome, hsaved, hdone⟩ := hr.exists_saved h.stands hid
  have hok := hdone.2 rfl
  refine ⟨hsaved.stands, fun x hx => ?_, fun id x hx => ?_, fun name hname hjson hnew => ?_⟩
  · rcases List.mem_append.1 hx with hx | hx
    · exact h.isId x hx
    · rwa [List.mem_singleton.1 hx]
  · rw [lastSaved?_concat] at hx
    split_ifs at hx with he
    · obtain rfl := Option.some.inj hx
      rw [← he]
      exact hsaved.recordOf?_self hok hid.nonempty
    · obtain ⟨hmem, rfl⟩ := mem_of_lastSaved? hx
      exact (hsaved.recordOf?_other (h.isId x hmem) (Ne.symm he)).trans (h.last _ x hx)
  · have hdraft := ne_draftName_of_json hjson r.id
    have hother := hsaved.others name hname hdraft (hnew r (by simp))
    rw [recordAt?_congr hother]
    exact h.others name hname hjson fun x hx => hnew x (List.mem_append_left _ hx)

theorem Survives.lost (h : Survives s t rs u) (hid : IsId r.id) (hr : s.Attempt u r false v) :
    Survives s t rs v := by
  obtain ⟨outcome, hsaved, hdone⟩ := hr.exists_saved h.stands hid
  have hsame := hsaved.sameRecords fun hok => Bool.false_ne_true (hdone.1 hok)
  refine ⟨hsaved.stands, h.isId, fun id x hx => ?_, fun name hname hjson hnew => ?_⟩
  · obtain ⟨hmem, rfl⟩ := mem_of_lastSaved? hx
    exact (hsame.recordOf? (h.isId x hmem)).trans (h.last _ x hx)
  · exact (recordAt?_congr (hsame name hname hjson)).trans (h.others name hname hjson hnew)

theorem Saves.survives (h : s.Saves t rs u) (hstands : s.Stands t) : Survives s t rs u := by
  induction h with
  | start =>
    exact ⟨hstands, (fun _ hr => nomatch hr), fun id r h => by simp [lastSaved?] at h,
      fun _ _ _ _ => rfl⟩
  | kept _ hid hr ih => exact ih.kept hid hr
  | lost _ hid hr ih => exact ih.lost hid hr

/-! ## What is loaded -/

theorem exists_files (h : s.Stands t) : ∃ files : List (String × Record),
    s.loadAll t = .ok (files.map Prod.snd) ∧ (files.map Prod.fst).Nodup ∧
      ∀ name r, (name, r) ∈ files ↔ s.HoldsRecord t name r := by
  obtain ⟨names, hnodup, hnames, hall, hload⟩ := loadAll_of_stands h
  let record? (name : String) : Option Record :=
    if Path.extension? name = some "json" then s.recordAt? t name else none
  refine ⟨names.filterMap fun name => (record? name).map (name, ·), ?_, ?_, fun name r => ?_⟩
  · rw [hload, List.map_filterMap]
    refine congrArg (fun f => Except.ok (List.filterMap f names)) (funext fun name => ?_)
    rw [Option.map_map]
    exact Option.map_id'.symm
  · rw [List.Nodup, List.pairwise_map, List.pairwise_filterMap]
    refine hnodup.imp fun {name name'} hne x hx x' hx' hsame => hne ?_
    obtain ⟨a, -, rfl⟩ := Option.map_eq_some_iff.1 hx
    obtain ⟨a', -, rfl⟩ := Option.map_eq_some_iff.1 hx'
    exact hsame
  · rw [List.mem_filterMap, holdsRecord_iff]
    constructor
    · rintro ⟨other, hother, hmap⟩
      obtain ⟨a, ha, hpair⟩ := Option.map_eq_some_iff.1 hmap
      obtain ⟨rfl, rfl⟩ := Prod.mk.inj hpair
      obtain ⟨hjson, hrecord⟩ := Option.ite_none_right_eq_some.1 ha
      exact ⟨hnames _ hother, hjson, hrecord⟩
    · rintro ⟨hname, hjson, hrecord⟩
      refine ⟨name, hall name r hname hrecord, ?_⟩
      simp [record?, hjson, hrecord]

/-- After saves that may have stopped anywhere, loading gives one record for each record file: the
one saved last under an id in the file of that id, and in every other file the readable record that
was there at the start. Nothing else is loaded, and nothing keeps the others from loading. -/
theorem loadAll_of_saves (hstands : s.Stands t) (hsaves : s.Saves t rs u) :
    ∃ files : List (String × Record),
      s.loadAll u = .ok (files.map Prod.snd) ∧ (files.map Prod.fst).Nodup ∧
      ∀ name r, (name, r) ∈ files ↔
        (∃ id, name = recordName id ∧ lastSaved? rs id = some r) ∨
          (∀ saved ∈ rs, name ≠ recordName saved.id) ∧ s.HoldsRecord t name r := by
  have hsurvives := hsaves.survives hstands
  obtain ⟨files, hload, hnodup, hfiles⟩ := exists_files hsurvives.stands
  refine ⟨files, hload, hnodup, fun name r => ?_⟩
  rw [hfiles, holdsRecord_iff, holdsRecord_iff]
  constructor
  · rintro ⟨hname, hjson, hr⟩
    by_cases hnew : ∀ saved ∈ rs, name ≠ recordName saved.id
    · exact .inr ⟨hnew, hname, hjson, (hsurvives.others name hname hjson hnew).symm.trans hr⟩
    · simp only [not_forall, not_not] at hnew
      obtain ⟨saved, hsaved, rfl⟩ := hnew
      have hne : rs.filter (·.id = saved.id) ≠ [] :=
        List.ne_nil_of_mem (List.mem_filter.2 ⟨hsaved, by simp⟩)
      obtain ⟨last, hlast⟩ : ∃ last, lastSaved? rs saved.id = some last :=
        ⟨_, List.getLast?_eq_some_getLast hne⟩
      have hsame := (hsurvives.last _ last hlast).symm.trans hr
      exact .inl ⟨saved.id, rfl, hlast.trans hsame⟩
  · rintro (⟨id, rfl, hlast⟩ | ⟨hnew, hname, hjson, hr⟩)
    · obtain ⟨hmem, rfl⟩ := mem_of_lastSaved? hlast
      have hid := hsurvives.isId r hmem
      exact ⟨isName_recordName hid, extension?_recordName hid.nonempty, hsurvives.last _ r hlast⟩
    · exact ⟨hname, hjson, (hsurvives.others name hname hjson hnew).trans hr⟩

/-! ## A directory with other files -/

def keptStore : Store := ⟨"/jobs", []⟩

/-- A job directory with a record, an unfinished one, a note and more files. -/
def keptDirectory (more : List (Place × Entry)) : Tree :=
  ⟨(["jobs"], .directory) :: (["jobs", "old.json"], .file (recordBytes Job.specimen)) ::
    (["jobs", "torn.json"], .file [0x7B]) :: (["jobs", "notes.txt"], .file []) :: more⟩

theorem entry?_keptDirectory (name : String) :
    Tree.entry? (keptDirectory []) (["jobs"] ++ [name]) =
    if name = "old.json" then some (.file (recordBytes Job.specimen))
    else if name = "torn.json" then some (.file [0x7B])
    else if name = "notes.txt" then some (.file []) else none := by
  rw [Tree.entry?_concat]
  change List.lookup (["jobs"] ++ [name]) [_, _, _, _] = _
  simp only [Tree.lookup_cons_place]
  simp

theorem standsAt_keptDirectory : keptStore.StandsAt (keptDirectory []) ["jobs"] := by
  refine ⟨by decide, rfl, rfl, fun name e he => ?_⟩
  rw [entry?_keptDirectory] at he
  split_ifs at he
  all_goals exact .inr ⟨_, (Option.some.inj he).symm⟩

def newId : String := "0000000000000000000000000000000a"

def newRecord (state : State) : Record := { Job.specimen with id := newId, state }

theorem save_keptDirectory : keptStore.save (keptDirectory []) (newRecord .queued) =
    (.ok (), keptDirectory [(["jobs", recordName newId],
      .file (recordBytes (newRecord .queued)))]) := by
  have hwrite (bytes : List UInt8) :
      (keptDirectory []).write [] "/jobs/0000000000000000000000000000000a.json.tmp" bytes =
        .ok (keptDirectory [(["jobs", draftName newId], .file bytes)]) := rfl
  have hrename (bytes : List UInt8) :
      (keptDirectory [(["jobs", draftName newId], .file bytes)]).rename []
        "/jobs/0000000000000000000000000000000a.json.tmp"
        "/jobs/0000000000000000000000000000000a.json" =
        .ok (keptDirectory [(["jobs", recordName newId], .file bytes)]) := rfl
  exact save_of_rename_eq_ok (hwrite _) (hrename _)

/-- The directory when the next save of that record has written a part of the draft. -/
def stoppedDirectory : Tree :=
  keptDirectory [(["jobs", recordName newId], .file (recordBytes (newRecord .queued))),
    (["jobs", draftName newId], .file ((recordBytes (newRecord .running)).take 9))]

theorem saves_newRecord :
    keptStore.Saves (keptDirectory []) [newRecord .queued] stoppedDirectory := by
  have hid : IsId newId := .of_hexDigits (by decide) (by decide)
  have hwrite (saved bytes : List UInt8) :
      (keptDirectory [(["jobs", recordName newId], .file saved)]).write []
        "/jobs/0000000000000000000000000000000a.json.tmp" bytes =
        .ok (keptDirectory [(["jobs", recordName newId], .file saved),
          (["jobs", draftName newId], .file bytes)]) := rfl
  have hqueued : keptStore.Saves (keptDirectory []) ([] ++ [newRecord .queued]) _ :=
    .kept .start hid (.saved save_keptDirectory)
  exact .lost (r := newRecord .running) hqueued hid (.drafting (List.take_prefix 9 _) (hwrite _ _))

/-- The new record is loaded as it was saved, and the old one beside it. -/
theorem loadAll_of_saves_newRecord : keptStore.Stands (keptDirectory []) ∧
    keptStore.Saves (keptDirectory []) [newRecord .queued] stoppedDirectory ∧
    ∃ files : List (String × Record),
      keptStore.loadAll stoppedDirectory = .ok (files.map Prod.snd) ∧
      (files.map Prod.fst).Nodup ∧ (recordName newId, newRecord .queued) ∈ files ∧
      ("old.json", Job.specimen) ∈ files := by
  have hstands : keptStore.Stands (keptDirectory []) := ⟨_, standsAt_keptDirectory⟩
  obtain ⟨files, hload, hnodup, hfiles⟩ := loadAll_of_saves hstands saves_newRecord
  have hlast : lastSaved? [newRecord .queued] newId = some (newRecord .queued) := by
    simp [lastSaved?, newRecord]
  have hother : ∀ saved ∈ [newRecord .queued], "old.json" ≠ recordName saved.id := by decide
  have hold : keptStore.content? (keptDirectory []) "old.json" =
      some (recordBytes Job.specimen) := rfl
  exact ⟨hstands, saves_newRecord, files, hload, hnodup, (hfiles _ _).2 (.inl ⟨newId, rfl, hlast⟩),
    (hfiles _ _).2 (.inr ⟨hother, by decide, by decide, ⟨_, hold, decode_recordBytes _⟩,
      by decide⟩)⟩

end FirmwareJobs.Store

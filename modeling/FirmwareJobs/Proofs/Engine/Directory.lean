import FirmwareJobs.Proofs.Engine.RecordFile
import FirmwareJobs.Proofs.Files.Locating
import Mathlib.Data.List.TakeDrop

/-!
# The job directory

While the job directory is there, each of its files has a content of its own: saving a record
changes the record file and the draft of that job only, creating a log changes that log only, and
what is loaded are the records of the readable record files.
-/

namespace FirmwareJobs.Store

open Files

variable {s : Store} {t u : Tree}

/-- The name is not too long for a file in the directory. -/
def Fits (s : Store) (name : String) : Prop :=
  (s.path name).utf8ByteSize ≤ 4095 ∧ name.utf8ByteSize ≤ 255

/-- The content of the file with a name. -/
def content? (s : Store) (t : Tree) (name : String) : Option (List UInt8) :=
  t.content? s.home (s.path name)

def contentOf : Option Entry → Option (List UInt8)
  | some (.file content) => some content
  | _ => none

/-- The directory of the store is at a place, with nothing but files and directories in it. -/
structure StandsAt (s : Store) (t : Tree) (place : Place) : Prop where
  proper : t.IsProper
  located : t.locate s.home s.directory = .ok place
  isDirectory : t.isDirectory place = true
  ordinary : ∀ name e, t.entry? (place ++ [name]) = some e →
    e = .directory ∨ ∃ content, e = .file content

/-- The directory of the store is there. -/
def Stands (s : Store) (t : Tree) : Prop := ∃ place, s.StandsAt t place

theorem Stands.isDirectoryAt (h : s.Stands t) : t.isDirectoryAt s.home s.directory = true := by
  obtain ⟨place, h⟩ := h
  rw [Tree.isDirectoryAt, h.located]
  exact h.isDirectory

namespace StandsAt

variable {place : Place} {name : String}

theorem locate_of_fits (h : s.StandsAt t place) (hname : IsName name) (hfits : s.Fits name) :
    t.locate s.home (s.path name) = .ok (place ++ [name]) := by
  have hlong : ¬ (4095 < (s.path name).utf8ByteSize ∨ 255 < name.utf8ByteSize) := by
    have := hfits.1
    have := hfits.2
    omega
  exact (Tree.locate_join h.located h.isDirectory hname).trans (if_neg hlong)

theorem locate_of_not_fits (h : s.StandsAt t place) (hname : IsName name)
    (hfits : ¬ s.Fits name) : t.locate s.home (s.path name) = .error .nameTooLong := by
  have hlong : 4095 < (s.path name).utf8ByteSize ∨ 255 < name.utf8ByteSize := by
    rw [Fits] at hfits
    omega
  exact (Tree.locate_join h.located h.isDirectory hname).trans (if_pos hlong)

theorem content?_of_fits (h : s.StandsAt t place) (hname : IsName name) (hfits : s.Fits name) :
    s.content? t name = contentOf (t.entry? (place ++ [name])) := by
  rw [content?, Tree.content?, Tree.read, h.locate_of_fits hname hfits]
  change (t.demand (place ++ [name]) >>= _).toOption = _
  rw [Tree.demand]
  cases he : t.entry? (place ++ [name]) with
  | none => rfl
  | some e =>
    rcases h.ordinary name e he with rfl | ⟨content, rfl⟩ <;> rfl

theorem content?_of_not_fits (h : s.StandsAt t place) (hname : IsName name)
    (hfits : ¬ s.Fits name) : s.content? t name = none := by
  rw [content?, Tree.content?, Tree.read, h.locate_of_not_fits hname hfits]
  rfl

theorem content?_congr (h : s.StandsAt t place) (hu : s.StandsAt u place) (hname : IsName name)
    (hentry : u.entry? (place ++ [name]) = t.entry? (place ++ [name])) :
    s.content? u name = s.content? t name := by
  by_cases hfits : s.Fits name
  · rw [h.content?_of_fits hname hfits, hu.content?_of_fits hname hfits, hentry]
  · rw [h.content?_of_not_fits hname hfits, hu.content?_of_not_fits hname hfits]

theorem of_keepsDirectories (h : s.StandsAt t place) (hu : u.IsProper)
    (hkeeps : Tree.KeepsDirectories t u)
    (hordinary : ∀ name e, u.entry? (place ++ [name]) = some e →
      e = .directory ∨ ∃ content, e = .file content) : s.StandsAt u place :=
  ⟨hu, Tree.locate_of_keepsDirectories hkeeps h.located h.isDirectory,
    hkeeps place h.isDirectory, hordinary⟩

theorem put (h : s.StandsAt t place) (hname : IsName name)
    (hold : t.isDirectory (place ++ [name]) = false) (content : List UInt8) :
    s.StandsAt (t.put (place ++ [name]) (.file content)) place := by
  refine h.of_keepsDirectories (Tree.isProper_put h.proper hname h.isDirectory hold)
    (Tree.keepsDirectories_put (by simp) hold) fun other e he => ?_
  rw [Tree.entry?_put _ (by simp)] at he
  split at he
  · exact .inr ⟨content, (Option.some.inj he).symm⟩
  · exact h.ordinary other e he

theorem erase (h : s.StandsAt t place) (hold : t.isDirectory (place ++ [name]) = false) :
    s.StandsAt (t.erase (place ++ [name])) place := by
  refine h.of_keepsDirectories (Tree.isProper_erase h.proper (by simp) hold)
    (Tree.keepsDirectories_erase h.proper (by simp) hold) fun other e he => ?_
  rw [h.proper.entry?_erase_leaf (by simp) hold] at he
  split at he
  · contradiction
  · exact h.ordinary other e he

/-! ## Writing files -/

/-- The outcome of an attempt to write a file. -/
theorem create_cases (h : s.StandsAt t place) (hname : IsName name) :
    (∃ fault, t.create s.home (s.path name) = .error fault) ∨
      s.Fits name ∧ t.isDirectory (place ++ [name]) = false ∧
        t.create s.home (s.path name) =
          .ok (place ++ [name], t.put (place ++ [name]) (.file [])) := by
  by_cases hfits : s.Fits name
  · rw [Tree.create, h.locate_of_fits hname hfits]
    have hparent : t.entry? place = some .directory :=
      (Tree.isDirectory_iff t place).1 h.isDirectory
    cases he : t.entry? (place ++ [name]) with
    | none =>
      refine .inr ⟨hfits, by simp [Tree.isDirectory, he], ?_⟩
      simp [bind, Except.bind, Tree.writable, he, hparent]
    | some e =>
      rcases h.ordinary name e he with rfl | ⟨content, rfl⟩
      · exact .inl ⟨.isDirectory, by simp [bind, Except.bind, Tree.writable, he]⟩
      · exact .inr ⟨hfits, by simp [Tree.isDirectory, he],
          by simp [bind, Except.bind, Tree.writable, he]⟩
  · refine .inl ⟨.nameTooLong, ?_⟩
    rw [Tree.create, h.locate_of_not_fits hname hfits]
    rfl

theorem write_of_create (hcreate : t.create s.home (s.path name) =
      .ok (place ++ [name], t.put (place ++ [name]) (.file []))) (content : List UInt8) :
    t.write s.home (s.path name) content =
      .ok ((t.put (place ++ [name]) (.file [])).put (place ++ [name]) (.file content)) := by
  rw [Tree.write, hcreate]
  change Tree.append _ _ _ = _
  rw [Tree.append, Tree.entry?_put _ (by simp), if_pos rfl]
  rfl

theorem write_cases (h : s.StandsAt t place) (hname : IsName name) (content : List UInt8) :
    (∃ fault, t.write s.home (s.path name) content = .error fault) ∨
      ∃ u, t.write s.home (s.path name) content = .ok u ∧ s.StandsAt u place ∧ s.Fits name ∧
        ∀ q, u.entry? q =
          if q = place ++ [name] then some (.file content) else t.entry? q := by
  rcases h.create_cases hname with ⟨fault, hcreate⟩ | ⟨hfits, hold, hcreate⟩
  · exact .inl ⟨fault, by rw [Tree.write, hcreate]; rfl⟩
  · have hfile := t.isDirectory_put_file place name []
    refine .inr ⟨_, write_of_create hcreate content, (h.put hname hold []).put hname hfile content,
      hfits, fun q => ?_⟩
    rw [Tree.entry?_put _ (by simp), Tree.entry?_put _ (by simp)]
    split_ifs <;> rfl

theorem rename_cases (h : s.StandsAt t place) (hname : IsName name) {target : String}
    (htarget : IsName target) (hne : name ≠ target) (hfits : s.Fits name) {content : List UInt8}
    (hfile : t.entry? (place ++ [name]) = some (.file content)) :
    (∃ fault, t.rename s.home (s.path name) (s.path target) = .error fault) ∨
      ∃ u, t.rename s.home (s.path name) (s.path target) = .ok u ∧ s.StandsAt u place ∧
        s.Fits target ∧
        ∀ q, u.entry? q =
          if q = place ++ [target] then some (.file content)
          else if q = place ++ [name] then none else t.entry? q := by
  have hplaces : place ++ [name] ≠ place ++ [target] := by simpa using hne
  by_cases htfits : s.Fits target
  · have hrename : t.rename s.home (s.path name) (s.path target) =
        (t.writable (place ++ [target])).bind fun _ =>
          .ok ((t.erase (place ++ [name])).put (place ++ [target]) (.file content)) := by
      rw [Tree.rename, h.locate_of_fits hname hfits, h.locate_of_fits htarget htfits]
      simp only [bind, Except.bind, Tree.demand, hfile, if_neg hplaces]
    rw [hrename]
    cases hwritable : t.writable (place ++ [target]) with
    | error fault => exact .inl ⟨fault, rfl⟩
    | ok old =>
      have hleaf : t.isDirectory (place ++ [name]) = false := by
        rw [Tree.isDirectory, hfile]
        rfl
      have hold : t.isDirectory (place ++ [target]) = false := by
        by_contra hdir
        rw [Bool.not_eq_false, Tree.isDirectory_iff] at hdir
        rw [Tree.writable, hdir] at hwritable
        contradiction
      have hentry := h.proper.entry?_erase_leaf (p := place ++ [name]) (by simp) hleaf
      refine .inr ⟨_, rfl, (h.erase hleaf).put htarget ?_ content, htfits, fun q => ?_⟩
      · rw [Tree.isDirectory, hentry, if_neg (Ne.symm hplaces)]
        exact hold
      · rw [Tree.entry?_put _ (by simp), hentry]
  · refine .inl ⟨.nameTooLong, ?_⟩
    rw [Tree.rename, h.locate_of_fits hname hfits, h.locate_of_not_fits htarget htfits]
    simp only [bind, Except.bind, Tree.demand, hfile]

end StandsAt

/-! ## The names of a job's files -/

def recordName (id : String) : String := id ++ ".json"

def draftName (id : String) : String := id ++ ".json.tmp"

def logName (id : String) : String := id ++ ".log"

theorem recordPath_eq (s : Store) (id : String) : s.recordPath id = s.path (recordName id) := rfl

theorem draftPath_eq (s : Store) (id : String) : s.draftPath id = s.path (draftName id) := rfl

/-- An id that can be part of a file name. -/
structure IsId (id : String) : Prop where
  nonempty : id ≠ ""
  noSlash : '/' ∉ id.toList
  noNul : '\x00' ∉ id.toList

theorem isName_append {id ending : String} (h : IsId id) (hlength : 2 ≤ ending.length)
    (hslash : '/' ∉ ending.toList) (hnul : '\x00' ∉ ending.toList) : IsName (id ++ ending) := by
  have hlong : 2 < (id ++ ending).length := by
    have hid : id.length ≠ 0 := by simpa using h.nonempty
    rw [String.length_append]
    omega
  constructor
  · simp [h.nonempty]
  · rw [String.toList_append, List.mem_append, not_or]
    exact ⟨h.noSlash, hslash⟩
  · rw [String.toList_append, List.mem_append, not_or]
    exact ⟨h.noNul, hnul⟩
  · intro he
    rw [he] at hlong
    exact absurd hlong (by decide)
  · intro he
    rw [he] at hlong
    exact absurd hlong (by decide)

theorem isName_recordName {id : String} (h : IsId id) : IsName (recordName id) :=
  isName_append h (by decide) (by decide) (by decide)

theorem isName_draftName {id : String} (h : IsId id) : IsName (draftName id) :=
  isName_append h (by decide) (by decide) (by decide)

theorem isName_logName {id : String} (h : IsId id) : IsName (logName id) :=
  isName_append h (by decide) (by decide) (by decide)

theorem ne_of_endings {a b : String} {c d : Char} (ha : a.toList.getLast? = some c)
    (hb : b.toList.getLast? = some d) (hne : c ≠ d) : a ≠ b := by
  rintro rfl
  rw [ha] at hb
  exact hne (Option.some.inj hb)

theorem recordName_ne_draftName (id other : String) : recordName id ≠ draftName other :=
  ne_of_endings (c := 'n') (d := 'p') (by simp [recordName]) (by simp [draftName]) (by decide)

theorem recordName_ne_logName (id other : String) : recordName id ≠ logName other :=
  ne_of_endings (c := 'n') (d := 'g') (by simp [recordName]) (by simp [logName]) (by decide)

theorem draftName_ne_logName (id other : String) : draftName id ≠ logName other :=
  ne_of_endings (c := 'p') (d := 'g') (by simp [draftName]) (by simp [logName]) (by decide)

theorem recordName_inj {id other : String} : recordName id = recordName other ↔ id = other := by
  rw [recordName, recordName, ← String.toList_inj, String.toList_append, String.toList_append,
    List.append_left_inj, String.toList_inj]

theorem logName_inj {id other : String} : logName id = logName other ↔ id = other := by
  rw [logName, logName, ← String.toList_inj, String.toList_append, String.toList_append,
    List.append_left_inj, String.toList_inj]

theorem extension?_of_toList {name : String} {stem after : List Char}
    (h : name.toList = stem ++ '.' :: after) (hafter : '.' ∉ after) :
    Path.extension? name = if stem = [] then none else some (String.ofList after) := by
  have hreverse : name.toList.reverse = after.reverse ++ '.' :: stem.reverse := by
    simp [h]
  have hpoint : ∀ c ∈ after.reverse, (c != '.') = true := fun c hc =>
    bne_iff_ne.2 fun he => hafter (he ▸ List.mem_reverse.1 hc)
  have hspan : name.toList.reverse.span (· != '.') = (after.reverse, '.' :: stem.reverse) := by
    rw [List.span_eq_takeWhile_dropWhile, hreverse, List.takeWhile_append_of_pos hpoint,
      List.dropWhile_append_of_pos hpoint]
    simp
  rw [Path.extension?, hspan]
  cases hstem : stem.reverse with
  | nil => simp [List.reverse_eq_nil_iff.1 hstem]
  | cons c cs =>
    rw [if_neg fun he => by simp [he] at hstem]
    simp

theorem extension?_draftName (id : String) : Path.extension? (draftName id) = some "tmp" := by
  have hname : (draftName id).toList = (id.toList ++ ".json".toList) ++ '.' :: "tmp".toList := by
    simp [draftName]
  exact (extension?_of_toList hname (by decide)).trans (if_neg (by simp))

theorem extension?_recordName {id : String} (h : id ≠ "") :
    Path.extension? (recordName id) = some "json" := by
  have hname : (recordName id).toList = id.toList ++ '.' :: "json".toList := by simp [recordName]
  exact (extension?_of_toList hname (by decide)).trans (if_neg (by simpa using h))

theorem extension?_logName_ne (id : String) : Path.extension? (logName id) ≠ some "json" := by
  have hname : (logName id).toList = id.toList ++ '.' :: "log".toList := by simp [logName]
  rw [extension?_of_toList hname (by decide)]
  split_ifs <;> decide

theorem ne_draftName_of_json {name : String} (h : Path.extension? name = some "json")
    (id : String) : name ≠ draftName id := by
  rintro rfl
  rw [extension?_draftName] at h
  exact absurd h (by decide)

theorem isId_of_isName_recordName {id : String} (h : IsName (recordName id)) (hid : id ≠ "") :
    IsId id := by
  have hchars : (recordName id).toList = id.toList ++ ".json".toList := String.toList_append
  have hslash := h.noSlash
  have hnul := h.noNul
  rw [hchars, List.mem_append, not_or] at hslash hnul
  exact ⟨hid, hslash.1, hnul.1⟩

/-! ## Saving -/

/-- What an attempt to save a record does: the record file has the record or is as before, and no
other file has changed but the draft. -/
structure Saved (s : Store) (t : Tree) (r : Record) (outcome : Except Fault Unit) (u : Tree) :
    Prop where
  stands : s.Stands u
  others : ∀ name, IsName name → name ≠ draftName r.id → name ≠ recordName r.id →
    s.content? u name = s.content? t name
  saved : outcome = .ok () → s.content? u (recordName r.id) = some (recordBytes r)
  kept : outcome ≠ .ok () → s.content? u (recordName r.id) = s.content? t (recordName r.id)

theorem save_of_write_eq_error {r : Record} {fault : Fault}
    (hwrite : t.write s.home (s.path (draftName r.id)) (recordBytes r) = .error fault) :
    s.save t r = (.error fault, t) := by
  rw [← draftPath_eq] at hwrite
  unfold save
  rw [hwrite]

theorem save_of_rename_eq_error {r : Record} {drafted : Tree} {fault : Fault}
    (hwrite : t.write s.home (s.path (draftName r.id)) (recordBytes r) = .ok drafted)
    (hrename : drafted.rename s.home (s.path (draftName r.id)) (s.path (recordName r.id)) =
      .error fault) : s.save t r = (.error fault, drafted) := by
  rw [← draftPath_eq] at hwrite hrename
  rw [← recordPath_eq] at hrename
  unfold save
  rw [hwrite]
  dsimp only
  rw [hrename]

theorem save_of_rename_eq_ok {r : Record} {drafted : Tree}
    (hwrite : t.write s.home (s.path (draftName r.id)) (recordBytes r) = .ok drafted)
    (hrename : drafted.rename s.home (s.path (draftName r.id)) (s.path (recordName r.id)) = .ok u) :
    s.save t r = (.ok (), u) := by
  rw [← draftPath_eq] at hwrite hrename
  rw [← recordPath_eq] at hrename
  unfold save
  rw [hwrite]
  dsimp only
  rw [hrename]

theorem saved_save (h : s.Stands t) {r : Record} (hid : IsId r.id) :
    Saved s t r (s.save t r).1 (s.save t r).2 := by
  obtain ⟨place, h⟩ := h
  have hdraft := isName_draftName hid
  have hrecord := isName_recordName hid
  have hne : draftName r.id ≠ recordName r.id := Ne.symm (recordName_ne_draftName r.id r.id)
  rcases h.write_cases hdraft (recordBytes r) with
    ⟨fault, hwrite⟩ | ⟨drafted, hwrite, hd, hfits, hentry⟩
  · rw [save_of_write_eq_error hwrite]
    exact ⟨⟨place, h⟩, fun _ _ _ _ => rfl, by simp, fun _ => rfl⟩
  · have hdrafted : ∀ name, IsName name → name ≠ draftName r.id →
        s.content? drafted name = s.content? t name := fun name hname hother => by
      refine h.content?_congr hd hname ?_
      rw [hentry, if_neg (by simpa using hother)]
    have hfile : drafted.entry? (place ++ [draftName r.id]) = some (.file (recordBytes r)) := by
      rw [hentry, if_pos rfl]
    rcases hd.rename_cases hdraft hrecord hne hfits hfile with
      ⟨fault, hrename⟩ | ⟨u, hrename, hu, hrfits, hmoved⟩
    · rw [save_of_rename_eq_error hwrite hrename]
      exact ⟨⟨place, hd⟩, fun name hname hother _ => hdrafted name hname hother, by simp,
        fun _ => hdrafted _ hrecord (Ne.symm hne)⟩
    · rw [save_of_rename_eq_ok hwrite hrename]
      refine ⟨⟨place, hu⟩, fun name hname hother hother' => ?_, fun _ => ?_,
        fun hfail => absurd rfl hfail⟩
      · rw [← hdrafted name hname hother]
        refine hd.content?_congr hu hname ?_
        rw [hmoved, if_neg (by simpa using hother'), if_neg (by simpa using hother)]
      · rw [hu.content?_of_fits hrecord hrfits, hmoved, if_pos rfl]
        rfl

/-! ## Creating a log -/

theorem StandsAt.of_createLog {place : Place} (h : s.StandsAt t place) {id : String} (hid : IsId id)
    (hcreate : s.createLog t id = .ok u) :
    s.Fits (logName id) ∧ t.isDirectory (place ++ [logName id]) = false ∧
      u = t.put (place ++ [logName id]) (.file []) := by
  change (t.create s.home (s.path (logName id)) >>= _) = _ at hcreate
  rcases h.create_cases (isName_logName hid) with ⟨fault, hfault⟩ | ⟨hfits, hold, hok⟩
  · rw [hfault] at hcreate
    contradiction
  · rw [hok] at hcreate
    exact ⟨hfits, hold, (Except.ok.inj hcreate).symm⟩

theorem createLog_eq_ok (h : s.Stands t) {id : String} (hid : IsId id)
    (hcreate : s.createLog t id = .ok u) :
    s.Stands u ∧ s.content? u (logName id) = some [] ∧
      ∀ name, IsName name → name ≠ logName id → s.content? u name = s.content? t name := by
  obtain ⟨place, h⟩ := h
  have hlog := isName_logName hid
  obtain ⟨hfits, hold, rfl⟩ := h.of_createLog hid hcreate
  have hu := h.put hlog hold []
  refine ⟨⟨place, hu⟩, ?_, fun name hname hother => h.content?_congr hu hname ?_⟩
  · rw [hu.content?_of_fits hlog hfits, Tree.entry?_put _ (by simp), if_pos rfl]
    rfl
  · rw [Tree.entry?_put _ (by simp), if_neg (by simpa using hother)]

/-! ## Records -/

/-- The record in the file with a name. -/
def recordAt? (s : Store) (t : Tree) (name : String) : Option Record :=
  s.readRecord? t (s.path name)

theorem recordAt?_congr {name : String} (h : s.content? u name = s.content? t name) :
    s.recordAt? u name = s.recordAt? t name := by
  change (s.content? u name).bind _ = (s.content? t name).bind _
  rw [h]

theorem recordAt?_of_content {name : String} {r : Record}
    (h : s.content? t name = some (recordBytes r)) (hid : r.id ≠ "") :
    s.recordAt? t name = some r := by
  change (s.content? t name).bind _ = _
  rw [h]
  simp [decode_recordBytes, Except.toOption, hid]

theorem id_ne_of_recordAt? {name : String} {r : Record} (h : s.recordAt? t name = some r) :
    r.id ≠ "" := by
  obtain ⟨bytes, -, hread⟩ := Option.bind_eq_some_iff.1 h
  obtain ⟨record, -, hrecord⟩ := Option.bind_eq_some_iff.1 hread
  split_ifs at hrecord with hid
  rw [← Option.some.inj hrecord]
  exact hid

theorem StandsAt.loadAll_eq {place : Place} (h : s.StandsAt t place) :
    s.loadAll t = .ok ((t.children place).filterMap fun name =>
      if Path.extension? name = some "json" then s.recordAt? t name else none) := by
  have hlist : t.list s.home s.directory = .ok (t.children place) := by
    rw [Tree.list, h.located]
    simp [bind, Except.bind, Tree.demand, (Tree.isDirectory_iff t place).1 h.isDirectory]
  rw [loadAll, hlist]
  rfl

/-- What is loaded are the records of the record files. -/
theorem loadAll_of_stands (h : s.Stands t) : ∃ names : List String, names.Nodup ∧
    (∀ name ∈ names, IsName name) ∧
    (∀ name r, IsName name → s.recordAt? t name = some r → name ∈ names) ∧
    s.loadAll t = .ok (names.filterMap fun name =>
      if Path.extension? name = some "json" then s.recordAt? t name else none) := by
  obtain ⟨place, h⟩ := h
  refine ⟨t.children place, h.proper.nodup_children place, fun name hname => ?_,
    fun name r hname hr => ?_, h.loadAll_eq⟩
  · exact h.proper.named place name ((Tree.mem_children_iff t place name).1 hname)
  · rw [Tree.mem_children_iff, ← Tree.entry?_concat]
    by_contra hnone
    have hmissing : s.content? t name = none := by
      by_cases hfits : s.Fits name
      · rw [h.content?_of_fits hname hfits, Option.not_isSome_iff_eq_none.1 hnone]
        rfl
      · exact h.content?_of_not_fits hname hfits
    change (s.content? t name).bind _ = _ at hr
    rw [hmissing] at hr
    contradiction

/-- The saved record of a job. -/
def recordOf? (s : Store) (t : Tree) (id : String) : Option Record := s.recordAt? t (recordName id)

/-- Every record is in the file that is named after its id. -/
def Tidy (s : Store) (t : Tree) : Prop :=
  ∀ name r, IsName name → Path.extension? name = some "json" → s.recordAt? t name = some r →
    name = recordName r.id

theorem Tidy.id_eq (h : s.Tidy t) {id : String} (hid : IsId id) {r : Record}
    (hr : s.recordOf? t id = some r) : r.id = id :=
  (recordName_inj.1 (h _ r (isName_recordName hid) (extension?_recordName hid.nonempty) hr)).symm

/-- A tidy directory has each id once, and what is loaded are the saved records. -/
theorem loadAll_of_tidy (h : s.Stands t) (htidy : s.Tidy t) : ∃ records : List Record,
    s.loadAll t = .ok records ∧ (records.map Record.id).Nodup ∧
      ∀ r, r ∈ records ↔ IsId r.id ∧ s.recordOf? t r.id = some r := by
  obtain ⟨names, hnodup, hnames, hall, hload⟩ := loadAll_of_stands h
  have hfile : ∀ name ∈ names, ∀ r, (if Path.extension? name = some "json" then s.recordAt? t name
      else none) = some r → name = recordName r.id ∧ s.recordAt? t name = some r := by
    intro name hname r hr
    obtain ⟨hjson, hr⟩ := Option.ite_none_right_eq_some.1 hr
    exact ⟨htidy name r (hnames name hname) hjson hr, hr⟩
  refine ⟨_, hload, ?_, fun r => ?_⟩
  · rw [List.Nodup, List.pairwise_map, List.pairwise_filterMap]
    refine hnodup.imp_of_mem fun {name name'} hname hname' hne r hr r' hr' hid => hne ?_
    rw [(hfile name hname r hr).1, (hfile name' hname' r' hr').1, hid]
  · rw [List.mem_filterMap]
    constructor
    · rintro ⟨name, hname, hr⟩
      obtain ⟨rfl, hrecord⟩ := hfile name hname r hr
      exact ⟨isId_of_isName_recordName (hnames _ hname) (id_ne_of_recordAt? hrecord), hrecord⟩
    · rintro ⟨hid, hr⟩
      refine ⟨recordName r.id, hall _ r (isName_recordName hid) hr, ?_⟩
      rw [if_pos (extension?_recordName hid.nonempty)]
      exact hr

/-! ## The same records -/

/-- The record files have the same content. -/
def SameRecords (s : Store) (t u : Tree) : Prop :=
  ∀ name, IsName name → Path.extension? name = some "json" → s.content? u name = s.content? t name

theorem SameRecords.tidy (h : s.SameRecords t u) (htidy : s.Tidy t) : s.Tidy u :=
  fun name r hname hjson hr =>
    htidy name r hname hjson ((recordAt?_congr (h name hname hjson)).symm.trans hr)

theorem SameRecords.recordOf? (h : s.SameRecords t u) {id : String} (hid : IsId id) :
    s.recordOf? u id = s.recordOf? t id :=
  recordAt?_congr (h _ (isName_recordName hid) (extension?_recordName hid.nonempty))

theorem sameRecords_createLog (h : s.Stands t) {id : String} (hid : IsId id)
    (hcreate : s.createLog t id = .ok u) : s.SameRecords t u := by
  refine fun name hname hjson => (createLog_eq_ok h hid hcreate).2.2 name hname ?_
  rintro rfl
  exact extension?_logName_ne id hjson

section Saved

variable {r : Record} {outcome : Except Fault Unit}

theorem Saved.recordOf?_self (h : Saved s t r outcome u) (hok : outcome = .ok ())
    (hid : r.id ≠ "") : s.recordOf? u r.id = some r :=
  recordAt?_of_content (h.saved hok) hid

theorem Saved.recordOf?_failed (h : Saved s t r outcome u) (hfail : outcome ≠ .ok ()) :
    s.recordOf? u r.id = s.recordOf? t r.id :=
  recordAt?_congr (h.kept hfail)

theorem Saved.sameRecords (h : Saved s t r outcome u) (hfail : outcome ≠ .ok ()) :
    s.SameRecords t u := by
  intro name hname hjson
  by_cases hrecord : name = recordName r.id
  · rw [hrecord]
    exact h.kept hfail
  · exact h.others name hname (ne_draftName_of_json hjson r.id) hrecord

theorem Saved.recordOf?_other (h : Saved s t r outcome u) {id : String} (hid : IsId id)
    (hne : id ≠ r.id) : s.recordOf? u id = s.recordOf? t id :=
  recordAt?_congr (h.others _ (isName_recordName hid) (recordName_ne_draftName id r.id)
    (fun he => hne (recordName_inj.1 he)))

theorem Saved.content?_log (h : Saved s t r outcome u) {id : String} (hid : IsId id) :
    s.content? u (logName id) = s.content? t (logName id) :=
  h.others _ (isName_logName hid) (Ne.symm (draftName_ne_logName r.id id))
    (Ne.symm (recordName_ne_logName r.id id))

theorem Saved.tidy (h : Saved s t r outcome u) (hid : r.id ≠ "") (htidy : s.Tidy t) :
    s.Tidy u := by
  intro name other hname hjson hother
  have hdraft := ne_draftName_of_json hjson r.id
  by_cases hrecord : name = recordName r.id
  · subst hrecord
    by_cases hok : outcome = .ok ()
    · rw [recordAt?_of_content (h.saved hok) hid] at hother
      rw [Option.some.inj hother]
    · rw [recordAt?_congr (h.kept hok)] at hother
      exact htidy _ other hname hjson hother
  · rw [recordAt?_congr (h.others name hname hdraft hrecord)] at hother
    exact htidy name other hname hjson hother

end Saved

end FirmwareJobs.Store

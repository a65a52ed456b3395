import FirmwareJobs.Proofs.Files.Entries

/-!
# Finding a file of a directory

The path of a file is the path of its directory with one name more. It leads to the place of that
name in the directory, in every tree in which the directory is found, unless it is too long.
-/

namespace FirmwareJobs

/-! ## Parts of a path -/

namespace Path

theorem parts_ne_nil (cs : List Char) : parts cs ≠ [] := by
  cases cs with
  | nil => simp [parts]
  | cons c cs =>
    unfold parts
    split_ifs
    · simp
    · split <;> simp

theorem parts_append_slash (xs ys : List Char) :
    parts (xs ++ '/' :: ys) = parts xs ++ parts ys := by
  induction xs with
  | nil => simp [parts]
  | cons c xs ih =>
    rw [List.cons_append, parts, ih, parts]
    split_ifs
    · rfl
    · cases hxs : parts xs with
      | nil => exact absurd hxs (parts_ne_nil xs)
      | cons part rest => rfl

theorem parts_of_noSlash {cs : List Char} (h : '/' ∉ cs) : parts cs = [cs] := by
  induction cs with
  | nil => rfl
  | cons c cs ih =>
    rw [List.mem_cons, not_or] at h
    rw [parts, if_neg (Ne.symm h.1), ih h.2]

theorem isAbsolute_of_noSlash {name : String} (h : '/' ∉ name.toList) :
    isAbsolute name = false := by
  unfold isAbsolute
  cases hcs : name.toList with
  | nil => rfl
  | cons c cs =>
    rw [hcs, List.mem_cons, not_or] at h
    simpa using Ne.symm h.1

theorem toList_join {directory name : String} (hdir : directory ≠ "") (hname : '/' ∉ name.toList) :
    ∃ slash, (slash = [] ∧ directory.toList.getLast? = some '/' ∨ slash = ['/']) ∧
      (join directory name).toList = directory.toList ++ slash ++ name.toList := by
  rw [join, isAbsolute_of_noSlash hname, if_neg Bool.false_ne_true]
  cases hlast : directory.toList.getLast? with
  | none =>
    rw [List.getLast?_eq_none_iff, String.toList_eq_nil_iff] at hlast
    exact absurd hlast hdir
  | some c =>
    by_cases hc : c = '/'
    · exact ⟨[], .inl ⟨rfl, by rw [hc]⟩, by simp [hc]⟩
    · exact ⟨['/'], .inr rfl, by simp [hc]⟩

end Path

namespace Files

theorem names_of_isName {name : String} (hname : IsName name) : names name = [name] := by
  have hne : name.toList.isEmpty = false := by simpa using hname.nonempty
  rw [names, Path.parts_of_noSlash hname.noSlash, List.filterMap_cons, hne, String.ofList_toList]
  rfl

theorem names_join {directory name : String} (hdir : directory ≠ "") (hname : IsName name) :
    names (Path.join directory name) = names directory ++ [name] := by
  let keep := fun part : List Char => if part.isEmpty then none else some (String.ofList part)
  have hlast : (Path.parts name.toList).filterMap keep = [name] := names_of_isName hname
  obtain ⟨slash, hslash, hchars⟩ := Path.toList_join hdir hname.noSlash
  change (Path.parts (Path.join directory name).toList).filterMap keep =
    (Path.parts directory.toList).filterMap keep ++ [name]
  rw [hchars]
  rcases hslash with ⟨rfl, hend⟩ | rfl
  · -- The directory ends with a slash, after which its last part is empty.
    obtain ⟨cs, hcs⟩ := List.getLast?_eq_some_iff.1 hend
    have hempty : (Path.parts []).filterMap keep = [] := rfl
    rw [hcs, List.append_nil, List.append_assoc, List.singleton_append, Path.parts_append_slash,
      Path.parts_append_slash, List.filterMap_append, List.filterMap_append, hlast, hempty,
      List.append_nil]
  · rw [List.append_assoc, List.singleton_append, Path.parts_append_slash, List.filterMap_append,
      hlast]

theorem isAbsolute_join {directory name : String} (hdir : directory ≠ "")
    (hname : '/' ∉ name.toList) :
    Path.isAbsolute (Path.join directory name) = Path.isAbsolute directory := by
  obtain ⟨slash, -, hchars⟩ := Path.toList_join hdir hname
  have hne : directory.toList ≠ [] := by simpa using hdir
  rw [Path.isAbsolute, Path.isAbsolute, hchars, List.append_assoc,
    List.head?_append_of_ne_nil _ hne]

namespace Tree

/-! ## Walking -/

variable {t u : Tree}

theorem walk_append (here : Place) (xs ys : List String) :
    t.walk here (xs ++ ys) = (t.walk here xs).bind fun p => t.walk p ys := by
  induction xs generalizing here with
  | nil => rfl
  | cons x xs ih =>
    rw [List.cons_append, walk, walk]
    cases t.entry? here with
    | none => rfl
    | some e =>
      cases e with
      | directory =>
        dsimp only
        split_ifs
        · exact ih _
        · exact ih _
        · rfl
        · exact ih _
      | file | program | sink | full => rfl

theorem walk_name {p : Place} {name : String} (hp : t.isDirectory p = true) (hname : IsName name) :
    t.walk p [name] =
      if 255 < name.utf8ByteSize then .error .nameTooLong else .ok (p ++ [name]) := by
  rw [isDirectory_iff] at hp
  rw [walk, hp]
  simp only [if_neg hname.notHere, if_neg hname.notAbove, walk]

theorem walk_of_keepsDirectories (h : KeepsDirectories t u) {here place : Place}
    {path : List String} (hwalk : t.walk here path = .ok place) : u.walk here path = .ok place := by
  induction path generalizing here with
  | nil => exact hwalk
  | cons name path ih =>
    rw [walk] at hwalk
    cases he : t.entry? here with
    | none =>
      rw [he] at hwalk
      contradiction
    | some e =>
      rw [he] at hwalk
      cases e with
      | directory =>
        have hu : u.entry? here = some .directory :=
          (isDirectory_iff u here).1 (h here ((isDirectory_iff t here).2 he))
        rw [walk, hu]
        dsimp only at hwalk ⊢
        split_ifs at hwalk ⊢
        · exact ih hwalk
        · exact ih hwalk
        · exact ih hwalk
      | file | program | sink | full => contradiction

/-! ## Locating -/

/-- Where a walk starts. -/
def origin (here : Place) (path : String) : Place := if Path.isAbsolute path then [] else here

/-- What is left of locating after the walk: a path that ends with a slash leads to no file. -/
def arrive (t : Tree) (path : String) (place : Place) : Except Fault Place :=
  if path.toList.getLast? = some '/' ∧ !t.isDirectory place then
    match t.entry? place with
    | some _ => .error .notDirectory
    | none => .ok place
  else .ok place

theorem locate_eq (t : Tree) (here : Place) (path : String) :
    t.locate here path =
      if path = "" then .error .missing
      else if '\x00' ∈ path.toList then .error .nulInName
      else if 4095 < path.utf8ByteSize then .error .nameTooLong
      else (t.walk (origin here path) (names path)).bind (t.arrive path) := by
  unfold locate
  by_cases hempty : path = ""
  · simp [hempty, bind, Except.bind]
  by_cases hnul : '\x00' ∈ path.toList
  · simp [hempty, hnul, bind, Except.bind]
  by_cases hlong : 4095 < path.utf8ByteSize
  · simp [hempty, hnul, hlong, bind, Except.bind]
  · simp only [hempty, hnul, hlong, bind, Except.bind, List.contains_eq_mem,
      decide_false, Bool.false_eq_true, if_false]
    rfl

theorem arrive_eq_ok {path : String} {place target : Place}
    (h : t.arrive path place = .ok target) : target = place := by
  unfold arrive at h
  split_ifs at h
  · cases hentry : t.entry? place with
    | none =>
      rw [hentry] at h
      exact (Except.ok.inj h).symm
    | some e =>
      rw [hentry] at h
      contradiction
  · exact (Except.ok.inj h).symm

theorem arrive_of_isDirectory {path : String} {place : Place} (h : t.isDirectory place = true) :
    t.arrive path place = .ok place := by
  rw [arrive, if_neg (by simp [h])]

theorem arrive_of_noSlash {path : String} (h : path.toList.getLast? ≠ some '/') (place : Place) :
    t.arrive path place = .ok place := by
  rw [arrive, if_neg (fun ⟨hslash, _⟩ => h hslash)]

theorem of_locate_eq_ok {here place : Place} {path : String} (h : t.locate here path = .ok place) :
    path ≠ "" ∧ '\x00' ∉ path.toList ∧ path.utf8ByteSize ≤ 4095 ∧
      t.walk (origin here path) (names path) = .ok place := by
  rw [locate_eq] at h
  split_ifs at h with hempty hnul hlong
  refine ⟨hempty, hnul, Nat.not_lt.1 hlong, ?_⟩
  cases hwalk : t.walk (origin here path) (names path) with
  | error fault =>
    rw [hwalk] at h
    contradiction
  | ok reached =>
    rw [hwalk] at h
    rw [arrive_eq_ok h]

theorem locate_of_keepsDirectories (h : KeepsDirectories t u) {here place : Place} {path : String}
    (hlocate : t.locate here path = .ok place) (hdir : t.isDirectory place = true) :
    u.locate here path = .ok place := by
  obtain ⟨hempty, hnul, hlong, hwalk⟩ := of_locate_eq_ok hlocate
  rw [locate_eq, if_neg hempty, if_neg hnul, if_neg (Nat.not_lt.2 hlong),
    walk_of_keepsDirectories h hwalk]
  exact arrive_of_isDirectory (h place hdir)

/-- The path of a file leads into the directory that its own path leads to. -/
theorem locate_join {here place : Place} {directory name : String}
    (hlocate : t.locate here directory = .ok place) (hdir : t.isDirectory place = true)
    (hname : IsName name) :
    t.locate here (Path.join directory name) =
      if 4095 < (Path.join directory name).utf8ByteSize ∨ 255 < name.utf8ByteSize then
        .error .nameTooLong
      else .ok (place ++ [name]) := by
  obtain ⟨hempty, hnul, -, hwalk⟩ := of_locate_eq_ok hlocate
  obtain ⟨slash, hslash, hchars⟩ := Path.toList_join hempty hname.noSlash
  have hnamechars : name.toList ≠ [] := by simpa using hname.nonempty
  have hjoined : Path.join directory name ≠ "" := by
    intro he
    rw [he] at hchars
    simp [hname.nonempty] at hchars
  have hnojoined : '\x00' ∉ (Path.join directory name).toList := by
    have hslashes : '\x00' ∉ slash := by
      rcases hslash with ⟨rfl, -⟩ | rfl <;> decide
    simp only [hchars, List.mem_append, not_or]
    exact ⟨⟨hnul, hslashes⟩, hname.noNul⟩
  have hend : (Path.join directory name).toList.getLast? ≠ some '/' := by
    rw [hchars, List.getLast?_append_of_ne_nil _ hnamechars]
    exact fun h => hname.noSlash (List.mem_of_getLast? h)
  have horigin : origin here (Path.join directory name) = origin here directory := by
    rw [origin, origin, isAbsolute_join hempty hname.noSlash]
  rw [locate_eq, if_neg hjoined, if_neg hnojoined, horigin, names_join hempty hname, walk_append,
    hwalk]
  change (if _ then _ else ((t.walk place [name]).bind _)) = _
  rw [walk_name hdir hname]
  by_cases hlong : 4095 < (Path.join directory name).utf8ByteSize
  · rw [if_pos hlong, if_pos (.inl hlong)]
  · rw [if_neg hlong]
    by_cases hname : 255 < name.utf8ByteSize
    · rw [if_pos hname, if_pos (.inr hname)]
      rfl
    · rw [if_neg hname, if_neg (not_or.2 ⟨hlong, hname⟩)]
      exact arrive_of_noSlash hend _

theorem isDirectoryAt_of_locate_join {t : Tree} {here target : Place} {directory name : String}
    (hdir : directory ≠ "") (hname : IsName name)
    (h : t.locate here (Path.join directory name) = .ok target) :
    t.isDirectoryAt here directory = true := by
  obtain ⟨-, hnul, hlong, hwalk⟩ := of_locate_eq_ok h
  obtain ⟨slash, -, hchars⟩ := Path.toList_join hdir hname.noSlash
  have hjoin : Path.join directory name = directory ++ (String.ofList slash ++ name) := by
    rw [← String.toList_inj, hchars]
    simp
  have hnodir : '\x00' ∉ directory.toList := fun hmem => hnul (by simp [hchars, hmem])
  have hshort : ¬ 4095 < directory.utf8ByteSize := by
    rw [hjoin, String.utf8ByteSize_append] at hlong
    omega
  have horigin : origin here (Path.join directory name) = origin here directory := by
    rw [origin, origin, isAbsolute_join hdir hname.noSlash]
  rw [horigin, names_join hdir hname, walk_append] at hwalk
  cases hplace : t.walk (origin here directory) (names directory) with
  | error fault =>
    rw [hplace] at hwalk
    contradiction
  | ok place =>
    rw [hplace] at hwalk
    change t.walk place [name] = .ok target at hwalk
    have hentry : t.isDirectory place = true := by
      rw [isDirectory_iff]
      rw [walk] at hwalk
      split at hwalk
      · contradiction
      · assumption
      · contradiction
    have hlocate : t.locate here directory = .ok place := by
      rw [locate_eq, if_neg hdir, if_neg hnodir, if_neg hshort, hplace]
      exact arrive_of_isDirectory hentry
    rw [isDirectoryAt, hlocate]
    exact hentry

end Tree

end Files

end FirmwareJobs

import FirmwareJobs.Proofs.Files.Locating

/-!
# Appending to a file

What is appended to a file that a path leads to is found behind its content by everybody who takes
that path.
-/

namespace FirmwareJobs.Files.Tree

/-- The file that a path leads to: its place and its content. -/
def file? (t : Tree) (here : Place) (path : String) : Option (Place × List UInt8) :=
  match t.locate here path with
  | .ok place =>
    match t.entry? place with
    | some (.file content) => some (place, content)
    | _ => none
  | .error _ => none

variable {t : Tree} {here place : Place} {path : String} {content : List UInt8}

theorem file?_eq_some_iff : t.file? here path = some (place, content) ↔
    t.locate here path = .ok place ∧ t.entry? place = some (.file content) := by
  unfold file?
  cases t.locate here path with
  | error fault => simp
  | ok reached =>
    simp only [Except.ok.injEq]
    constructor
    · intro h
      split at h
      · next hentry =>
        obtain ⟨rfl, rfl⟩ := Prod.mk.inj (Option.some.inj h)
        exact ⟨rfl, hentry⟩
      · contradiction
    · rintro ⟨rfl, hentry⟩
      simp [hentry]

theorem content?_of_file? (h : t.file? here path = some (place, content)) :
    t.content? here path = some content := by
  obtain ⟨hlocate, hentry⟩ := file?_eq_some_iff.1 h
  simp [content?, read, hlocate, hentry, demand, bind, Except.bind, Except.toOption]

theorem openAppend_of_file? (h : t.file? here path = some (place, content)) :
    t.openAppend here path = .ok (place, t) := by
  obtain ⟨hlocate, hentry⟩ := file?_eq_some_iff.1 h
  simp [openAppend, hlocate, writable, hentry, bind, Except.bind]

theorem noSlash_of_locate (hlocate : t.locate here path = .ok place)
    (hentry : t.entry? place = some (.file content)) : path.toList.getLast? ≠ some '/' := by
  obtain ⟨hempty, hnul, hlong, hwalk⟩ := of_locate_eq_ok hlocate
  intro hslash
  rw [locate_eq, if_neg hempty, if_neg hnul, if_neg (Nat.not_lt.2 hlong), hwalk] at hlocate
  have hnot : t.isDirectory place = false := by simp [isDirectory, hentry]
  simp [Except.bind, arrive, hslash, hnot, hentry] at hlocate

theorem append_of_file? (h : t.file? here path = some (place, content)) (bytes : List UInt8) :
    ∃ u : Tree, t.append place bytes = .ok u ∧
      u.file? here path = some (place, content ++ bytes) := by
  obtain ⟨hlocate, hentry⟩ := file?_eq_some_iff.1 h
  have hplace : place ≠ [] := by
    rintro rfl
    simp [Tree.entry?] at hentry
  have hold : t.isDirectory place = false := by simp [isDirectory, hentry]
  have hkeeps : KeepsDirectories t (t.put place (.file (content ++ bytes))) :=
    keepsDirectories_put hplace hold
  refine ⟨t.put place (.file (content ++ bytes)), by simp [append, hentry], ?_⟩
  rw [file?_eq_some_iff]
  constructor
  · obtain ⟨hempty, hnul, hlong, hwalk⟩ := of_locate_eq_ok hlocate
    rw [locate_eq, if_neg hempty, if_neg hnul, if_neg (Nat.not_lt.2 hlong),
      walk_of_keepsDirectories hkeeps hwalk]
    exact arrive_of_noSlash (noSlash_of_locate hlocate hentry) place
  · rw [entry?_put t hplace, if_pos rfl]

end FirmwareJobs.Files.Tree

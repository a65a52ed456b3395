import FirmwareJobs.Log.Window
import Mathlib.Data.List.DropRight

/-! # What the window retains

The window after any number of pushes is the end of the whole numbered log. From this form follow
its recent lines and its answer for every offset. A window is made for at least one line.
-/

namespace FirmwareJobs.Log

/-- The lines of a log with their numbers; the first number follows `start`. -/
def numbered (start : Nat) : List String → List (Nat × String)
  | [] => []
  | line :: rest => (start + 1, line) :: numbered (start + 1) rest

@[simp] theorem numbered_nil (start : Nat) : numbered start [] = [] := rfl

@[simp] theorem length_numbered (start : Nat) (lines : List String) :
    (numbered start lines).length = lines.length := by
  induction lines generalizing start with
  | nil => rfl
  | cons line rest ih => simp [numbered, ih]

theorem numbered_append (start : Nat) (lines more : List String) :
    numbered start (lines ++ more) =
      numbered start lines ++ numbered (start + lines.length) more := by
  induction lines generalizing start with
  | nil => simp
  | cons line rest ih =>
    simp only [List.cons_append, numbered, ih, List.length_cons]
    rw [show start + 1 + rest.length = start + (rest.length + 1) by omega]

@[simp] theorem map_snd_numbered (start : Nat) (lines : List String) :
    (numbered start lines).map Prod.snd = lines := by
  induction lines generalizing start with
  | nil => rfl
  | cons line rest ih => simp [numbered, ih]

theorem take_numbered (start count : Nat) (lines : List String) :
    (numbered start lines).take count = numbered start (lines.take count) := by
  induction lines generalizing start count with
  | nil => simp
  | cons line rest ih =>
    cases count with
    | zero => rfl
    | succ count => simp [numbered, ih]

theorem drop_numbered (start count : Nat) (lines : List String) :
    (numbered start lines).drop count = numbered (start + count) (lines.drop count) := by
  induction lines generalizing start count with
  | nil => simp
  | cons line rest ih =>
    cases count with
    | zero => rfl
    | succ count =>
      simp only [numbered, List.drop_succ_cons, ih]
      rw [show start + 1 + count = start + (count + 1) by omega]

theorem getLast?_numbered (start : Nat) {lines : List String} (h : lines ≠ []) :
    ((numbered start lines).getLast?).map Prod.fst = some (start + lines.length) := by
  obtain ⟨rest, line, rfl⟩ := List.eq_nil_or_concat lines |>.resolve_left h
  simp [numbered_append, numbered, Nat.add_assoc]

theorem exists_of_mem_numbered {start n : Nat} {line : String} {lines : List String}
    (h : (n, line) ∈ numbered start lines) :
    ∃ before behind, n = start + before.length + 1 ∧ lines = before ++ line :: behind := by
  induction lines generalizing start with
  | nil => contradiction
  | cons first rest ih =>
    rcases List.mem_cons.1 h with hfirst | hrest
    · cases hfirst
      exact ⟨[], rest, rfl, rfl⟩
    · obtain ⟨before, behind, rfl, rfl⟩ := ih hrest
      exact ⟨first :: before, behind, by simp only [List.length_cons]; omega, rfl⟩

namespace Window

/-- The window after exactly `lines` were pushed. -/
def holding (capacity : Nat) (lines : List String) : Window :=
  ⟨max capacity 1, lines.rtake (max capacity 1), (numbered 0 lines).rtake (max capacity 1),
    lines.length⟩

theorem ofCapacity_eq (capacity : Nat) : ofCapacity capacity = holding capacity [] := by
  simp [ofCapacity, holding]

theorem enqueue_rtake {α : Type} (items : List α) (item : α) (count : Nat) :
    enqueue (count + 1) (items.rtake (count + 1)) item = (items ++ [item]).rtake (count + 1) := by
  rw [enqueue, List.rtake_concat_succ]
  congr 1
  simp only [List.rtake, List.length_drop]
  by_cases h : count + 1 ≤ items.length
  · rw [if_pos (by omega), List.drop_drop]
    congr 1
    omega
  · rw [if_neg (by omega)]
    congr 1
    omega

theorem push_holding (capacity : Nat) (lines : List String) (line : String) :
    (holding capacity lines).push line = holding capacity (lines ++ [line]) := by
  obtain ⟨count, hcount⟩ : ∃ count, max capacity 1 = count + 1 := ⟨max capacity 1 - 1, by omega⟩
  simp only [push, holding, hcount, enqueue_rtake, numbered_append, Nat.zero_add, numbered,
    List.length_append, List.length_singleton]

theorem pushAll_append (w : Window) (lines more : List String) :
    w.pushAll (lines ++ more) = (w.pushAll lines).pushAll more := List.foldl_append

theorem last_pushAll (w : Window) (lines : List String) :
    (w.pushAll lines).last = w.last + lines.length := by
  induction lines generalizing w with
  | nil => rfl
  | cons line rest ih =>
    change ((w.push line).pushAll rest).last = _
    rw [ih, List.length_cons]
    simp only [push]
    omega

theorem pushAll_holding (capacity : Nat) (lines more : List String) :
    (holding capacity lines).pushAll more = holding capacity (lines ++ more) := by
  induction more generalizing lines with
  | nil => simp [pushAll]
  | cons line rest ih =>
    have hrest := ih (lines ++ [line])
    rw [← push_holding, List.append_assoc] at hrest
    exact hrest

/-- After any pushes the window is the end of the whole log. -/
theorem pushAll_ofCapacity (capacity : Nat) (lines : List String) :
    (ofCapacity capacity).pushAll lines = holding capacity lines := by
  rw [ofCapacity_eq, pushAll_holding, List.nil_append]

@[simp] theorem last_holding (capacity : Nat) (lines : List String) :
    (holding capacity lines).last = lines.length := rfl

theorem entries_holding (capacity : Nat) (lines : List String) :
    (holding capacity lines).entries =
      numbered (lines.length - max capacity 1) (lines.rtake (max capacity 1)) := by
  simp [holding, List.rtake, drop_numbered]

theorem bounds_of_mem_entries {capacity n : Nat} {lines : List String} {line : String}
    (h : (n, line) ∈ (holding capacity lines).entries) :
    lines.length < n + max capacity 1 ∧ n ≤ lines.length := by
  rw [entries_holding] at h
  obtain ⟨before, behind, hn, hlines⟩ := exists_of_mem_numbered h
  have hlength := congrArg List.length hlines
  simp only [List.rtake, List.length_drop, List.length_append, List.length_cons] at hlength
  omega

theorem recent_holding (capacity : Nat) (lines : List String) :
    (holding capacity lines).recent = lines.rtake (max capacity 1) := rfl

theorem first?_holding (capacity : Nat) {lines : List String} (h : lines ≠ []) :
    (holding capacity lines).first? = some (lines.length - max capacity 1 + 1) := by
  have hlen : 0 < lines.length := List.length_pos_iff.mpr h
  have hrest : lines.rtake (max capacity 1) ≠ [] := by
    apply List.ne_nil_of_length_pos
    simp only [List.rtake, List.length_drop]
    omega
  rw [first?, entries_holding]
  cases hl : lines.rtake (max capacity 1) with
  | nil => exact absurd hl hrest
  | cons line rest => rfl

theorem after_nil (capacity since limit : Nat) :
    (holding capacity []).after since limit = .empty := by
  simp [holding, after, first?]

/-- An offset before the retained lines is answered with the number of the last line. -/
theorem after_of_evicted (limit : Nat) {capacity since : Nat} {lines : List String}
    (h : since + max capacity 1 < lines.length) :
    (holding capacity lines).after since limit = .evicted lines.length := by
  have hne : lines ≠ [] := List.ne_nil_of_length_pos (by omega)
  simp only [after, first?_holding capacity hne]
  rw [if_pos (by omega)]
  rfl

theorem after_of_upToDate (limit : Nat) {capacity since : Nat} {lines : List String}
    (hne : lines ≠ []) (h : lines.length ≤ since) :
    (holding capacity lines).after since limit = .upToDate := by
  simp only [after, first?_holding capacity hne]
  rw [if_neg (by omega), if_pos (by rwa [last_holding])]

/-- An offset whose next line is retained is answered with the lines from there on. -/
theorem after_of_retained {capacity since limit : Nat} {lines : List String}
    (hkept : lines.length ≤ since + max capacity 1) (hnew : since < lines.length)
    (hlimit : 1 ≤ limit) :
    (holding capacity lines).after since limit =
      .lines (numbered since ((lines.drop since).take limit)) := by
  have hne : lines ≠ [] := List.ne_nil_of_length_pos (by omega)
  have hentries : ((holding capacity lines).entries.drop
      (since + 1 - (lines.length - max capacity 1 + 1))).take limit =
        numbered since ((lines.drop since).take limit) := by
    rw [entries_holding, drop_numbered, take_numbered, List.rtake, List.drop_drop]
    rw [show lines.length - max capacity 1 +
      (since + 1 - (lines.length - max capacity 1 + 1)) = since by omega]
  simp only [after, first?_holding capacity hne]
  rw [if_neg (by omega), if_neg (by rw [last_holding]; omega), hentries]
  cases hd : lines.drop since with
  | nil => simp at hd; omega
  | cons line rest =>
    obtain ⟨count, rfl⟩ : ∃ count, limit = count + 1 := ⟨limit - 1, by omega⟩
    rfl

end Window

end FirmwareJobs.Log

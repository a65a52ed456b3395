import FirmwareJobs.Proofs.Log.Retention

/-!
# Offsets

The window answers every offset as the whole log would, as long as the lines asked for are still
kept. Numbers and offsets are words of 64 bits; no sum or difference that the window forms leaves
them before the last number is reached.
-/

namespace FirmwareJobs.Log

/-! ## Words -/

/-- The largest word of 64 bits, `2 ^ 64 - 1`. -/
def maxOffset : Nat := 18446744073709551615

def add? (a b : Nat) : Option Nat := if a + b ≤ maxOffset then some (a + b) else none

def subtract? (a b : Nat) : Option Nat := if b ≤ a then some (a - b) else none

/-- A sum that stops at the largest word. -/
def addCapped (a b : Nat) : Nat := min (a + b) maxOffset

theorem add?_of_le {a b : Nat} (h : a + b ≤ maxOffset) : add? a b = some (a + b) := if_pos h

theorem subtract?_of_le {a b : Nat} (h : b ≤ a) : subtract? a b = some (a - b) := if_pos h

theorem addCapped_lt_iff {a b n : Nat} (h : n ≤ maxOffset) : addCapped a b < n ↔ a + b < n := by
  unfold addCapped
  omega

namespace Window

/-- `push` in words; there is no number after the largest word. -/
def push? (w : Window) (line : String) : Option Window :=
  (add? w.last 1).map fun number =>
    ⟨w.capacity, enqueue w.capacity w.recent line, enqueue w.capacity w.entries (number, line),
      number⟩

def pushAll? (w : Window) (lines : List String) : Option Window := lines.foldlM push? w

/-- `after` in words. -/
def after? (w : Window) (since limit : Nat) : Option Replay :=
  match w.first? with
  | none => some .empty
  | some first =>
    if addCapped since 1 < first then some (.evicted w.last)
    else if w.last ≤ since then some .upToDate
    else
      (add? since 1).bind fun next =>
        (subtract? next first).map fun skip =>
          match (w.entries.drop skip).take limit with
          | [] => .upToDate
          | entries => .lines entries

theorem push?_of_lt {w : Window} (line : String) (h : w.last < maxOffset) :
    w.push? line = some (w.push line) := by
  rw [push?, add?_of_le h]
  rfl

theorem push?_of_full {w : Window} (line : String) (h : w.last = maxOffset) :
    w.push? line = none := by
  rw [push?, add?, if_neg (by omega)]
  rfl

/-- Pushing in words fails only at the line after the largest number. -/
theorem pushAll?_eq {w : Window} (lines : List String) (h : w.last ≤ maxOffset) :
    w.pushAll? lines =
      if w.last + lines.length ≤ maxOffset then some (w.pushAll lines) else none := by
  induction lines generalizing w with
  | nil => exact (if_pos h).symm
  | cons line rest ih =>
    change (w.push? line).bind (fun next => next.pushAll? rest) = _
    rcases Nat.lt_or_eq_of_le h with hroom | hfull
    · have hlast : (w.push line).last = w.last + 1 := rfl
      rw [push?_of_lt line hroom]
      change (w.push line).pushAll? rest = _
      rw [ih (hlast ▸ hroom), hlast, List.length_cons, Nat.add_assoc, Nat.add_comm 1]
      rfl
    · rw [push?_of_full line hfull, if_neg (by rw [List.length_cons]; omega)]
      rfl

/-- If the numbers of a window are words in order, so is everything that an answer needs. -/
theorem after?_eq {w : Window} (since limit : Nat) (hlast : w.last ≤ maxOffset)
    (hfirst : ∀ first, w.first? = some first → first ≤ w.last) :
    w.after? since limit = some (w.after since limit) := by
  unfold after? after
  cases h : w.first? with
  | none => rfl
  | some first =>
    have hcap : addCapped since 1 < first ↔ since + 1 < first :=
      addCapped_lt_iff ((hfirst first h).trans hlast)
    dsimp only
    by_cases hevicted : since + 1 < first
    · rw [if_pos (hcap.2 hevicted), if_pos hevicted]
    by_cases hnone : w.last ≤ since
    · rw [if_neg (mt hcap.1 hevicted), if_neg hevicted, if_pos hnone, if_pos hnone]
    · rw [if_neg (mt hcap.1 hevicted), if_neg hevicted, if_neg hnone, if_neg hnone,
        add?_of_le (by omega), Option.bind_some, subtract?_of_le (by omega)]
      rfl

end Window

/-! ## The answer of the whole log -/

theorem numbered_eq_zip (start : Nat) (lines : List String) :
    numbered start lines = (List.range' (start + 1) lines.length).zip lines := by
  induction lines generalizing start with
  | nil => rfl
  | cons line rest ih => rw [numbered, ih, List.length_cons, List.range'_succ, List.zip_cons_cons]

theorem map_fst_numbered (start : Nat) (lines : List String) :
    (numbered start lines).map Prod.fst = List.range' (start + 1) lines.length := by
  rw [numbered_eq_zip, List.map_fst_zip (by simp)]

theorem zip_range'_take {α : Type} (start count : Nat) (items : List α) :
    (List.range' start count).zip (items.take count) = (List.range' start count).zip items := by
  induction items generalizing start count with
  | nil => rw [List.take_nil]
  | cons item rest ih =>
    cases count with
    | zero => rfl
    | succ count =>
      rw [List.take_succ_cons, List.range'_succ, List.zip_cons_cons, List.zip_cons_cons, ih]

/-- What a reader who knows the first `since` lines is to be told, if only the last `kept` lines
can be shown to him. -/
def answer (kept : Nat) (lines : List String) (since limit : Nat) : Replay :=
  let n := lines.length
  if n = 0 then .empty
  else if since + 1 ≤ n - min n kept then .evicted n
  else if n ≤ since ∨ limit = 0 then .upToDate
  else .lines ((List.range' (since + 1) (min n (since + limit) - since)).zip (lines.drop since))

namespace Window

theorem after_of_noLimit {capacity since : Nat} {lines : List String}
    (hkept : lines.length ≤ since + max capacity 1) (hnew : since < lines.length) :
    (holding capacity lines).after since 0 = .upToDate := by
  have hne : lines ≠ [] := List.ne_nil_of_length_pos (by omega)
  simp only [after, first?_holding capacity hne, List.take_zero]
  rw [if_neg (by omega), if_neg (by rw [last_holding]; omega)]

theorem after_holding (capacity : Nat) (lines : List String) (since limit : Nat) :
    (holding capacity lines).after since limit = answer (max capacity 1) lines since limit := by
  unfold answer
  dsimp only
  by_cases hempty : lines.length = 0
  · rw [if_pos hempty, List.length_eq_zero_iff.1 hempty, after_nil]
  rw [if_neg hempty]
  by_cases hlost : since + max capacity 1 < lines.length
  · rw [if_pos (by omega), after_of_evicted limit hlost]
  rw [if_neg (by omega)]
  by_cases hnone : lines.length ≤ since
  · rw [if_pos (.inl hnone),
      after_of_upToDate limit (List.ne_nil_of_length_pos (by omega)) hnone]
  by_cases hlimit : limit = 0
  · rw [if_pos (.inr hlimit), hlimit, after_of_noLimit (by omega) (by omega)]
  · have hlength : ((lines.drop since).take limit).length =
        min lines.length (since + limit) - since := by
      rw [List.length_take, List.length_drop]
      omega
    have htake : (lines.drop since).take limit =
        (lines.drop since).take (min lines.length (since + limit) - since) := by
      rw [← hlength, List.length_take, ← List.take_take, List.take_length]
    rw [if_neg (not_or.2 ⟨hnone, hlimit⟩),
      after_of_retained (by omega) (by omega) (Nat.one_le_iff_ne_zero.2 hlimit), numbered_eq_zip,
      hlength, htake, zip_range'_take]

theorem first?_le_last {capacity first : Nat} {lines : List String}
    (h : (holding capacity lines).first? = some first) :
    first ≤ (holding capacity lines).last := by
  by_cases hne : lines = []
  · simp [holding, first?, hne] at h
  · have hlength := List.length_pos_iff.2 hne
    rw [first?_holding capacity hne, Option.some.injEq] at h
    rw [last_holding]
    omega

/-- A window that may keep `kept` lines shows the end of a log. -/
structure Shows (w : Window) (kept : Nat) (lines : List String) : Prop where
  last : w.last = lines.length
  recent : w.recent = lines.drop (lines.length - min lines.length kept)
  texts : w.entries.map Prod.snd = w.recent
  numbers : w.entries.map Prod.fst =
    List.range' (lines.length - min lines.length kept + 1) (min lines.length kept)
  answers : ∀ since limit, w.after since limit = answer kept lines since limit
  inWords : lines.length ≤ maxOffset → ∀ (since : UInt64) (limit : Nat),
    w.after? since.toNat limit = some (answer kept lines since.toNat limit)

theorem shows_holding (capacity : Nat) (lines : List String) :
    (holding capacity lines).Shows (max capacity 1) lines where
  last := rfl
  recent := by
    rw [recent_holding, List.rtake]
    congr 1
    omega
  texts := by rw [entries_holding, map_snd_numbered, recent_holding]
  numbers := by
    rw [entries_holding, map_fst_numbered, List.rtake, List.length_drop]
    congr 1 <;> omega
  answers := after_holding capacity lines
  inWords hwords since limit := by
    rw [after?_eq since.toNat limit hwords fun _ => first?_le_last, after_holding]

/-- Every line gets its place in the log as its number, and the window shows the end of the log,
also when it counts in words, as long as there are words to count with. -/
theorem shows_pushAll (capacity : Nat) (lines : List String) :
    (∀ before line,
      (((ofCapacity capacity).pushAll before).push line).last = before.length + 1) ∧
    (ofCapacity capacity).pushAll? lines =
      (if lines.length ≤ maxOffset then some ((ofCapacity capacity).pushAll lines) else none) ∧
    ((ofCapacity capacity).pushAll lines).Shows (max capacity 1) lines := by
  refine ⟨fun before line => ?_, ?_, ?_⟩
  · rw [pushAll_ofCapacity]
    rfl
  · have hzero : (ofCapacity capacity).last = 0 := rfl
    rw [pushAll?_eq lines (hzero ▸ Nat.zero_le _), hzero, Nat.zero_add]
  · rw [pushAll_ofCapacity]
    exact shows_holding capacity lines

end Window

end FirmwareJobs.Log

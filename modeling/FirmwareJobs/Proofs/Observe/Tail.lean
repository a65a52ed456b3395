import FirmwareJobs.Observe.Tail
import FirmwareJobs.Proofs.Job.Operation

/-! # Reading on from an offset

An answer reads on if its lines follow the offset and its next offset follows its lines. Answers
from the retained lines do. The log file answers with its last lines whatever the offset is, so
such an answer reads on only if these happen to be the lines that are missing.
-/

namespace FirmwareJobs.Observe

open Job

/-- The answer goes on in the log right after the first `since` lines. -/
structure ReadsOn (log : List String) (since limit : Nat) (a : Answer) : Prop where
  since_le : since ≤ a.next
  next_le : a.next ≤ log.length
  lines_eq : a.lines = (log.take a.next).drop since
  length_le : a.lines.length ≤ limit
  advances : since < log.length → since < a.next

/-- The answer from retained lines: up to `limit` lines after the offset. -/
def nextPage (r : Record) (log : List String) (since limit : Nat) : Answer :=
  ⟨r, (log.drop since).take limit, since + min limit (log.length - since)⟩

theorem nextPage_of_end (r : Record) (log : List String) (limit : Nat) :
    nextPage r log log.length limit = ⟨r, [], log.length⟩ := by
  simp [nextPage]

/-- An offset whose next line is retained, or is still to come, is answered with the next page. -/
theorem resolve_of_kept (file : Option (List UInt8)) (r : Record) {log : List String}
    {capacity since limit : Nat} (hkept : log.length ≤ since + max capacity 1)
    (hsince : since ≤ log.length) (hlimit : 1 ≤ limit)
    (hfile : log = [] → r.state.isTerminal = true → Log.fileTail file limit = []) :
    resolve file ((Log.Window.holding capacity log).after since limit) r since limit =
      nextPage r log since limit := by
  rcases Nat.lt_or_eq_of_le hsince with hnew | rfl
  · have hne : (log.drop since).take limit ≠ [] := by
      apply List.ne_nil_of_length_pos
      simp only [List.length_take, List.length_drop]
      omega
    rw [Log.Window.after_of_retained hkept hnew hlimit]
    simp only [resolve, nextPage, Log.map_snd_numbered, Log.getLast?_numbered since hne,
      Option.getD_some, List.length_take, List.length_drop]
  · rw [nextPage_of_end]
    by_cases hnone : log = []
    · subst hnone
      rw [Log.Window.after_nil, resolve]
      by_cases hend : r.state.isTerminal = true
      · rw [if_pos hend, hfile rfl hend]
      · rw [if_neg hend]
    · rw [Log.Window.after_of_upToDate limit hnone le_rfl, resolve]

theorem readsOn_nextPage (r : Record) {log : List String} {since limit : Nat}
    (hsince : since ≤ log.length) (hlimit : 1 ≤ limit) :
    ReadsOn log since limit (nextPage r log since limit) := by
  constructor
  · exact Nat.le_add_right _ _
  · change since + min limit (log.length - since) ≤ log.length
    omega
  · change (log.drop since).take limit =
      (log.take (since + min limit (log.length - since))).drop since
    rw [List.drop_take, Nat.add_sub_cancel_left, ← List.length_drop, ← List.take_eq_take_min]
  · exact List.length_take_le _ _
  · intro hnew
    change since < since + min limit (log.length - since)
    omega

theorem readsOn_fileTail_iff (r : Record) {log : List String} {since : Nat} (limit : Nat)
    (hnew : since < log.length) :
    ReadsOn log since limit ⟨r, log.drop (log.length - limit), log.length⟩ ↔
      log.length - limit = since := by
  constructor
  · intro h
    have hlines := congrArg List.length h.lines_eq
    simp only [List.take_length, List.length_drop] at hlines
    omega
  · rintro rfl
    refine ⟨Nat.sub_le _ _, le_rfl, ?_, ?_, id⟩
    · rw [List.take_length]
    · simp only [List.length_drop]
      omega

theorem not_readsOn_of_stay (r : Record) {log : List String} {since limit : Nat} (hne : log ≠ [])
    (hlimit : 1 ≤ limit) :
    ¬ ReadsOn log since limit ⟨r, log.drop (log.length - limit), since⟩ := by
  intro h
  have hlen : 0 < log.length := List.length_pos_iff.mpr hne
  have hlines := congrArg List.length h.lines_eq
  simp only [List.length_drop, List.length_take] at hlines
  omega

/-! ## The answers of a job -/

theorem replay_eq (record : Record) (capacity since limit : Nat) (ops : List Operation) :
    ((ofRecord record capacity).run ops).replay since limit =
      (Log.Window.holding capacity (published ops)).after since limit := by
  rw [replay, log_run_ofRecord]

/-- The log file of a job holds what was published; that of a job restored after its end holds what
it published in its former life. -/
def Records (record : Record) (ops : List Operation) (log : List String) : Prop :=
  log = published ops ∨ record.state.isTerminal = true ∧ published ops = []

/-- When an answer reads on: not for a restored job with a log, and for lines that are lost from
memory only if the limit reaches back exactly to the offset. -/
theorem tail_readsOn_iff (record : Record) (capacity : Nat) (ops : List Operation)
    (file : Option (List UInt8)) (since limit : Nat)
    (hfile : Records record ops (Log.fileLines (file.getD [])))
    (hsince : since ≤ (Log.fileLines (file.getD [])).length) (hlimit : 1 ≤ limit) :
    ReadsOn (Log.fileLines (file.getD [])) since limit
        (tail ((ofRecord record capacity).run ops) file since limit) ↔
      (published ops = [] → Log.fileLines (file.getD []) = []) ∧
        (since + max capacity 1 < (published ops).length →
          (published ops).length - limit = since) := by
  have htail : Log.fileTail file limit = (Log.fileLines (file.getD [])).drop
      ((Log.fileLines (file.getD [])).length - limit) := rfl
  generalize Log.fileLines (file.getD []) = log at hfile hsince htail ⊢
  rw [tail, replay_eq]
  by_cases hlog : log = published ops
  · subst hlog
    rcases Nat.lt_or_ge (since + max capacity 1) (published ops).length with hlost | hkept
    · have hnew : since < (published ops).length := by omega
      rw [Log.Window.after_of_evicted limit hlost, resolve, htail,
        readsOn_fileTail_iff _ limit hnew]
      exact ⟨fun h => ⟨id, fun _ => h⟩, fun h => h.2 hlost⟩
    · have hempty : published ops = [] → Log.fileTail file limit = [] := fun hnone => by
        rw [htail, hnone, List.drop_nil]
      rw [resolve_of_kept file _ hkept hsince hlimit fun hnone _ => hempty hnone]
      refine iff_of_true (readsOn_nextPage _ hsince hlimit) ⟨id, fun hlost => ?_⟩
      exact absurd hlost (Nat.not_lt.mpr hkept)
  · obtain ⟨hended, hnone⟩ := hfile.resolve_left hlog
    have hne : log ≠ [] := fun hnil => hlog (hnil.trans hnone.symm)
    have hend : ((ofRecord record capacity).run ops).record.state.isTerminal = true :=
      isTerminal_run ops hended
    refine iff_of_false ?_ fun h => hne (h.1 hnone)
    rw [hnone, Log.Window.after_nil, resolve, if_pos hend, htail]
    exact not_readsOn_of_stay _ hne hlimit

def threeLines : List Operation :=
  [.publish "1" .output, .publish "2" .output, .publish "3" .output]

theorem tail_readsOn_of_threeLines :
    ReadsOn (Log.fileLines [49, 10, 50, 10, 51, 10]) 1 5
      (tail ((ofRecord specimen 2).run threeLines) (some [49, 10, 50, 10, 51, 10]) 1 5) :=
  (tail_readsOn_iff specimen 2 threeLines (some [49, 10, 50, 10, 51, 10]) 1 5 (.inl (by decide))
    (by decide) (by decide)).mpr ⟨by decide, by decide⟩

/-- A restored job repeats its log for every offset, and so does a job that has lost lines. -/
theorem tail_repeats :
    ¬ ReadsOn (Log.fileLines [120, 10, 121, 10]) 1 10
        (tail ((ofRecord { specimen with state := .failed } 10).run [])
          (some [120, 10, 121, 10]) 1 10) ∧
      ¬ ReadsOn (Log.fileLines [49, 10, 50, 10, 51, 10]) 1 5
        (tail ((ofRecord specimen 1).run threeLines) (some [49, 10, 50, 10, 51, 10]) 1 5) := by
  constructor
  · intro h
    have hadvances : 1 < 1 := h.advances (by decide)
    exact lt_irrefl 1 hadvances
  · intro h
    exact absurd h.lines_eq (by decide)

end FirmwareJobs.Observe

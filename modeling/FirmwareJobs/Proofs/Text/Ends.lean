import FirmwareJobs.Text.Blank
import Mathlib.Data.List.DropRight

/-!
# The ends of a text

Dropping characters at the ends of a text leaves the part of it between them, and the whole text
exactly if neither end is to be dropped.
-/

namespace FirmwareJobs.Text

variable (p : Char → Bool) (s : List Char)

theorem stripWhile_eq_rdropWhile : stripWhile p s = (s.dropWhile p).rdropWhile p := rfl

theorem stripWhile_sublist : (stripWhile p s).Sublist s :=
  (List.rdropWhile_prefix p _).sublist.trans (List.dropWhile_sublist p)

theorem dropWhile_eq_self_iff_head? : s.dropWhile p = s ↔ ∀ c ∈ s.head?, p c = false := by
  cases s <;> simp [List.dropWhile_eq_self_iff]

theorem rdropWhile_eq_self_iff_getLast? :
    s.rdropWhile p = s ↔ ∀ c ∈ s.getLast?, p c = false := by
  rw [List.rdropWhile_eq_self_iff]
  cases s using List.reverseRecOn <;> simp

theorem stripWhile_eq_self_iff :
    stripWhile p s = s ↔ (∀ c ∈ s.head?, p c = false) ∧ ∀ c ∈ s.getLast?, p c = false := by
  rw [← dropWhile_eq_self_iff_head?, ← rdropWhile_eq_self_iff_getLast?, stripWhile_eq_rdropWhile]
  constructor
  · intro h
    have hlength := (List.rdropWhile_prefix p (s.dropWhile p)).length_le
    rw [h] at hlength
    have hdrop := (List.dropWhile_sublist p).eq_of_length_le hlength
    exact ⟨hdrop, by rwa [hdrop] at h⟩
  · rintro ⟨hdrop, hend⟩
    rw [hdrop, hend]

variable {p}

theorem rdropWhile_append_of_pos {after : List Char} (h : ∀ c ∈ after, p c = true) :
    (s ++ after).rdropWhile p = s.rdropWhile p := by
  rw [List.rdropWhile, List.reverse_append, List.dropWhile_append_of_pos (by simpa using h),
    List.rdropWhile]

variable (p)

/-- What is left of a text is the part between characters to be dropped that begins and ends with
characters to be kept. -/
theorem stripWhile_eq_iff (t : List Char) :
    stripWhile p s = t ↔
      (∃ before after, s = before ++ t ++ after ∧ (∀ c ∈ before, p c = true) ∧
        ∀ c ∈ after, p c = true) ∧
      (∀ c ∈ t.head?, p c = false) ∧ ∀ c ∈ t.getLast?, p c = false := by
  rw [stripWhile_eq_rdropWhile]
  constructor
  · rintro rfl
    have hend : (s.dropWhile p).rdropWhile p ++ (s.dropWhile p).rtakeWhile p = s.dropWhile p :=
      List.rdropWhile_append_rtakeWhile
    refine ⟨⟨s.takeWhile p, (s.dropWhile p).rtakeWhile p, ?_, ?_, ?_⟩, ?_, ?_⟩
    · rw [List.append_assoc, hend, List.takeWhile_append_dropWhile]
    · exact fun c => List.mem_takeWhile_imp
    · exact fun c => List.mem_rtakeWhile_imp
    · intro c hc
      -- the first character that is left is the first one that was not dropped at the front
      apply (dropWhile_eq_self_iff_head? p _).1 (List.dropWhile_idempotent p s)
      rw [← hend, List.head?_append, show ((s.dropWhile p).rdropWhile p).head? = some c from hc]
      rfl
    · exact (rdropWhile_eq_self_iff_getLast? p _).1 (List.rdropWhile_idempotent p _)
  · rintro ⟨⟨before, after, rfl, hbefore, hafter⟩, hhead, hlast⟩
    rw [List.append_assoc, List.dropWhile_append_of_pos hbefore]
    cases t with
    | nil =>
      rw [List.nil_append, List.rdropWhile_eq_nil_iff]
      exact fun c hc => hafter c ((List.dropWhile_sublist p).subset hc)
    | cons c t =>
      have hc : ¬ p c = true := by simp [hhead c rfl]
      rw [List.cons_append, List.dropWhile_cons_of_neg hc, ← List.cons_append,
        rdropWhile_append_of_pos _ hafter, (rdropWhile_eq_self_iff_getLast? p _).2 hlast]

end FirmwareJobs.Text

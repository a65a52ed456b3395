import FirmwareJobs.Proofs.Capture.Stripping
import FirmwareJobs.Proofs.Json.OneLine
import FirmwareJobs.Proofs.Text.Utf8
import FirmwareJobs.Capture.Lines

/-!
# Captured lines

Whatever bytes a stream has and however they are cut into reads, each of its lines is one line, and
so is what is left of it after cleaning.
-/

namespace FirmwareJobs.Capture

open Text

/-- A line of some stream. -/
def IsCaptured (raw : String) : Prop := ∃ reads, raw ∈ readLines reads

structure Captured where
  raw : String
  isCaptured : IsCaptured raw

/-! ## Splitting -/

namespace Splitter

/-- The unfinished line has no line break. -/
def Unbroken (s : Splitter) : Prop := newline ∉ s.pending ∧ carriageReturn ∉ s.pending

theorem unbroken_init : Unbroken {} := ⟨List.not_mem_nil, List.not_mem_nil⟩

theorem Unbroken.oneLine {s : Splitter} (h : s.Unbroken) : OneLine s.line.toList := by
  intro c hc hbreak
  rw [line, Utf8.lossyString, String.toList_ofList] at hc
  rcases hbreak with rfl | rfl
  · exact h.1 (List.mem_reverse.1 (Utf8.mem_of_mem_decodeLossy hc (by decide) (by decide)))
  · exact h.2 (List.mem_reverse.1 (Utf8.mem_of_mem_decodeLossy hc (by decide) (by decide)))

theorem Unbroken.step {s : Splitter} (h : s.Unbroken) (b : UInt8) :
    (∀ line ∈ (s.step b).1, OneLine line.toList) ∧ (s.step b).2.Unbroken := by
  unfold Splitter.step
  split_ifs with hline hafter hreturn
  · exact ⟨fun _ hmem => absurd hmem List.not_mem_nil, h⟩
  · exact ⟨fun _ hmem => List.mem_singleton.1 hmem ▸ h.oneLine, unbroken_init⟩
  · exact ⟨fun _ hmem => List.mem_singleton.1 hmem ▸ h.oneLine, unbroken_init⟩
  · refine ⟨fun _ hmem => absurd hmem List.not_mem_nil, ?_, ?_⟩
    · exact fun hmem => (List.mem_cons.1 hmem).elim (fun he => hline he.symm) h.1
    · exact fun hmem => (List.mem_cons.1 hmem).elim (fun he => hreturn he.symm) h.2

theorem Unbroken.feed {s : Splitter} (h : s.Unbroken) (bytes : List UInt8) :
    (∀ line ∈ (s.feed bytes).1, OneLine line.toList) ∧ (s.feed bytes).2.Unbroken := by
  induction bytes generalizing s with
  | nil => exact ⟨fun _ hmem => absurd hmem List.not_mem_nil, h⟩
  | cons b rest ih =>
    obtain ⟨hlines, hnext⟩ := h.step b
    obtain ⟨hmore, hlast⟩ := ih hnext
    exact ⟨fun line hmem => (List.mem_append.1 hmem).elim (hlines line) (hmore line), hlast⟩

theorem Unbroken.finish {s : Splitter} (h : s.Unbroken) :
    ∀ line ∈ s.finish.1.toList, OneLine line.toList := by
  intro line hmem
  unfold Splitter.finish at hmem
  split_ifs at hmem
  · exact absurd hmem List.not_mem_nil
  · exact List.mem_singleton.1 hmem ▸ h.oneLine

end Splitter

theorem oneLine_of_mem_readLinesFrom {s : Splitter} (h : s.Unbroken) {reads : List Read}
    {raw : String} (hraw : raw ∈ readLinesFrom s reads) : OneLine raw.toList := by
  induction reads generalizing s with
  | nil => exact h.finish raw hraw
  | cons read rest ih =>
    cases read with
    | bytes chunk =>
      rw [readLinesFrom] at hraw
      split_ifs at hraw
      · exact h.finish raw hraw
      · obtain ⟨hlines, hnext⟩ := h.feed chunk
        exact (List.mem_append.1 hraw).elim (hlines raw) (ih hnext)
    | interrupted => exact ih h hraw
    | failed => exact h.finish raw hraw

theorem Captured.oneLine (c : Captured) : OneLine c.raw.toList := by
  obtain ⟨reads, hraw⟩ := c.isCaptured
  exact oneLine_of_mem_readLinesFrom Splitter.unbroken_init hraw

/-- The lines that some bytes complete, from the start of a stream, and what they leave. -/
theorem isCaptured_of_mem_feed (bytes : List UInt8) {raw : String}
    (h : raw ∈ (Splitter.feed {} bytes).1 ++ (Splitter.feed {} bytes).2.finish.1.toList) :
    IsCaptured raw := by
  refine ⟨[.bytes bytes], ?_⟩
  rw [readLines, readLinesFrom]
  split_ifs with hempty
  · rw [List.isEmpty_iff.1 hempty] at h
    exact h
  · exact h

/-! ## Cleaning -/

theorem oneLine_of_clean? {action : Action} {raw line : String} (hraw : OneLine raw.toList)
    (h : clean? action raw = some line) : OneLine line.toList := by
  obtain ⟨-, hline⟩ := clean?_eq_some_iff.1 h
  intro c hc
  rw [hline] at hc
  exact hraw c (((Escape.strip_sublist _).trans (stripWhile_sublist _ _)).subset hc)

/-- Lines are dropped only while a device log is followed. -/
theorem action_of_clean?_eq_none {action : Action} {raw : String} (h : clean? action raw = none) :
    action = .logs := by
  unfold clean? at h
  dsimp only at h
  split_ifs at h with hchatter
  rw [isChatter, Bool.and_eq_true, beq_iff_eq] at hchatter
  exact hchatter.1

end FirmwareJobs.Capture

import FirmwareJobs.Log.File
import FirmwareJobs.Proofs.Json.OneLine
import FirmwareJobs.Proofs.Text.Ends
import FirmwareJobs.Proofs.Text.Utf8

/-!
# Reading back a log file

A file to which lines were written, each with an LF behind it, has these lines again, as long as
none of them has a line break of its own.
-/

namespace FirmwareJobs.Log

open Text

def lineBytes (line : String) : List UInt8 := Utf8.ofString line ++ [newline]

/-- The bytes of some lines, each with an LF behind it. -/
def linesBytes (lines : List String) : List UInt8 := lines.flatMap lineBytes

@[simp] theorem linesBytes_nil : linesBytes [] = [] := rfl

theorem linesBytes_append (lines more : List String) :
    linesBytes (lines ++ more) = linesBytes lines ++ linesBytes more := List.flatMap_append

@[simp] theorem linesBytes_singleton (line : String) : linesBytes [line] = lineBytes line :=
  List.flatMap_singleton lineBytes line

/-! ## Pieces -/

theorem newline_notMem_ofString {line : String} (h : OneLine line.toList) :
    newline ∉ Utf8.ofString line := fun hmem =>
  h _ (Utf8.mem_encode_of_ascii hmem (by decide)) (.inl (by decide))

theorem piecesFrom_append {chunk : List UInt8} (h : newline ∉ chunk) (piece rest : List UInt8) :
    piecesFrom piece (chunk ++ newline :: rest) =
      (piece.reverse ++ chunk ++ [newline]) :: piecesFrom [] rest := by
  induction chunk generalizing piece with
  | nil => simp [piecesFrom]
  | cons b chunk ih =>
    rw [List.mem_cons, not_or] at h
    rw [List.cons_append, piecesFrom, if_neg (Ne.symm h.1), ih h.2]
    simp

theorem pieces_linesBytes {lines : List String} (h : ∀ line ∈ lines, OneLine line.toList) :
    pieces (linesBytes lines) = lines.map lineBytes := by
  induction lines with
  | nil => rfl
  | cons line rest ih =>
    obtain ⟨hline, hrest⟩ := List.forall_mem_cons.1 h
    have hpiece := piecesFrom_append (newline_notMem_ofString hline) [] (linesBytes rest)
    have hsplit : linesBytes (line :: rest) =
        Utf8.ofString line ++ newline :: linesBytes rest := by simp [linesBytes, lineBytes]
    rw [pieces, hsplit, hpiece, List.map_cons]
    exact congrArg (lineBytes line :: ·) (ih hrest)

/-! ## Lines -/

theorem lineOf_eq (piece : List UInt8) : lineOf piece =
    String.ofList ((Utf8.decodeLossy piece).rdropWhile fun c => c == '\n' || c == '\r') := rfl

theorem lineOf_lineBytes {line : String} (h : OneLine line.toList) :
    lineOf (lineBytes line) = line := by
  have hbytes : lineBytes line = Utf8.encode (line.toList ++ ['\n']) := by
    rw [Utf8.encode_append]
    rfl
  have hend : ∀ c ∈ line.toList.getLast?, (c == '\n' || c == '\r') = false := by
    intro c hc
    simpa [IsBreak] using h c (List.mem_of_getLast? hc)
  rw [lineOf_eq, hbytes, Utf8.decodeLossy_encode, List.rdropWhile_concat_pos _ _ _ (by decide),
    (rdropWhile_eq_self_iff_getLast? _ _).2 hend, String.ofList_toList]

theorem fileLines_linesBytes {lines : List String} (h : ∀ line ∈ lines, OneLine line.toList) :
    fileLines (linesBytes lines) = lines := by
  rw [fileLines, pieces_linesBytes h, List.map_map]
  exact (List.map_congr_left fun line hline => lineOf_lineBytes (h line hline)).trans
    (List.map_id lines)

theorem fileTail_linesBytes {lines : List String} (h : ∀ line ∈ lines, OneLine line.toList)
    (limit : Nat) :
    fileTail (some (linesBytes lines)) limit = lines.drop (lines.length - limit) := by
  rw [fileTail, Option.getD_some, fileLines_linesBytes h]

end FirmwareJobs.Log

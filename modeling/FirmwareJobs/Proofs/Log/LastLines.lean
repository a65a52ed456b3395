import FirmwareJobs.Proofs.Log.Reading
import FirmwareJobs.Proofs.Log.Retention

/-!
# The last lines of a file

The end of a log file is read in one pass through the file with a queue that never holds more than
the lines asked for. What is left in the queue are the last lines of the whole file, however many
are asked for and whatever bytes the file has.
-/

namespace FirmwareJobs.Log

open Text

/-! ## The lines of a file -/

/-- A file cut into the pieces that an LF ends and the rest behind the last LF. -/
structure Cut (content : List UInt8) where
  ended : List (List UInt8)
  rest : List UInt8
  content_eq : content = ended.flatMap (· ++ [newline]) ++ rest
  newline_notMem : ∀ piece ∈ ended, newline ∉ piece
  newline_notMem_rest : newline ∉ rest

/-- The text of a line: its bytes decoded, without the CRs at the end. -/
def lineText (bytes : List UInt8) : String :=
  String.ofList ((Utf8.decodeLossy bytes).rdropWhile (· == '\r'))

/-- An empty rest is no line. -/
def Cut.lines {content : List UInt8} (cut : Cut content) : List String :=
  (cut.ended ++ if cut.rest = [] then [] else [cut.rest]).map lineText

theorem nonempty_cut (content : List UInt8) : Nonempty (Cut content) := by
  induction content with
  | nil => exact ⟨⟨[], [], rfl, by simp, by simp⟩⟩
  | cons b r ih =>
    obtain ⟨ended, rest, rfl, hended, hrest⟩ := ih
    by_cases hb : b = newline
    · exact ⟨⟨[] :: ended, rest, by simp [hb], by simpa using hended, hrest⟩⟩
    · cases ended with
      | nil => exact ⟨⟨[], b :: rest, rfl, by simp, by simp [hrest, Ne.symm hb]⟩⟩
      | cons piece ended =>
        obtain ⟨hpiece, hended⟩ := List.forall_mem_cons.1 hended
        exact ⟨⟨(b :: piece) :: ended, rest, by simp,
          List.forall_mem_cons.2 ⟨by simp [hpiece, Ne.symm hb], hended⟩, hrest⟩⟩

theorem Cut.rest_eq_nil {content : List UInt8} (cut : Cut content)
    (h : content = [] ∨ content.getLast? = some newline) : cut.rest = [] := by
  by_contra hne
  rcases h with h | h
  · exact hne (List.append_eq_nil_iff.1 (cut.content_eq.symm.trans h)).2
  · rw [cut.content_eq, List.getLast?_append_of_ne_nil _ hne] at h
    exact cut.newline_notMem_rest (List.mem_of_getLast? h)

/-! ## Pieces -/

theorem piecesFrom_of_notMem {chunk : List UInt8} (h : newline ∉ chunk) (piece : List UInt8) :
    piecesFrom piece chunk =
      if piece.reverse ++ chunk = [] then [] else [piece.reverse ++ chunk] := by
  induction chunk generalizing piece with
  | nil => cases piece <;> simp [piecesFrom]
  | cons b chunk ih =>
    rw [List.mem_cons, not_or] at h
    rw [piecesFrom, if_neg (Ne.symm h.1), ih h.2]
    simp

theorem pieces_flatMap {ended : List (List UInt8)} (hended : ∀ piece ∈ ended, newline ∉ piece)
    {rest : List UInt8} (hrest : newline ∉ rest) :
    pieces (ended.flatMap (· ++ [newline]) ++ rest) =
      ended.map (· ++ [newline]) ++ if rest = [] then [] else [rest] := by
  induction ended with
  | nil => exact piecesFrom_of_notMem hrest []
  | cons piece ended ih =>
    obtain ⟨hpiece, hended⟩ := List.forall_mem_cons.1 hended
    have hsplit : (piece :: ended).flatMap (· ++ [newline]) ++ rest =
        piece ++ newline :: (ended.flatMap (· ++ [newline]) ++ rest) := by simp
    rw [hsplit, pieces, piecesFrom_append hpiece, List.map_cons, List.cons_append]
    exact congrArg (_ :: ·) (ih hended)

theorem rdropWhile_congr {p q : Char → Bool} {s : List Char} (h : ∀ c ∈ s, p c = q c) :
    s.rdropWhile p = s.rdropWhile q := by
  induction s using List.reverseRecOn with
  | nil => rfl
  | append_singleton s c ih =>
    obtain ⟨hs, hc⟩ := List.forall_mem_append.1 h
    rw [List.rdropWhile_concat, List.rdropWhile_concat, hc c (by simp), ih hs]

theorem lineOf_of_notMem {piece : List UInt8} (h : newline ∉ piece) :
    lineOf piece = lineText piece := by
  have hno : '\n' ∉ Utf8.decodeLossy piece := fun hmem =>
    h (Utf8.mem_of_mem_decodeLossy hmem (by decide) (by decide))
  rw [lineOf_eq]
  refine congrArg String.ofList (rdropWhile_congr fun c hc => ?_)
  have hc : c ≠ '\n' := fun he => hno (he ▸ hc)
  simp [hc]

/-- The LF behind a piece is decoded by itself, also behind a character that is cut off. -/
theorem lineOf_concat_newline {piece : List UInt8} (h : newline ∉ piece) :
    lineOf (piece ++ [newline]) = lineText piece := by
  rw [← lineOf_of_notMem h, lineOf_eq, lineOf_eq,
    Utf8.decodeLossy_append_ascii piece [] (by decide)]
  exact congrArg String.ofList (List.rdropWhile_concat_pos _ _ _ (by decide))

theorem Cut.fileLines_eq {content : List UInt8} (cut : Cut content) :
    fileLines content = cut.lines := by
  have hpieces := pieces_flatMap cut.newline_notMem cut.newline_notMem_rest
  rw [← cut.content_eq] at hpieces
  rw [fileLines, hpieces, lines, List.map_append, List.map_append, List.map_map]
  congr 1
  · exact List.map_congr_left fun piece hpiece =>
      lineOf_concat_newline (cut.newline_notMem piece hpiece)
  · split_ifs
    · rfl
    · rw [List.map_singleton, List.map_singleton, lineOf_of_notMem cut.newline_notMem_rest]

/-! ## One pass through the file -/

/-- The bytes up to the next LF and with it, and what comes after them. -/
def readUntil : List UInt8 → List UInt8 × List UInt8
  | [] => ([], [])
  | b :: r => if b = newline then ([b], r) else (b :: (readUntil r).1, (readUntil r).2)

theorem length_readUntil (b : UInt8) (r : List UInt8) :
    (readUntil (b :: r)).2.length ≤ r.length := by
  induction r generalizing b with
  | nil => unfold readUntil; split_ifs <;> simp [readUntil]
  | cons c r ih =>
    rw [readUntil]
    split_ifs
    · exact Nat.le_refl _
    · exact Nat.le_succ_of_le (ih c)

/-- Go on through the file. The queue has the last lines so far; a full one loses its oldest line
to the next. -/
def keepLast (limit : Nat) (kept : List String) : List UInt8 → List String
  | [] => kept
  | b :: r =>
    keepLast limit (Window.enqueue limit kept (lineOf (readUntil (b :: r)).1))
      (readUntil (b :: r)).2
termination_by content => content.length
decreasing_by exact Nat.lt_succ_of_le (length_readUntil b r)

/-- The last lines of a file by one pass through it. -/
def lastLines (content : List UInt8) (limit : Nat) : List String :=
  if limit = 0 then [] else keepLast limit [] content

theorem piecesFrom_cons (piece : List UInt8) (b : UInt8) (r : List UInt8) :
    piecesFrom piece (b :: r) =
      (piece.reverse ++ (readUntil (b :: r)).1) :: pieces (readUntil (b :: r)).2 := by
  induction r generalizing piece b with
  | nil =>
    by_cases hb : b = newline
    · simp [piecesFrom, readUntil, pieces, hb]
    · simp [piecesFrom, readUntil, pieces, hb]
  | cons c r ih =>
    by_cases hb : b = newline
    · simp [piecesFrom, readUntil, pieces, hb]
    · have hread : readUntil (b :: c :: r) =
          (b :: (readUntil (c :: r)).1, (readUntil (c :: r)).2) := if_neg hb
      rw [piecesFrom, if_neg hb, ih, hread]
      simp

theorem fileLines_cons (b : UInt8) (r : List UInt8) : fileLines (b :: r) =
    lineOf (readUntil (b :: r)).1 :: fileLines (readUntil (b :: r)).2 := by
  rw [fileLines, pieces, piecesFrom_cons, List.reverse_nil, List.nil_append, List.map_cons,
    fileLines]

/-- The queue always has the last of the lines that were read. -/
theorem keepLast_rtake {count : Nat} {kept read : List String} (h : kept = read.rtake (count + 1))
    (content : List UInt8) :
    keepLast (count + 1) kept content = (read ++ fileLines content).rtake (count + 1) := by
  fun_induction keepLast (count + 1) kept content generalizing read with
  | case1 kept => simpa [fileLines, pieces, piecesFrom] using h
  | case2 kept b r ih =>
    have hkept : Window.enqueue (count + 1) kept (lineOf (readUntil (b :: r)).1) =
        (read ++ [lineOf (readUntil (b :: r)).1]).rtake (count + 1) := by
      rw [h, Window.enqueue_rtake]
    rw [ih hkept, fileLines_cons, List.append_assoc]
    rfl

theorem fileTail_eq_rtake (content : List UInt8) (limit : Nat) :
    fileTail (some content) limit = (fileLines content).rtake limit := rfl

theorem lastLines_eq_fileTail (content : List UInt8) (limit : Nat) :
    lastLines content limit = fileTail (some content) limit := by
  rw [fileTail_eq_rtake, lastLines]
  cases limit with
  | zero => rw [if_pos rfl, List.rtake_zero]
  | succ count =>
    have hempty : ([] : List String) = ([] : List String).rtake (count + 1) :=
      (List.rtake_nil _).symm
    rw [if_neg (Nat.succ_ne_zero count), keepLast_rtake hempty, List.nil_append]

/-! ## A window on the whole file -/

theorem length_rtake {α : Type} (l : List α) (n : Nat) : (l.rtake n).length = min n l.length := by
  rw [List.rtake, List.length_drop]
  omega

theorem rtake_rtake {α : Type} (l : List α) {k n : Nat} (h : k ≤ n) :
    (l.rtake n).rtake k = l.rtake k := by
  rw [List.rtake, length_rtake, List.rtake, List.rtake, List.drop_drop]
  congr 1
  omega

theorem rtake_concat {α : Type} (l : List α) (x : α) (n : Nat) :
    (l ++ [x]).rtake n = (l.rtake n ++ [x]).drop (if (l.rtake n).length = n then 1 else 0) := by
  cases n with
  | zero => simp
  | succ n =>
    rw [← Window.enqueue_rtake, Window.enqueue]
    split_ifs with hfull
    · rw [List.drop_append_of_le_length (by omega)]
    · rfl

theorem fileLines_append {content : List UInt8} (h : content = [] ∨ content.getLast? = some newline)
    {bytes : List UInt8} (hbytes : newline ∉ bytes) :
    fileLines (content ++ (bytes ++ [newline])) = fileLines content ++ [lineText bytes] := by
  obtain ⟨cut⟩ := nonempty_cut content
  have hrest := cut.rest_eq_nil h
  let longer : Cut (content ++ (bytes ++ [newline])) :=
    { ended := cut.ended ++ [bytes]
      rest := []
      content_eq := by conv_lhs => rw [cut.content_eq, hrest]
                       simp
      newline_notMem := List.forall_mem_append.2 ⟨cut.newline_notMem, by simpa using hbytes⟩
      newline_notMem_rest := List.not_mem_nil }
  rw [longer.fileLines_eq, cut.fileLines_eq, Cut.lines, Cut.lines, hrest]
  simp [longer]

theorem fileTail_of_le (content : List UInt8) {k limit : Nat} (h : k ≤ limit) :
    fileTail (some content) k =
      (fileTail (some content) limit).rtake (min k (fileLines content).length) := by
  rw [fileTail_eq_rtake, fileTail_eq_rtake, rtake_rtake _ (by omega), List.rtake, List.rtake]
  congr 1
  omega

/-- A line that is appended is the last one of the answer; it takes the place of the oldest if
there were enough without it. -/
theorem fileTail_append {content : List UInt8} (h : content = [] ∨ content.getLast? = some newline)
    {bytes : List UInt8} (hbytes : newline ∉ bytes) (limit : Nat) :
    fileTail (some (content ++ (bytes ++ [newline]))) limit =
      (fileTail (some content) limit ++ [lineText bytes]).drop
        (if (fileTail (some content) limit).length = limit then 1 else 0) := by
  rw [fileTail_eq_rtake, fileLines_append h hbytes, rtake_concat, ← fileTail_eq_rtake]

/-- What one pass through a file leaves in the queue are the last lines of the file, as many as are
asked for or as there are, and so it is a window that only moves forward. -/
theorem fileTail_isWindow (content : List UInt8) : Nonempty (Cut content) ∧
    ∀ (cut : Cut content) (limit : Nat),
      lastLines content limit = fileTail (some content) limit ∧
      fileTail (some content) limit <:+ cut.lines ∧
      (fileTail (some content) limit).length = min limit cut.lines.length ∧
      (∀ k ≤ limit, fileTail (some content) k =
        (fileTail (some content) limit).rtake (min k cut.lines.length)) ∧
      ∀ bytes, newline ∉ bytes → (content = [] ∨ content.getLast? = some newline) →
        fileTail (some (content ++ (bytes ++ [newline]))) limit =
          (fileTail (some content) limit ++ [lineText bytes]).drop
            (if (fileTail (some content) limit).length = limit then 1 else 0) := by
  refine ⟨nonempty_cut content, fun cut limit => ?_⟩
  rw [← cut.fileLines_eq]
  refine ⟨lastLines_eq_fileTail content limit, List.drop_suffix _ _, ?_,
    fun k hk => fileTail_of_le content hk,
    fun bytes hbytes hend => fileTail_append hend hbytes limit⟩
  rw [fileTail_eq_rtake, length_rtake]

/-- A line with two CRs, a character that is cut off, and a line without its LF. -/
def tornLog : List UInt8 := [97, 13, 13, 10, 0xE2, 0x82, 10]

theorem fileTail_tornLog : newline ∉ [98, 13] ∧ tornLog.getLast? = some newline ∧
    fileTail (some tornLog) 2 = ["a", "\ufffd"] ∧
    fileTail (some tornLog) 1 = ["\ufffd"] ∧
    fileTail (some (tornLog ++ ([98, 13] ++ [newline]))) 2 = ["\ufffd", "b"] := by
  have hnew : newline ∉ [98, 13] := by decide
  have htwo : fileTail (some tornLog) 2 = ["a", "\ufffd"] := by decide
  obtain ⟨⟨cut⟩, hwindow⟩ := fileTail_isWindow tornLog
  obtain ⟨-, -, hlength, hless, hmore⟩ := hwindow cut 2
  have hone := hless 1 (by decide)
  have hnext := hmore [98, 13] hnew (.inr rfl)
  rw [htwo] at hlength hone hnext
  have hlast : min 1 cut.lines.length = 1 := by
    rw [List.length_cons, List.length_singleton] at hlength
    omega
  exact ⟨hnew, rfl, htwo, hone.trans (by rw [hlast]; rfl), hnext.trans (by decide)⟩

end FirmwareJobs.Log

import FirmwareJobs.Proofs.Capture.Captured
import FirmwareJobs.Proofs.Http.Parsing

/-!
# Splitting a stream into lines

The lines of a stream are those of its text: however its bytes are cut into reads, and wherever
reads are interrupted, they could as well be decoded together and split after that.
-/

namespace FirmwareJobs.Capture

open Text

/-! ## The lines of a text -/

/-- The lines of a text. What follows the last line break is a line unless it is empty. -/
def textLines (s : List Char) : List (List Char) :=
  if (Http.Block.lines s).getLast? = some [] then (Http.Block.lines s).dropLast
  else Http.Block.lines s

/-- The text without the line feed that belongs to a carriage return before it. -/
def skipNewline : List Char → List Char
  | '\n' :: rest => rest
  | s => s

theorem skipNewline_of_head? {s : List Char} (h : s.head? ≠ some '\n') : skipNewline s = s := by
  unfold skipNewline
  split
  · simp at h
  · rfl

theorem lines_ne_nil (s : List Char) : Http.Block.lines s ≠ [] := by
  fun_induction Http.Block.lines s <;> simp_all

theorem textLines_cons {s t line : List Char}
    (h : Http.Block.lines s = line :: Http.Block.lines t) : textLines s = line :: textLines t := by
  obtain ⟨last, rest, ht⟩ := List.exists_cons_of_ne_nil (lines_ne_nil t)
  simp only [textLines, h, ht, List.getLast?_cons_cons, List.dropLast_cons_cons]
  split_ifs <;> rfl

@[simp] theorem textLines_nil : textLines [] = [] := rfl

theorem textLines_of_oneLine {s : List Char} (h : OneLine s) (hne : s ≠ []) :
    textLines s = [s] := by
  simp [textLines, Http.lines_of_oneLine h, hne]

theorem textLines_newline {s : List Char} (h : OneLine s) (rest : List Char) :
    textLines (s ++ '\n' :: rest) = s :: textLines rest :=
  textLines_cons (Http.lines_append h rest)

theorem lines_append_return {s : List Char} (h : OneLine s) (rest : List Char) :
    Http.Block.lines (s ++ '\r' :: rest) = s :: Http.Block.lines (skipNewline rest) := by
  induction s with
  | nil =>
    unfold skipNewline
    split
    · simp [Http.Block.lines]
    · next hrest =>
      rw [List.nil_append, Http.Block.lines, if_pos (.inr rfl)]
      exact fun r _ => hrest r
  | cons c s ih =>
    obtain ⟨hc, hs⟩ := oneLine_cons.mp h
    exact Http.lines_cons hc (ih hs)

theorem textLines_return {s : List Char} (h : OneLine s) (rest : List Char) :
    textLines (s ++ '\r' :: rest) = s :: textLines (skipNewline rest) :=
  textLines_cons (lines_append_return h rest)

/-! ## The text of some bytes -/

theorem decodeLossy_newline (bytes rest : List UInt8) :
    Utf8.decodeLossy (bytes ++ Splitter.newline :: rest) =
      Utf8.decodeLossy bytes ++ '\n' :: Utf8.decodeLossy rest :=
  Utf8.decodeLossy_append_ascii bytes rest (by decide)

theorem decodeLossy_return (bytes rest : List UInt8) :
    Utf8.decodeLossy (bytes ++ Splitter.carriageReturn :: rest) =
      Utf8.decodeLossy bytes ++ '\r' :: Utf8.decodeLossy rest :=
  Utf8.decodeLossy_append_ascii bytes rest (by decide)

/-- Bytes that are no line feed are not read as one, whatever comes after them. -/
theorem head?_decodeLossy (bytes : List UInt8) (hne : bytes ≠ [])
    (h : Splitter.newline ∉ bytes) (rest : List UInt8) :
    (Utf8.decodeLossy (bytes ++ rest)).head? ≠ some '\n' := by
  have hbytes : (Utf8.decodeLossy bytes).head? ≠ some '\n' := fun hhead =>
    h (Utf8.mem_of_mem_decodeLossy (List.mem_of_head? hhead) (by decide) (by decide))
  induction rest generalizing bytes with
  | nil => simpa using hbytes
  | cons b rest ih =>
    by_cases hb : b = Splitter.newline
    · subst hb
      rw [decodeLossy_newline, List.head?_append_of_ne_nil _ (Utf8.decodeLossy_ne_nil hne)]
      exact hbytes
    · have hmore : Splitter.newline ∉ bytes ++ [b] := by simp [h, Ne.symm hb]
      have hnext := ih (bytes ++ [b]) (by simp) hmore fun hhead =>
        hmore (Utf8.mem_of_mem_decodeLossy (List.mem_of_head? hhead) (by decide) (by decide))
      simpa using hnext

namespace Splitter

/-! ## Splitting bytes -/

/-- The lines of some bytes if nothing comes after them. -/
def whole (s : Splitter) (bytes : List UInt8) : List String :=
  (s.feed bytes).1 ++ (s.feed bytes).2.finish.1.toList

/-- The text that a splitter has not turned into lines before it ends with some bytes. -/
def unread (s : Splitter) (bytes : List UInt8) : List Char :=
  let text := Utf8.decodeLossy (s.pending.reverse ++ bytes)
  if s.afterReturn then skipNewline text else text

/-- Nothing is pending right after a line break, and no line break ever is. -/
structure Ready (s : Splitter) : Prop where
  unbroken : s.Unbroken
  pending : s.afterReturn = true → s.pending = []

theorem ready_init : Ready {} := ⟨unbroken_init, fun _ => rfl⟩

theorem Ready.step {s : Splitter} (h : s.Ready) (b : UInt8) : (s.step b).2.Ready := by
  refine ⟨(h.unbroken.step b).2, ?_⟩
  unfold Splitter.step
  split_ifs <;> simp

theorem whole_cons (s : Splitter) (b : UInt8) (bytes : List UInt8) :
    s.whole (b :: bytes) = (s.step b).1 ++ (s.step b).2.whole bytes := by
  simp [whole, feed]

theorem Ready.oneLine {s : Splitter} (h : s.Ready) :
    OneLine (Utf8.decodeLossy s.pending.reverse) := by
  simpa [line, Utf8.lossyString] using h.unbroken.oneLine

theorem unread_newline {s : Splitter} (h : s.Ready) (bytes : List UInt8) :
    textLines (s.unread (newline :: bytes)) =
      if s.afterReturn then textLines (Utf8.decodeLossy bytes)
      else Utf8.decodeLossy s.pending.reverse :: textLines (Utf8.decodeLossy bytes) := by
  cases hafter : s.afterReturn with
  | true =>
    rw [unread, decodeLossy_newline, hafter, h.pending hafter]
    rfl
  | false => simp [unread, hafter, decodeLossy_newline, textLines_newline h.oneLine]

theorem unread_return {s : Splitter} (h : s.Ready) (bytes : List UInt8) :
    textLines (s.unread (carriageReturn :: bytes)) =
      Utf8.decodeLossy s.pending.reverse :: textLines (skipNewline (Utf8.decodeLossy bytes)) := by
  have hreturn := textLines_return h.oneLine (Utf8.decodeLossy bytes)
  cases hafter : s.afterReturn with
  | true =>
    rw [h.pending hafter] at hreturn
    rw [unread, decodeLossy_return, hafter, h.pending hafter]
    exact hreturn
  | false => simpa [unread, hafter, decodeLossy_return] using hreturn

theorem unread_other {s : Splitter} (h : s.Ready) {b : UInt8} (hb : b ≠ newline)
    (bytes : List UInt8) :
    s.unread (b :: bytes) = Utf8.decodeLossy (s.pending.reverse ++ b :: bytes) := by
  cases hafter : s.afterReturn with
  | true =>
    have hhead := head?_decodeLossy [b] (by simp) (by simpa using Ne.symm hb) bytes
    simpa [unread, hafter, h.pending hafter] using skipNewline_of_head? hhead
  | false => simp [unread, hafter]

theorem whole_eq {s : Splitter} (h : s.Ready) (bytes : List UInt8) :
    s.whole bytes = (textLines (s.unread bytes)).map String.ofList := by
  induction bytes generalizing s with
  | nil =>
    by_cases hpending : s.pending = []
    · cases hafter : s.afterReturn <;>
        simp [whole, feed, finish, unread, hpending, hafter, Utf8.decodeLossy, skipNewline]
    · have hafter : s.afterReturn = false := by
        cases hafter : s.afterReturn with
        | true => exact absurd (h.pending hafter) hpending
        | false => rfl
      have hne : Utf8.decodeLossy s.pending.reverse ≠ [] :=
        Utf8.decodeLossy_ne_nil (by simpa using hpending)
      simp [whole, feed, finish, unread, hpending, hafter, textLines_of_oneLine h.oneLine hne, line,
        Utf8.lossyString]
  | cons b bytes ih =>
    have hinit (afterReturn : Bool) : Ready ⟨[], afterReturn⟩ := ⟨unbroken_init, fun _ => rfl⟩
    rw [whole_cons]
    by_cases hnew : b = newline
    · subst hnew
      rw [unread_newline h]
      cases hafter : s.afterReturn with
      | true =>
        have hpending := h.pending hafter
        obtain ⟨pending, afterReturn⟩ := s
        simp_all [Splitter.step, unread]
      | false => simp [Splitter.step, hafter, ih ready_init, unread, line, Utf8.lossyString]
    by_cases hreturn : b = carriageReturn
    · subst hreturn
      rw [unread_return h]
      simp [Splitter.step, hnew, ih (hinit true), unread, line, Utf8.lossyString]
    · rw [unread_other h hnew, ih (h.step b)]
      simp [Splitter.step, hnew, hreturn, unread]

/-! ## Any cuts -/

/-- The lines that several chunks complete, one after the other. -/
def feedAll : Splitter → List (List UInt8) → List String × Splitter
  | s, [] => ([], s)
  | s, chunk :: rest =>
    let next := s.feed chunk
    let more := feedAll next.2 rest
    (next.1 ++ more.1, more.2)

theorem feedAll_eq (s : Splitter) (chunks : List (List UInt8)) :
    s.feedAll chunks = s.feed chunks.flatten := by
  induction chunks generalizing s with
  | nil => rfl
  | cons chunk rest ih => rw [feedAll, ih, List.flatten_cons, feed_append]

end Splitter

namespace Read

/-- Reading goes on after this. -/
def goesOn : Read → Bool
  | .bytes chunk => !chunk.isEmpty
  | .interrupted => true
  | .failed => false

def content : Read → List UInt8
  | .bytes chunk => chunk
  | .interrupted | .failed => []

end Read

/-- The bytes of a stream up to its end or its first failure. -/
def received (reads : List Read) : List UInt8 :=
  (reads.takeWhile Read.goesOn).flatMap Read.content

@[simp] theorem received_nil : received [] = [] := rfl

theorem received_cons (read : Read) (rest : List Read) :
    received (read :: rest) = if read.goesOn then read.content ++ received rest else [] := by
  unfold received
  cases h : read.goesOn <;> simp [h]

theorem readLinesFrom_eq (s : Splitter) (reads : List Read) :
    readLinesFrom s reads = s.whole (received reads) := by
  induction reads generalizing s with
  | nil => rfl
  | cons read rest ih =>
    rw [received_cons]
    cases read with
    | bytes chunk =>
      by_cases hempty : chunk = []
      · simp [readLinesFrom, Read.goesOn, Splitter.whole, hempty]
      · simp [readLinesFrom, Read.goesOn, Read.content, Splitter.whole, hempty, ih,
          Splitter.feed_append]
    | interrupted => simp [readLinesFrom, Read.goesOn, Read.content, ih]
    | failed => simp [readLinesFrom, Read.goesOn, Splitter.whole]

/-- The lines of a stream are the lines of its decoded text, and chunks are split as if they had
been read at once. -/
theorem readLines_eq_textLines (reads : List Read) :
    readLines reads = (textLines (Utf8.decodeLossy (received reads))).map String.ofList ∧
      ∀ chunks : List (List UInt8),
        Splitter.feedAll {} chunks = Splitter.feed {} chunks.flatten ∧
        (Splitter.feedAll {} chunks).1 ++ (Splitter.feedAll {} chunks).2.finish.1.toList =
          (textLines (Utf8.decodeLossy chunks.flatten)).map String.ofList := by
  have hwhole (bytes : List UInt8) : Splitter.whole {} bytes =
      (textLines (Utf8.decodeLossy bytes)).map String.ofList :=
    Splitter.whole_eq Splitter.ready_init bytes
  refine ⟨?_, fun chunks => ⟨Splitter.feedAll_eq {} chunks, ?_⟩⟩
  · rw [readLines, readLinesFrom_eq, hwhole]
  · rw [Splitter.feedAll_eq]
    exact hwhole chunks.flatten

/-- A line break and a character that are cut in two, with an interrupted read between. -/
example : readLines [.bytes [97, 13], .interrupted, .bytes [10, 0xE2, 0x82], .bytes [0xAC], .failed,
    .bytes [98]] = ["a", "€"] := by decide

end FirmwareJobs.Capture

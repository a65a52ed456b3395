import FirmwareJobs.Text.Utf8

/-! # Lines of a captured stream

LF and CR both end a line and CR LF ends one line, wherever the stream was cut between reads.
A line is decoded only when it is complete, so a character cut in two is not damaged.
-/

namespace FirmwareJobs.Capture

/-- The unfinished line, last byte first, and whether the last byte read was a CR that already
ended a line. -/
structure Splitter where
  pending : List UInt8 := []
  afterReturn : Bool := false
  deriving Repr, DecidableEq

namespace Splitter

def newline : UInt8 := 10
def carriageReturn : UInt8 := 13

/-- The text of the unfinished line. -/
def line (s : Splitter) : String := Text.Utf8.lossyString s.pending.reverse

def step (s : Splitter) (b : UInt8) : List String × Splitter :=
  if b = newline then
    if s.afterReturn then ([], { s with afterReturn := false })
    else ([s.line], {})
  else if b = carriageReturn then ([s.line], ⟨[], true⟩)
  else ([], ⟨b :: s.pending, false⟩)

/-- The lines that some bytes complete. -/
def feed : Splitter → List UInt8 → List String × Splitter
  | s, [] => ([], s)
  | s, b :: r =>
    let next := s.step b
    let rest := feed next.2 r
    (next.1 ++ rest.1, rest.2)

/-- The unterminated rest of the stream, if there is any. -/
def finish (s : Splitter) : Option String × Splitter :=
  if s.pending.isEmpty then (none, s)
  else (some s.line, { s with pending := [] })

@[simp] theorem feed_nil (s : Splitter) : s.feed [] = ([], s) := rfl

/-- Two reads in a row split like one. -/
theorem feed_append (s : Splitter) (a b : List UInt8) :
    s.feed (a ++ b) = ((s.feed a).1 ++ ((s.feed a).2.feed b).1, ((s.feed a).2.feed b).2) := by
  induction a generalizing s with
  | nil => simp
  | cons x r ih => simp [feed, ih]

end Splitter

/-- What one read of a stream gives. -/
inductive Read where
  | bytes (chunk : List UInt8)
  | interrupted
  | failed
  deriving Repr, DecidableEq

/-- The lines of a stream read to its end. An interrupted read is tried again; an empty read or a
failure ends the stream. -/
def readLinesFrom : Splitter → List Read → List String
  | s, .bytes chunk :: rest =>
    if chunk.isEmpty then s.finish.1.toList
    else (s.feed chunk).1 ++ readLinesFrom (s.feed chunk).2 rest
  | s, .interrupted :: rest => readLinesFrom s rest
  | s, _ => s.finish.1.toList

def readLines (reads : List Read) : List String := readLinesFrom {} reads

end FirmwareJobs.Capture

/-! # The window of recent log lines

Lines are numbered from 1 in the order in which they are pushed. The window keeps the last
`capacity` of them twice, as plain lines for a reader who starts and with their numbers for one who
goes on; a number is never used again, so an offset keeps its meaning after the lines before it are
gone.
-/

namespace FirmwareJobs.Log

/-- What the window answers when it is asked for the lines after an offset. -/
inductive Replay where
  | lines (entries : List (Nat × String))
  | upToDate
  | evicted (last : Nat)
  | empty
  deriving Repr, DecidableEq

/-- The lines kept, plain and with their numbers, oldest first. -/
structure Window where
  capacity : Nat
  recent : List String
  entries : List (Nat × String)
  last : Nat
  deriving Repr, DecidableEq

namespace Window

def ofCapacity (capacity : Nat) : Window := ⟨max capacity 1, [], [], 0⟩

/-- Append to a queue; a full one loses its oldest item. -/
def enqueue {α : Type} (capacity : Nat) (queue : List α) (item : α) : List α :=
  (if queue.length = capacity then queue.drop 1 else queue) ++ [item]

/-- Append a line under the next number. -/
def push (w : Window) (line : String) : Window :=
  ⟨w.capacity, enqueue w.capacity w.recent line,
    enqueue w.capacity w.entries (w.last + 1, line), w.last + 1⟩

def first? (w : Window) : Option Nat := w.entries.head?.map Prod.fst

/-- At most `limit` lines with numbers above `since`. -/
def after (w : Window) (since limit : Nat) : Replay :=
  match w.first? with
  | none => .empty
  | some first =>
    if since + 1 < first then .evicted w.last
    else if w.last ≤ since then .upToDate
    else
      match (w.entries.drop (since + 1 - first)).take limit with
      | [] => .upToDate
      | entries => .lines entries

/-- The window after all `lines` were pushed. -/
def pushAll (w : Window) (lines : List String) : Window := lines.foldl push w

end Window

end FirmwareJobs.Log

import FirmwareJobs.Http.EventStream
import FirmwareJobs.Proofs.Json.OneLine

/-! # Reading an event stream

A client reads a stream line by line. An empty line ends a block. A line that begins with a colon is
a comment; any other line is a field with a name, a colon and a value, and one space after the colon
does not belong to the value. The data fields of a block are the lines of its data.
-/

namespace FirmwareJobs.Http

open Text

/-- An event as its reader has it. -/
structure Notice where
  name : List Char
  data : List Char
  deriving DecidableEq

/-- The block begun, with its data lines so far. -/
structure Pending where
  name : List Char
  data : List (List Char)

namespace Pending

def empty : Pending := ⟨[], []⟩

def withoutSpace : List Char → List Char
  | ' ' :: r => r
  | s => s

def isComment (line : List Char) : Bool := line.head? = some ':'

/-- The value of a field, after the colon if there is one. -/
def fieldValue (line : List Char) : List Char :=
  withoutSpace ((line.dropWhile (· ≠ ':')).drop 1)

/-- Take one line of a block. Fields with other names are passed over. -/
def take (p : Pending) (line : List Char) : Pending :=
  let name := line.takeWhile (· ≠ ':')
  if isComment line then p
  else if name = "event".toList then { p with name := fieldValue line }
  else if name = "data".toList then { p with data := p.data ++ [fieldValue line] }
  else p

/-- The event of a block. A block without data has none. -/
def notice? (p : Pending) : Option Notice :=
  if p.data.isEmpty then none
  else some ⟨if p.name.isEmpty then "message".toList else p.name, ['\n'].intercalate p.data⟩

/-- The events in some lines. A block that is not ended has none. -/
def readLines (p : Pending) : List (List Char) → List Notice
  | [] => []
  | [] :: rest => p.notice?.toList ++ readLines empty rest
  | line :: rest => (p.take line).readLines rest

end Pending

/-- The events of a stream. What follows the last line end is no line. -/
def readStream (s : String) : List Notice := Pending.empty.readLines (Block.lines s.toList).dropLast

/-! ## Lines -/

theorem lines_cons {c : Char} (hc : ¬ IsBreak c) {s line : List Char} {rest : List (List Char)}
    (h : Block.lines s = line :: rest) : Block.lines (c :: s) = (c :: line) :: rest := by
  have hbreak : ¬ (c = '\n' ∨ c = '\r') := hc
  rw [Block.lines, if_neg hbreak, h]
  rintro r rfl
  exact absurd (Or.inr rfl) hbreak

theorem lines_of_oneLine {s : List Char} (h : OneLine s) : Block.lines s = [s] := by
  induction s with
  | nil => rfl
  | cons c s ih =>
    obtain ⟨hc, hs⟩ := oneLine_cons.mp h
    exact lines_cons hc (ih hs)

theorem lines_append {s : List Char} (h : OneLine s) (rest : List Char) :
    Block.lines (s ++ '\n' :: rest) = s :: Block.lines rest := by
  induction s with
  | nil =>
    rw [List.nil_append, Block.lines, if_pos (.inl rfl)]
    simp
  | cons c s ih =>
    obtain ⟨hc, hs⟩ := oneLine_cons.mp h
    exact lines_cons hc (ih hs)

/-- The text of some lines. -/
def textOf (lines : List (List Char)) : List Char := lines.flatMap (· ++ ['\n'])

theorem lines_textOf {lines : List (List Char)} (h : ∀ line ∈ lines, OneLine line) :
    Block.lines (textOf lines) = lines ++ [[]] := by
  induction lines with
  | nil => rfl
  | cons line rest ih =>
    obtain ⟨hline, hrest⟩ := List.forall_mem_cons.mp h
    rw [textOf, List.flatMap_cons, List.append_assoc]
    change Block.lines (line ++ '\n' :: textOf rest) = _
    rw [lines_append hline, ih hrest]
    rfl

/-- The lines of some blocks, each with the empty line that ends it. -/
def blockLines (blocks : List Block) : List (List Char) :=
  blocks.flatMap fun b => b.fields ++ [[]]

theorem renderStream_eq (blocks : List Block) :
    renderStream blocks = String.ofList (textOf (blockLines blocks)) := by
  rw [renderStream, textOf, blockLines, List.flatMap_assoc]
  congr 2
  funext b
  rw [List.flatMap_append]
  rfl

/-! ## Blocks -/

namespace Pending

theorem readLines_cons (p : Pending) {line : List Char} (h : line ≠ []) (rest : List (List Char)) :
    p.readLines (line :: rest) = (p.take line).readLines rest := by
  cases line with
  | nil => contradiction
  | cons c line => rfl

theorem take_comment (p : Pending) {line : List Char} (h : isComment line = true) :
    p.take line = p := by
  rw [take, if_pos h]

theorem readLines_filter (p : Pending) (lines : List (List Char)) :
    p.readLines (lines.filter fun line => !isComment line) = p.readLines lines := by
  induction lines generalizing p with
  | nil => rfl
  | cons line rest ih =>
    cases hcomment : isComment line with
    | true =>
      have hne : line ≠ [] := by
        rintro rfl
        contradiction
      rw [List.filter_cons_of_neg (by simp [hcomment]), ih, readLines_cons p hne,
        take_comment p hcomment]
    | false =>
      rw [List.filter_cons_of_pos (by simp [hcomment])]
      cases line with
      | nil => exact congrArg (p.notice?.toList ++ ·) (ih empty)
      | cons c line => exact ih _

theorem take_field (p : Pending) {name : List Char} (hne : name ≠ []) (h : ':' ∉ name)
    (value : List Char) : p.take (Block.fieldLine name value) =
      if name = "event".toList then { p with name := withoutSpace value }
      else if name = "data".toList then { p with data := p.data ++ [withoutSpace value] }
      else p := by
  have hall : ∀ c ∈ name, decide (c ≠ ':') = true := fun c hc => by
    have hcolon : c ≠ ':' := fun he => h (he ▸ hc)
    simpa using hcolon
  have htake : (Block.fieldLine name value).takeWhile (· ≠ ':') = name := by
    rw [Block.fieldLine, List.takeWhile_append_of_pos hall]
    simp
  have hdrop : (Block.fieldLine name value).dropWhile (· ≠ ':') = ':' :: value := by
    rw [Block.fieldLine, List.dropWhile_append_of_pos hall]
    simp
  have hcomment : isComment (Block.fieldLine name value) = false := by
    cases name with
    | nil => contradiction
    | cons c name =>
      have hc : c ≠ ':' := fun he => h (he ▸ List.mem_cons_self)
      simpa [isComment, Block.fieldLine] using hc
  rw [take, hcomment, htake, fieldValue, hdrop]
  rfl

theorem readLines_event {name data : List Char} (hname : withoutSpace name ≠ [])
    (hdata : OneLine data) (rest : List (List Char)) :
    empty.readLines (((Block.event name data).fields ++ [[]]) ++ rest) =
      ⟨withoutSpace name, withoutSpace data⟩ :: empty.readLines rest := by
  have hfields : (Block.event name data).fields =
      [Block.fieldLine "event".toList name, Block.fieldLine "data".toList data] := by
    rw [Block.fields, lines_of_oneLine hdata]
    rfl
  have hne {name value : List Char} : Block.fieldLine name value ≠ [] := by
    simp [Block.fieldLine]
  rw [hfields]
  change empty.readLines (_ :: _ :: [] :: rest) = _
  rw [readLines_cons _ hne, readLines_cons _ hne, take_field _ (by decide) (by decide), if_pos rfl,
    take_field _ (by decide) (by decide), if_neg (by decide), if_pos rfl, readLines]
  have hempty : (withoutSpace name).isEmpty = false := by simpa using hname
  simp [notice?, empty, hempty]

end Pending

/-- The line that is sent now and then to keep a connection alive. -/
def heartbeat : List Char := [':']

/-- The body of a stream: its blocks, with heartbeats between any of their lines. -/
def IsBody (blocks : List Block) (body : String) : Prop :=
  ∃ lines : List (List Char), body = String.ofList (textOf lines) ∧
    lines.filter (· ≠ heartbeat) = (blockLines blocks).filter (· ≠ heartbeat)

theorem isBody_renderStream (blocks : List Block) : IsBody blocks (renderStream blocks) :=
  ⟨blockLines blocks, renderStream_eq blocks, rfl⟩

theorem filter_comments (lines : List (List Char)) :
    (lines.filter (· ≠ heartbeat)).filter (fun line => !Pending.isComment line) =
      lines.filter fun line => !Pending.isComment line := by
  rw [List.filter_filter]
  refine List.filter_congr fun line _ => ?_
  by_cases h : line = heartbeat
  · subst h
    rfl
  · simp [h]

/-- A body is read by its blocks, whatever heartbeats there are. -/
theorem readStream_of_isBody {blocks : List Block} {body : String} (hbody : IsBody blocks body)
    (hclean : ∀ line ∈ blockLines blocks, OneLine line) :
    readStream body = Pending.empty.readLines (blockLines blocks) := by
  obtain ⟨lines, rfl, hbeats⟩ := hbody
  -- The line breaks of the body are those between its lines only if no line contains one.
  have hlines : ∀ line ∈ lines, OneLine line := fun line hline => by
    by_cases h : line = heartbeat
    · subst h
      decide
    · have hkept : line ∈ lines.filter (· ≠ heartbeat) :=
        List.mem_filter.mpr ⟨hline, by simpa using h⟩
      rw [hbeats] at hkept
      exact hclean line (List.mem_filter.mp hkept).1
  rw [readStream, String.toList_ofList, lines_textOf hlines, List.dropLast_concat,
    ← Pending.readLines_filter, ← filter_comments, hbeats, filter_comments,
    Pending.readLines_filter]

end FirmwareJobs.Http

import FirmwareJobs.Job.Live
import FirmwareJobs.Url.Percent

/-! # Event streams

A stream is a series of blocks. A block is a comment, which begins with a colon, or an event with a
name and data; an empty line ends it. Data of several lines are written as several fields.
-/

namespace FirmwareJobs.Http

inductive Block where
  | comment (text : List Char)
  | event (name data : List Char)
  deriving Repr, DecidableEq

namespace Block

/-- The lines of a text. A line ends with a line feed, a carriage return or both. -/
def lines : List Char → List (List Char)
  | '\r' :: '\n' :: r => [] :: lines r
  | c :: r =>
    if c = '\n' ∨ c = '\r' then [] :: lines r
    else
      match lines r with
      | line :: rest => (c :: line) :: rest
      | [] => [[c]]
  | [] => [[]]

/-- A field with one line of its value. -/
def fieldLine (name line : List Char) : List Char := name ++ ':' :: line

def fields : Block → List (List Char)
  | .comment text => (lines text).map (fieldLine [])
  | .event name data =>
    fieldLine "event".toList name :: (lines data).map (fieldLine "data".toList)

def render (b : Block) : List Char := b.fields.flatMap (· ++ ['\n']) ++ ['\n']

end Block

/-- How long the comment is that makes proxies pass on a stream at once. -/
def paddingLength : Nat := 2048

def padding : Block := .comment (List.replicate paddingLength ' ')

def logBlock (line : String) : Block := .event "log".toList line.toList

def doneBlock (r : Record) : Block := .event "done".toList (Record.format.encode r).toList

def eventBlock : Event → Block
  | .line _ text => logBlock text
  | .done r => doneBlock r

/-- The events up to the first that tells the end of the job. -/
def upToDone : List Event → List Event
  | [] => []
  | .done r :: _ => [.done r]
  | e :: rest => e :: upToDone rest

/-- The stream of a job: the padding, the history and the events that came later. -/
def streamBlocks (history : List String) (later : List Event) : List Block :=
  padding :: history.map logBlock ++ (upToDone later).map eventBlock

def renderStream (blocks : List Block) : String := String.ofList (blocks.flatMap Block.render)

end FirmwareJobs.Http

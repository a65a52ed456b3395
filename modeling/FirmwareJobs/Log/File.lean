import FirmwareJobs.Text.Utf8

/-! # Lines of a log file

A line of the file ends with LF; the rest after the last LF is a line too unless it is empty.
Each line is decoded on its own and loses the CR and LF characters at its end.
-/

namespace FirmwareJobs.Log

def newline : UInt8 := 10

/-- The pieces of a file, each with the LF that ends it. `piece` is the piece begun, last byte
first. -/
def piecesFrom : List UInt8 → List UInt8 → List (List UInt8)
  | piece, [] => if piece.isEmpty then [] else [piece.reverse]
  | piece, b :: r =>
    if b = newline then (b :: piece).reverse :: piecesFrom [] r else piecesFrom (b :: piece) r

def pieces (content : List UInt8) : List (List UInt8) := piecesFrom [] content

def lineOf (piece : List UInt8) : String :=
  let text := Text.Utf8.decodeLossy piece
  String.ofList (text.reverse.dropWhile fun c => c == '\n' || c == '\r').reverse

def fileLines (content : List UInt8) : List String := (pieces content).map lineOf

/-- The last `limit` lines of a file; a missing file has none. -/
def fileTail (content : Option (List UInt8)) (limit : Nat) : List String :=
  let lines := fileLines (content.getD [])
  lines.drop (lines.length - limit)

end FirmwareJobs.Log

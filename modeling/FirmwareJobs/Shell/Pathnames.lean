import FirmwareJobs.Files.Tree
import FirmwareJobs.Shell.Pattern

/-! # Patterns of path names

A field with pattern characters is replaced by the sorted path names that it fits, if there are
any. A name that starts with a point is found only by a pattern that starts with a point.
-/

namespace FirmwareJobs.Shell.Pathnames

open Text

/-- The parts of a field between its slashes. -/
def parts : List Glyph → List (List Glyph)
  | [] => [[]]
  | g :: r =>
    match parts r with
    | p :: rest => if g.char = '/' then [] :: p :: rest else (g :: p) :: rest
    | [] => [[g]]

def textOf (s : List Glyph) : ByteText := s.map (·.char)

/-- The names in a directory, sorted. -/
def namesIn (files : Files.Tree) (here : Files.Place) (path : ByteText) : List ByteText :=
  let path := if path.isEmpty then "." else ByteText.toString path
  match files.list here path with
  | .ok names => ((names.mergeSort fun a b => a ≤ b).map ByteText.ofString)
  | .error _ => []

def startsWithPoint (s : ByteText) : Bool := s.head? == some '.'

/-- The paths that continue `before` by the parts of a pattern. -/
def continuations (files : Files.Tree) (here : Files.Place) :
    ByteText → List (List Glyph) → List ByteText
  | before, [] => [before]
  | before, p :: rest =>
    let names :=
      if Pattern.isPattern p then
        (namesIn files here before).filter fun n =>
          Pattern.isMatch p n && (!startsWithPoint n || startsWithPoint (textOf p))
      else
        let path := before ++ textOf p
        if p.isEmpty ∨ files.exists? here (ByteText.toString path) then [textOf p] else []
    names.flatMap fun n =>
      if rest.isEmpty then [before ++ n]
      else continuations files here (before ++ n ++ ['/']) rest

/-- The texts that a field stands for. -/
def expand (files : Files.Tree) (here : Files.Place) (field : List Glyph) : List ByteText :=
  if Pattern.isPattern field then
    match continuations files here [] (parts field) with
    | [] => [textOf field]
    | found => found
  else [textOf field]

end FirmwareJobs.Shell.Pathnames

/-! # Path names

A path name is a text divided by slashes. Joining an absolute name replaces the directory.
-/

namespace FirmwareJobs.Path

def isAbsolute (path : String) : Bool := path.toList.head? == some '/'

def join (directory name : String) : String :=
  if isAbsolute name then name
  else
    match directory.toList.getLast? with
    | none => name
    | some c => if c = '/' then directory ++ name else directory ++ "/" ++ name

/-- The parts of a path name between its slashes. -/
def parts : List Char → List (List Char)
  | [] => [[]]
  | c :: r =>
    if c = '/' then [] :: parts r
    else
      match parts r with
      | part :: rest => (c :: part) :: rest
      | [] => [[c]]

/-- The directory part of a path name: without its last part and the slashes around that. -/
def parent? (path : String) : Option String :=
  let reversed := path.toList.reverse.dropWhile (· == '/')
  if reversed.isEmpty then none
  else
    let above := (reversed.dropWhile (· != '/')).dropWhile (· == '/')
    if above.isEmpty then some (if isAbsolute path then "/" else "")
    else some (String.ofList above.reverse)

/-- What follows the last point of a file name, unless that point is the first character. -/
def extension? (name : String) : Option String :=
  let (after, before) := name.toList.reverse.span (· != '.')
  match before with
  | _ :: _ :: _ => some (String.ofList after.reverse)
  | _ => none

end FirmwareJobs.Path

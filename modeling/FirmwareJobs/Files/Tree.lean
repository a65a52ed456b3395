import FirmwareJobs.Files.Fault
import FirmwareJobs.Path
import FirmwareJobs.Text.Utf8

/-! # A tree of files

A place is the list of names that leads to it from the root. Every entry is kept with its place; a
directory holds the entries whose places have one name more. There are no links, so the parent of
a place is the place without its last name.
-/

namespace FirmwareJobs.Files

abbrev Place := List String

inductive Entry where
  | directory
  | file (content : List UInt8)
  | program (name : String)
  | sink
  | full
  deriving Repr, DecidableEq

structure Tree where
  entries : List (Place × Entry) := []
  deriving Repr, DecidableEq

/-- The names in a path. -/
def names (path : String) : List String :=
  (Path.parts path.toList).filterMap fun part =>
    if part.isEmpty then none else some (String.ofList part)

namespace Tree

/-- The root is always a directory. -/
def entry? (t : Tree) (p : Place) : Option Entry :=
  if p = [] then some .directory else t.entries.lookup p

def isDirectory (t : Tree) (p : Place) : Bool := t.entry? p == some .directory

def put (t : Tree) (p : Place) (e : Entry) : Tree :=
  if (t.entries.lookup p).isSome then
    ⟨t.entries.map fun (q, old) => if q = p then (q, e) else (q, old)⟩
  else ⟨t.entries ++ [(p, e)]⟩

/-- Remove a place with all that lies below it. -/
def erase (t : Tree) (p : Place) : Tree := ⟨t.entries.filter fun (q, _) => !p.isPrefixOf q⟩

/-- The names in a directory. -/
def children (t : Tree) (p : Place) : List String :=
  t.entries.filterMap fun (q, _) =>
    if q.dropLast = p ∧ q ≠ [] then q.getLast? else none

/-- Walk along names from a place. All places on the way must be directories; the last name need
not exist. -/
def walk (t : Tree) (here : Place) : List String → Except Fault Place
  | [] => .ok here
  | name :: rest =>
    match t.entry? here with
    | none => .error .missing
    | some .directory =>
      if name = "." then walk t here rest
      else if name = ".." then walk t here.dropLast rest
      else if 255 < name.utf8ByteSize then .error .nameTooLong
      else walk t (here ++ [name]) rest
    | some _ => .error .notDirectory

/-- The place that a path leads to from the directory `here`. -/
def locate (t : Tree) (here : Place) (path : String) : Except Fault Place := do
  if path = "" then .error .missing
  if path.toList.contains '\x00' then .error .nulInName
  if 4095 < path.utf8ByteSize then .error .nameTooLong
  let place ← t.walk (if Path.isAbsolute path then [] else here) (names path)
  if path.toList.getLast? = some '/' ∧ !t.isDirectory place then
    match t.entry? place with
    | some _ => .error .notDirectory
    | none => .ok place
  else .ok place

/-- The entry at a place that must exist. -/
def demand (t : Tree) (p : Place) : Except Fault Entry :=
  match t.entry? p with
  | some e => .ok e
  | none => .error .missing

def isFile (t : Tree) (here : Place) (path : String) : Bool :=
  match t.locate here path with
  | .ok place =>
    match t.entry? place with
    | some (.file _) | some (.program _) => true
    | _ => false
  | .error _ => false

def exists? (t : Tree) (here : Place) (path : String) : Bool :=
  match t.locate here path with
  | .ok place => (t.entry? place).isSome
  | .error _ => false

def read (t : Tree) (here : Place) (path : String) : Except Fault (List UInt8) := do
  match ← t.demand (← t.locate here path) with
  | .file content => .ok content
  | .directory => .error .isDirectory
  | _ => .ok []

/-- The content of a file, `none` if it cannot be read. -/
def content? (t : Tree) (here : Place) (path : String) : Option (List UInt8) :=
  (t.read here path).toOption

/-- Check that a file can be opened for writing at a place; the entry that is there now. -/
def writable (t : Tree) (p : Place) : Except Fault (Option Entry) :=
  match t.entry? p with
  | some .directory => .error .isDirectory
  | some e => .ok (some e)
  | none =>
    match t.entry? p.dropLast with
    | some .directory => .ok none
    | some _ => .error .notDirectory
    | none => .error .missing

/-- Open a file for writing and make it empty. -/
def create (t : Tree) (here : Place) (path : String) : Except Fault (Place × Tree) := do
  let place ← t.locate here path
  match ← t.writable place with
  | none | some (.file _) => .ok (place, t.put place (.file []))
  | some _ => .ok (place, t)

/-- Open a file for appending; it is created if it is missing. -/
def openAppend (t : Tree) (here : Place) (path : String) : Except Fault (Place × Tree) := do
  let place ← t.locate here path
  match ← t.writable place with
  | none => .ok (place, t.put place (.file []))
  | some _ => .ok (place, t)

/-- Append to the open file at a place. What is written to a removed file is lost. -/
def append (t : Tree) (p : Place) (bytes : List UInt8) : Except Fault Tree :=
  match t.entry? p with
  | some (.file old) => .ok (t.put p (.file (old ++ bytes)))
  | some .full => if bytes.isEmpty then .ok t else .error .noSpace
  | _ => .ok t

/-- Replace the content of a file. -/
def write (t : Tree) (here : Place) (path : String) (content : List UInt8) :
    Except Fault Tree := do
  let (place, t) ← t.create here path
  t.append place content

/-- Move a file to another place, replacing the file there. -/
def rename (t : Tree) (here : Place) (source target : String) : Except Fault Tree := do
  let a ← t.locate here source
  let e ← t.demand a
  let b ← t.locate here target
  let _ ← t.writable b
  if a = b then .ok t else .ok ((t.erase a).put b e)

/-- Create one directory. -/
def makeDirectory (t : Tree) (here : Place) (path : String) : Except Fault Tree := do
  let place ← t.locate here path
  match t.entry? place with
  | some _ => .error .taken
  | none =>
    match t.entry? place.dropLast with
    | some .directory => .ok (t.put place .directory)
    | some _ => .error .notDirectory
    | none => .error .missing

def isDirectoryAt (t : Tree) (here : Place) (path : String) : Bool :=
  match t.locate here path with
  | .ok place => t.isDirectory place
  | .error _ => false

/-- Create a directory unless it is there already. -/
def ensureDirectory (t : Tree) (here : Place) (path : String) : Except Fault Tree :=
  match t.makeDirectory here path with
  | .ok t => .ok t
  | .error fault => if t.isDirectoryAt here path then .ok t else .error fault

/-- Create a directory with those above it that are missing. `fuel` bounds their number. -/
def makeDirectoriesFrom (t : Tree) (here : Place) : Nat → String → Except Fault Tree
  | 0, _ => .error .missing
  | fuel + 1, path =>
    if path = "" then .ok t
    else
      match t.makeDirectory here path with
      | .error .missing =>
        match Path.parent? path with
        | none => .error .missing
        | some above => do
          let t ← makeDirectoriesFrom t here fuel above
          t.ensureDirectory here path
      | .ok t => .ok t
      | .error fault => if t.isDirectoryAt here path then .ok t else .error fault

def makeDirectories (t : Tree) (here : Place) (path : String) : Except Fault Tree :=
  t.makeDirectoriesFrom here (path.length + 1) path

/-- Put a file, or a directory, with the directories above it that are missing. -/
def install (t : Tree) (path : String) (content : Option (List UInt8)) : Tree :=
  let above := (Path.parent? path).getD "/"
  let t := (t.makeDirectories [] above).toOption.getD t
  match content with
  | some bytes => (t.write [] path bytes).toOption.getD t
  | none => (t.makeDirectories [] path).toOption.getD t

/-- The names in a directory that must exist. -/
def list (t : Tree) (here : Place) (path : String) : Except Fault (List String) := do
  let place ← t.locate here path
  match ← t.demand place with
  | .directory => .ok (t.children place)
  | _ => .error .notDirectory

end Tree

end FirmwareJobs.Files

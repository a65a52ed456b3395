import FirmwareJobs.Files.Tree
import FirmwareJobs.Job.Record
import FirmwareJobs.Settings.Engine
import FirmwareJobs.Text.Utf8

/-! # The job directory

The record of a job is kept in `<id>.json` and its log in `<id>.log`. A record is written to a
draft first, which then replaces the old record, so a reader never sees half a record.
-/

namespace FirmwareJobs

structure Store where
  directory : String
  /-- Where relative paths start. -/
  home : Files.Place := []
  deriving Repr, DecidableEq

namespace Store

open Files

def ofSettings (s : Settings) : Store := ⟨s.jobDir, s.home⟩

def path (s : Store) (name : String) : String := Path.join s.directory name

def recordPath (s : Store) (id : String) : String := s.path (id ++ ".json")

def draftPath (s : Store) (id : String) : String := s.path (id ++ ".json.tmp")

def logPath (s : Store) (id : String) : String := s.path (id ++ ".log")

/-- Use the directory of the settings; it is created if it is missing. -/
def «open» (files : Tree) (settings : Settings) : Except Fault (Store × Tree) := do
  let store := ofSettings settings
  let files ← files.makeDirectories store.home store.directory
  .ok (store, files)

/-- Create the log of a new job, or empty it. -/
def createLog (s : Store) (files : Tree) (id : String) : Except Fault Tree := do
  let (_, files) ← files.create s.home (s.logPath id)
  .ok files

/-- The text of a record file. -/
def recordText (r : Record) : String := Record.format.encodeIndented r ++ "\n"

def recordBytes (r : Record) : List UInt8 := Text.Utf8.ofString (recordText r)

/-- Save a record. A failure may leave a draft behind. -/
def save (s : Store) (files : Tree) (r : Record) : Except Fault Unit × Tree :=
  match files.write s.home (s.draftPath r.id) (recordBytes r) with
  | .error fault => (.error fault, files)
  | .ok drafted =>
    match drafted.rename s.home (s.draftPath r.id) (s.recordPath r.id) with
    | .error fault => (.error fault, drafted)
    | .ok files => (.ok (), files)

/-- The record in a file, unless the file is unreadable or has a record without id. -/
def readRecord? (s : Store) (files : Tree) (path : String) : Option Record := do
  let bytes ← files.content? s.home path
  let record ← (Record.format.decode bytes).toOption
  if record.id = "" then none else some record

/-- All records in the directory. Files with another ending and unreadable ones are skipped. -/
def loadAll (s : Store) (files : Tree) : Except Fault (List Record) := do
  let names ← files.list s.home s.directory
  .ok (names.filterMap fun name =>
    if Path.extension? name = some "json" then s.readRecord? files (s.path name) else none)

end Store

end FirmwareJobs

import FirmwareJobs.Machine.Program

/-! # A standard host

The directories, programs and devices that every host has.
-/

namespace FirmwareJobs.Machine

namespace Program

def installed : List String :=
  ["sh", "echo", "printf", "sleep", "true", "false", "basename", "cat"]

def programPlaces : List (Files.Place × Files.Entry) :=
  installed.flatMap fun name =>
    [(["bin", name], .program name), (["usr", "bin", name], .program name)]

end Program

def standardFiles : Files.Tree :=
  ⟨[["bin"], ["usr"], ["usr", "bin"], ["dev"], ["tmp"]].map (fun p => (p, Files.Entry.directory)) ++
    [(["dev", "null"], .sink), (["dev", "full"], .full)] ++ Program.programPlaces⟩

/-- The environment of a process that nobody prepared. -/
def standardEnvironment : List (String × String) :=
  [("PATH", String.ofList Program.standardPath)]

end FirmwareJobs.Machine

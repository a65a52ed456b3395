import FirmwareJobs.Job.Record

/-! # Toolchain steps of an action

Each step is a list of arguments for the toolchain command. Steps run in order, and a step that
fails ends the job.
-/

namespace FirmwareJobs.Toolchain

/-- The option that asks for a build from scratch. -/
def cleanOption (record : Record) : List String := if record.clean then ["--clean"] else []

def deviceOption (record : Record) : List String := ["--device", record.device]

def configStep (document : String) : List String := ["config", document]

def compileStep (record : Record) (document : String) : List String :=
  ["compile", document] ++ cleanOption record

def uploadStep (record : Record) (document : String) : List String :=
  ["upload", document] ++ deviceOption record ++ cleanOption record

def logsStep (record : Record) (document : String) : List String :=
  ["logs", document] ++ deviceOption record

def steps (record : Record) (document : String) : List (List String) :=
  match record.action with
  | .compile => [configStep document, compileStep record document]
  | .ota => [configStep document, compileStep record document, uploadStep record document]
  | .logs => [logsStep record document]

end FirmwareJobs.Toolchain

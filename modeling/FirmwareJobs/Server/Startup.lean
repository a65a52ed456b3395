import FirmwareJobs.Engine.Service
import FirmwareJobs.Settings.Server
import FirmwareJobs.Settings.VariableFile

/-! # Starting the server

The server reads its settings, opens the job directory and starts the worker. Later it reports
only the records that it could not save.
-/

namespace FirmwareJobs.Server

/-- Why the server does not start. -/
inductive StartupFault where
  | settings (fault : SettingFault)
  | engine (e : EngineError)
  deriving Repr, DecidableEq

def StartupFault.message : StartupFault → String
  | .settings fault => "invalid configuration: " ++ fault.message
  | .engine e => "job engine failed: " ++ e.message

/-- Start the server in a directory. -/
def startup (host : Machine.Host) (home : Files.Place) (environment : Environment)
    (epoch : Time.Instant) : Except StartupFault Service :=
  let environment := VariableFile.loadNearest host.files home environment
  match ServerSettings.ofLookup environment.get? with
  | .error fault => .error (.settings fault)
  | .ok settings =>
    match Service.open host { settings.engine with home } environment epoch 0 with
    | .error e => .error (.engine e)
    | .ok service =>
      match service.start with
      | (.ok (), service) => .ok service
      | (.error e, _) => .error (.engine e)

def faultMessage (id : String) (fault : Files.Fault) : String :=
  "failed to persist job record: " ++ (EngineError.io fault).message ++ " job_id=" ++ id

/-- What a running server reported as errors. -/
def errors (s : Service) : List String :=
  s.engine.faults.map fun (id, fault) => faultMessage id fault

end FirmwareJobs.Server

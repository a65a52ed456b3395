import FirmwareJobs.Files.Fault
import FirmwareJobs.Job.Request

/-! # Errors of the job engine -/

namespace FirmwareJobs

inductive EngineError where
  | notFound (id : String)
  | invalid (rejection : Rejection)
  | documentNotFound (name : String)
  | alreadyStarted
  | io (fault : Files.Fault)
  deriving Repr, DecidableEq

namespace EngineError

def message : EngineError → String
  | .notFound id => "job " ++ id ++ " not found"
  | .invalid rejection => rejection.message
  | .documentNotFound name => "configuration document " ++ name ++ " not found"
  | .alreadyStarted => "job manager already started"
  | .io fault => "job store i/o error: " ++ fault.message

end EngineError

end FirmwareJobs

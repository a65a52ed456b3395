import FirmwareJobs.Api.Messages
import FirmwareJobs.Engine.Error

/-! # Error answers of the server -/

namespace FirmwareJobs.Http

open Api

def internalProblem : Problem := ⟨"An internal error occurred", "INTERNAL_ERROR"⟩

/-- The body for a status that no route answered itself. -/
def statusProblem? (status : Nat) : Option Problem :=
  if status = 400 then some ⟨"Malformed request", "BAD_REQUEST"⟩
  else if status = 404 then some ⟨"Not found", "NOT_FOUND"⟩
  else if status = 422 then some ⟨"Invalid request body", "BAD_REQUEST"⟩
  else if status = 500 then some internalProblem
  else none

/-- The status and body for an error of the engine. -/
def engineProblem : EngineError → Nat × Problem
  | .notFound _ => (404, ⟨"Job not found", "NOT_FOUND"⟩)
  | .documentNotFound name => (404, ⟨(EngineError.documentNotFound name).message,
      "DOCUMENT_NOT_FOUND"⟩)
  | .invalid rejection => (400, ⟨rejection.message, "INVALID_REQUEST"⟩)
  | .alreadyStarted | .io _ => (500, internalProblem)

end FirmwareJobs.Http

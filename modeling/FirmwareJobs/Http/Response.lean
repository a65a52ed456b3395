import FirmwareJobs.Http.Problem

/-! # Responses of the server -/

namespace FirmwareJobs.Http

/-- The body of a response. A body of another kind is not looked at by any client. -/
inductive Body where
  | json (text : String)
  | events (text : String)
  | other
  deriving Repr, DecidableEq

structure Response where
  status : Nat
  body : Body
  deriving Repr, DecidableEq

namespace Response

def ok {α : Type} (format : Json.Format α) (message : α) : Response :=
  ⟨200, .json (format.encode message)⟩

def ofProblem (status : Nat) (problem : Api.Problem) : Response :=
  ⟨status, .json (Api.Problem.format.encode problem)⟩

/-- The response with a status that no route gave. -/
def ofStatus (status : Nat) : Response :=
  match statusProblem? status with
  | some problem => ofProblem status problem
  | none => ⟨status, .other⟩

def ofError (e : EngineError) : Response :=
  let (status, problem) := engineProblem e
  ofProblem status problem

/-- What is left of a response if only its head is asked for. -/
def head (r : Response) : Response :=
  { r with body := match r.body with
    | .json _ => .json ""
    | .events _ => .events ""
    | .other => .other }

end Response

end FirmwareJobs.Http

import FirmwareJobs.Api.Messages
import FirmwareJobs.Client.Status

/-! # Replies of the server

A reply is broken, or it has a status and a body. A success must carry the expected message; any
other status is reported with the problem in its body, or by its reason if there is none.
-/

namespace FirmwareJobs.Client

open Json

inductive Reply where
  | broken (reason : String)
  | answered (code : Nat) (body : Bytes)
  deriving Repr, DecidableEq

/-- Why a call failed. -/
inductive Fault where
  | broken (reason : String)
  | body (failure : Failure)
  | refused (problem : Api.Problem)
  | status (code : Nat)
  deriving Repr, DecidableEq

def failureText : Failure → String
  | .truncated => "the text ends too early"
  | .malformed => "the text is not JSON"
  | .mismatched => "the value has another type"

def Fault.message : Fault → String
  | .broken reason => "error executing request: " ++ reason
  | .body failure => "unexpected response body: " ++ failureText failure
  | .refused problem => problem.error ++ " (" ++ problem.code ++ ")"
  | .status code => "unexpected response: " ++ statusText code

/-- The message in a reply. -/
def Reply.read {α : Type} (format : Format α) : Reply → Except Fault α
  | .broken reason => .error (.broken reason)
  | .answered code body =>
    if isSuccess code then
      match format.decode body with
      | .ok message => .ok message
      | .error failure => .error (.body failure)
    else
      match Api.Problem.format.decode body with
      | .ok problem => .error (.refused problem)
      | .error _ => .error (.status code)

end FirmwareJobs.Client

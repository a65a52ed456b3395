import FirmwareJobs.Client.Reply
import FirmwareJobs.Url.Basic

/-! # Operations of the client

Every operation is one call to the server and a text made from the reply. Following a job is a
series of calls and has its own module.
-/

namespace FirmwareJobs.Client

open Api

inductive Operation where
  | submit (request : Request) (follow : Bool)
  | status (id : String)
  | list
  | tail (id : String) (since limit : Nat)
  | follow (id : String)
  | cancel (id : String)
  deriving Repr, DecidableEq

inductive Method where
  | get
  | post
  deriving Repr, DecidableEq

def Method.name : Method → String
  | .get => "GET"
  | .post => "POST"

/-- A call to the server: its path below the base, its query and its body. -/
structure Call where
  method : Method
  path : String
  query : List (String × Nat) := []
  body : Option Request := none
  deriving Repr, DecidableEq

/-- The address of a call, `none` if the base is no absolute address. -/
def Call.url? (base : String) (call : Call) : Option Url :=
  (Url.ofText? (base ++ call.path)).map (·.withQuery call.query)

def jobPath (id : String) : String := "/api/jobs/" ++ id

/-- How long the server may hold a call of a follower, in seconds. -/
def followWait : Nat := 15

def followCall (id : String) (since : Nat) : Call :=
  { method := .get, path := jobPath id ++ "/tail-wait",
    query := [("since", since), ("timeout", followWait)] }

/-- The first call of an operation. -/
def Operation.call : Operation → Call
  | .submit request _ => { method := .post, path := "/api/jobs", body := some request }
  | .status id => { method := .get, path := jobPath id }
  | .list => { method := .get, path := "/api/jobs" }
  | .tail id since limit =>
    { method := .get, path := jobPath id ++ "/tail", query := [("since", since), ("limit", limit)] }
  | .follow id => followCall id 0
  | .cancel id => { method := .post, path := jobPath id ++ "/cancel" }

/-- One job in a line. -/
def describe (r : Record) : String :=
  r.id ++ " " ++ r.state.title ++ " " ++ r.action.word ++ " " ++ r.document ++
    (if r.device = "" then "" else " -> " ++ r.device) ++
    (match r.exitCode with
      | some code => " (exit " ++ String.ofList (Text.integerDigits code.toInt) ++ ")"
      | none => "") ++
    (if r.errorSummary = "" then "" else ": " ++ r.errorSummary)

def describeSubmitted (s : Submitted) : String := "queued job " ++ s.jobId

def describeJobs (jobs : List Record) : String :=
  if jobs.isEmpty then "no jobs" else "\n".intercalate (jobs.map describe)

/-- The lines of a page and the offset to go on from. -/
def describePage (p : Page) : String :=
  let lines := "\n".intercalate p.lines
  (if lines = "" then "" else lines ++ "\n") ++
    "-- next_seq " ++ String.ofList (Text.digits p.next) ++ " --"

/-- The text of a message or of the fault that took its place. -/
def textOf {α : Type} (text : α → String) : Except Fault α → String
  | .ok a => text a
  | .error fault => fault.message

end FirmwareJobs.Client

import FirmwareJobs.Http.MediaType
import FirmwareJobs.Http.Target

/-! # Routes of the server -/

namespace FirmwareJobs.Http

inductive Method where
  | get
  | head
  | post
  | other
  deriving Repr, DecidableEq

def Method.ofName (name : String) : Method :=
  if name = "GET" then .get
  else if name = "HEAD" then .head
  else if name = "POST" then .post
  else .other

structure Message where
  method : Method
  target : String
  contentType : Option String := none
  body : List UInt8 := []
  deriving Repr, DecidableEq

inductive Route where
  | health
  | submit
  | list
  | status (id : String)
  | tail (id : String)
  | tailWait (id : String)
  | stream (id : String)
  | cancel (id : String)
  deriving Repr, DecidableEq

namespace Route

def reading? : List String → Option Route
  | ["health"] => some .health
  | ["jobs"] => some .list
  | ["jobs", id] => some (.status id)
  | ["jobs", id, "tail"] => some (.tail id)
  | ["jobs", id, "tail-wait"] => some (.tailWait id)
  | ["jobs", id, "stream"] => some (.stream id)
  | _ => none

/-- A new job is accepted as JSON only. -/
def writing? (isJson : Bool) : List String → Option Route
  | ["jobs"] | ["install"] => if isJson then some .submit else none
  | ["jobs", id, "cancel"] => some (.cancel id)
  | _ => none

/-- The route of a message to a target. -/
def find? (m : Message) (t : Target) : Option Route :=
  match t.segments with
  | "api" :: rest =>
    match m.method with
    | .get | .head => reading? rest
    | .post => writing? (m.contentType.bind MediaType.ofText? == some .json) rest
    | .other => none
  | _ => none

end Route

end FirmwareJobs.Http

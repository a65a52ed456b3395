import FirmwareJobs.Engine.Service
import FirmwareJobs.Http.EventStream
import FirmwareJobs.Http.Response
import FirmwareJobs.Http.Route

/-! # Serving requests

The engine behind its routes. A message whose target is malformed or has no route gets the problem
of its status.
-/

namespace FirmwareJobs.Http

open Api

/-- The longest body of a message, in bytes. -/
def bodyLimit : Nat := 1048576

/-- The request in a body, or the status that tells why there is none. -/
def readRequest (body : List UInt8) : Except Nat Request :=
  if (Text.Utf8.decode? (body.take bodyLimit)).isNone then .error 400
  else if bodyLimit < body.length then .error 413
  else
    match Request.format.decode body with
    | .ok request => .ok request
    | .error .mismatched => .error 422
    | .error _ => .error 400

def page (a : Observe.Answer) : Response := .ok Page.format ⟨a.record, a.lines, a.next⟩

end FirmwareJobs.Http

namespace FirmwareJobs.Service

open Api Http

/-- Answer from the job with an id. -/
def withJob (s : Service) (id : String) (answer : Nat → Option (Response × Service)) :
    Response × Service :=
  ((s.engine.position? id).bind answer).getD (.ofError (.notFound id), s)

/-- Everything that a listener of a job hears to the end of its stream. -/
def stream? (s : Service) (position : Nat) : Option (List Block × Service) := do
  let (a, s) ← s.attach? position
  match a.listener with
  | none => some (streamBlocks a.history [.done a.record], s)
  | some listener =>
    let (events, s) := collect position listener Toolchain.turns s
    some (streamBlocks a.history events, s)

def handle (s : Service) (m : Message) (t : Target) : Route → Response × Service
  | .health => (.ok Health.format ⟨"ok", s.now⟩, s)
  | .submit =>
    match readRequest m.body with
    | .error status => (.ofStatus status, s)
    | .ok request =>
      match s.submit request with
      | (.ok record, s) => (.ok Submitted.format ⟨record.id, record⟩, s)
      | (.error e, s) => (.ofError e, s)
  | .list => (.ok Listing.format ⟨s.engine.list⟩, s)
  | .status id => s.withJob id fun position =>
    (s.job? position).map fun job => (.ok Single.format ⟨job.record⟩, s)
  | .tail id => s.withJob id fun position =>
    (s.tail? position (Observe.startOffset (t.integer? "since"))
      (Observe.tailLimit (t.integer? "limit"))).map fun a => (page a, s)
  | .tailWait id => s.withJob id fun position =>
    (s.tailWait? position (Observe.startOffset (t.integer? "since"))
      (Observe.waitLimit (t.integer? "limit"))
      (Observe.waitNanos (t.real? "timeout"))).map fun (a, s) => (page a, s)
  | .stream id => s.withJob id fun position =>
    (s.stream? position).map fun (blocks, s) => (⟨200, .events (renderStream blocks)⟩, s)
  | .cancel id =>
    match s.cancel id with
    | (.ok record, s) => (.ok Single.format ⟨record⟩, s)
    | (.error e, s) => (.ofError e, s)

def respond (s : Service) (m : Message) : Response × Service :=
  match Target.ofText? m.target with
  | none => (.ofStatus 400, s)
  | some t =>
    let (response, s) := match Route.find? m t with
      | some route => s.handle m t route
      | none => (.ofStatus 404, s)
    (if m.method = .head then response.head else response, s)

end FirmwareJobs.Service

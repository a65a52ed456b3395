import FirmwareJobs.Client.Follow

/-! # Sessions of the client

A session turns an operation into calls, and replies into effects on the console, until it has its
final output.
-/

namespace FirmwareJobs.Client

open Api

inductive Effect where
  | print (line : String)
  | complain (line : String)
  | pause (milliseconds : Nat)
  deriving Repr, DecidableEq

inductive Session where
  | asking (operation : Operation)
  | following (id : String) (follow : Follow)
  | ended (output : String)
  deriving Repr, DecidableEq

namespace Session

def start : Operation → Session
  | .follow id => .following id {}
  | operation => .asking operation

/-- The call whose reply the session waits for. -/
def call? : Session → Option Call
  | .asking operation => some operation.call
  | .following id follow => some (follow.call id)
  | .ended _ => none

/-- The effects and the session that follow from the answer to a submission. -/
def submitted (follow : Bool) : Except Fault Submitted → List Effect × Session
  | .ok s =>
    if follow then ([.print (describeSubmitted s)], .following s.jobId {})
    else ([], .ended (describeSubmitted s))
  | .error fault => ([], .ended fault.message)

def followed (id : String) : FollowStep → List Effect × Session
  | .onward lines next => (lines.map .print, .following id next)
  | .retry message next =>
    ([.complain (message ++ ", retrying"), .pause 1000], .following id next)
  | .ended lines output => (lines.map .print, .ended output)

def receive (reply : Reply) : Session → List Effect × Session
  | .asking (.submit _ follow) => submitted follow (reply.read Submitted.format)
  | .asking .list =>
    ([], .ended (textOf (fun (m : Listing) => describeJobs m.jobs) (reply.read Listing.format)))
  | .asking (.tail ..) => ([], .ended (textOf describePage (reply.read Page.format)))
  | .asking (.status _) | .asking (.cancel _) =>
    ([], .ended (textOf (fun (m : Single) => describe m.job) (reply.read Single.format)))
  | .asking (.follow id) => followed id (Follow.step {} (reply.read Page.format))
  | .following id follow => followed id (follow.step (reply.read Page.format))
  | .ended output => ([], .ended output)

/-- The requests that were sent, the effects in order and the final output. -/
structure Transcript where
  requests : List (Call × Url) := []
  effects : List Effect := []
  output : String := ""

/-- Run a session against a list of replies, which `fuel` bounds together with the calls that get
none. A call without a valid address fails and takes no reply; when the list is over every call
is broken. -/
def runFrom (base : String) : Nat → Session → List Reply → Transcript
  | 0, _, _ => {}
  | fuel + 1, session, replies =>
    match session with
    | .ended output => { output }
    | _ =>
      match session.call? with
      | none => {}
      | some call =>
        let (reply, sent, replies) : Reply × List (Call × Url) × List Reply :=
          match call.url? base, replies with
          | none, _ => (.broken "no absolute address", [], replies)
          | some _, [] => (.broken "connection closed", [], [])
          | some url, reply :: rest => (reply, [(call, url)], rest)
        let (effects, session) := session.receive reply
        let rest := runFrom base fuel session replies
        { rest with requests := sent ++ rest.requests, effects := effects ++ rest.effects }

/-- A follower gives up after four failures in a row, so this fuel lasts to the end. -/
def run (base : String) (operation : Operation) (replies : List Reply) : Transcript :=
  runFrom base (replies.length + Follow.mostRetries + 3) (start operation) replies

end Session

/-- The text that a session writes to standard output. -/
def Session.Transcript.printed (t : Session.Transcript) : String :=
  String.join (t.effects.filterMap fun
    | .print line => some (line ++ "\n")
    | _ => none)

/-- The text that a session writes to standard error. -/
def Session.Transcript.complaints (t : Session.Transcript) : String :=
  String.join (t.effects.filterMap fun
    | .complain line => some (line ++ "\n")
    | _ => none)

def Session.Transcript.pauses (t : Session.Transcript) : List Nat :=
  t.effects.filterMap fun
    | .pause milliseconds => some milliseconds
    | _ => none

end FirmwareJobs.Client

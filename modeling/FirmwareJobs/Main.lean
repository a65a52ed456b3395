import FirmwareJobs.Client.Arguments
import FirmwareJobs.Client.Session

/-! # The command line of the client

The connection to the server is left to whoever starts the program: every call is written to
standard error as one line, and its reply is read from standard input as one line with the status
and the body.
-/

namespace FirmwareJobs.Client

open Text

/-- The reply in a line such as `200 {"jobs":[]}`. -/
def replyOfLine (line : List Char) : Reply :=
  let (status, rest) := line.span isDigit
  match natural? status with
  | some code => .answered code (Utf8.encode (trim rest))
  | none => .broken "connection closed"

def callLine (call : Call) (url : Url) : String :=
  call.method.name ++ " " ++ url.origin ++ url.target ++
    match call.body with
    | some request => " " ++ Request.format.encode request
    | none => ""

def perform : Effect → IO Unit
  | .print line => IO.println line
  | .complain line => IO.eprintln line
  | .pause milliseconds => IO.sleep (UInt32.ofNat milliseconds)

/-- Send a call and wait for its reply. -/
def exchange (base : String) (call : Call) : IO Reply := do
  match call.url? base with
  | none => return .broken "no absolute address"
  | some url =>
    IO.eprintln (callLine call url)
    return replyOfLine (← (← IO.getStdin).getLine).toList

partial def converse (base : String) (session : Session) : IO Unit := do
  match session.call? with
  | none =>
    match session with
    | .ended output => IO.println output
    | _ => return
  | some call =>
    let (effects, session) := session.receive (← exchange base call)
    effects.forM perform
    converse base session

end FirmwareJobs.Client

open FirmwareJobs.Client in
def main (arguments : List String) : IO UInt32 := do
  match invocation (← IO.getEnv "FWJOB_URL") arguments with
  | .wrong =>
    IO.eprintln helpText
    return 1
  | .say text =>
    IO.println text
    return 0
  | .perform base operation =>
    converse base (Session.start operation)
    return 0

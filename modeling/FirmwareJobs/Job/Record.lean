import FirmwareJobs.Job.Action
import FirmwareJobs.Job.State
import FirmwareJobs.Json.Object

/-! # Job records

The record of a job is what the engine keeps on disk and sends to clients. Its JSON form has the
members in the order of the declaration. A record written before a member existed still loads if
that member has a natural fallback.
-/

namespace FirmwareJobs

open Json Time

structure Record where
  id : String
  state : State
  createdAt : Instant
  startedAt : Option Instant
  endedAt : Option Instant
  exitCode : Option Int32
  errorSummary : String
  document : String
  action : Action
  device : String
  clean : Bool
  deriving DecidableEq

namespace Record

/-- The record of a job that was just accepted. -/
def fresh (id document : String) (action : Action) (device : String) (clean : Bool)
    (now : Instant) : Record :=
  ⟨id, .queued, now, none, none, none, "", document, action, device, clean⟩

def actionFormat : Format Action := .choice Action.ofWord? Action.word

def stateFormat : Format State := .choice State.ofWord? State.word

def exitCodeFormat : Format Int32 :=
  (Format.whole (-2147483648) 2147483647).view Int32.ofInt Int32.toInt

def fields : Fields [String, State, Instant, Option Instant, Option Instant, Option Int32,
    String, String, Action, String, Bool] :=
  .cons "id" .text none <|
  .cons "state" stateFormat none <|
  .cons "created_at" .moment none <|
  .cons "started_at" (.optional .moment) (some none) <|
  .cons "ended_at" (.optional .moment) (some none) <|
  .cons "exit_code" (.optional exitCodeFormat) (some none) <|
  .cons "error_summary" .text (some "") <|
  .cons "yaml" .text none <|
  .cons "action" actionFormat none <|
  .cons "device" .text (some "") <|
  .cons "clean" .flag (some false) .nil

def format : Format Record :=
  (Format.object fields).view
    (fun (id, state, createdAt, startedAt, endedAt, exitCode, errorSummary, document, action,
        device, clean, ()) =>
      ⟨id, state, createdAt, startedAt, endedAt, exitCode, errorSummary, document, action,
        device, clean⟩)
    (fun r => (r.id, r.state, r.createdAt, r.startedAt, r.endedAt, r.exitCode, r.errorSummary,
      r.document, r.action, r.device, r.clean, ()))

end Record

end FirmwareJobs

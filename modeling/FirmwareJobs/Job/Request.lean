import FirmwareJobs.Job.Action
import FirmwareJobs.Json.Object

/-! # Requests for a job

A request carries the texts as they were sent. Validation names the first wrong one in the order
document, action, device, and gives back the document and device without the blanks around them.
-/

namespace FirmwareJobs

open Json

structure Request where
  document : String := ""
  action : String := ""
  device : String := ""
  clean : Bool := false
  deriving Repr, DecidableEq

/-- What validation found to be wrong. -/
inductive Rejection where
  | document
  | action
  | device
  deriving Repr, DecidableEq

namespace Rejection

def field : Rejection → String
  | .document => "yaml"
  | .action => "action"
  | .device => "device"

def reason : Rejection → String
  | .document => "expected a <name>.yaml file name"
  | .action => "expected compile, ota or logs"
  | .device => "expected a host name, address or port"

def message (r : Rejection) : String := "invalid " ++ r.field ++ ": " ++ r.reason

end Rejection

/-- A request that passed validation. The device is empty if the action needs none. -/
structure Order where
  document : String
  action : Action
  device : String
  clean : Bool
  deriving Repr, DecidableEq

/-- The characters of document and device names. -/
def isNameChar (c : Char) : Bool := c.isAlphanum || c == '_' || c == '.' || c == '-'

/-- A bare file name that ends in `.yaml` and has at least one character before that. -/
def documentName? (value : String) : Option String :=
  let name := Text.trim value.toList
  let ending := ".yaml".toList
  if name.all isNameChar && ending.isSuffixOf name && ending.length < name.length then
    some (String.ofList name)
  else none

/-- A host name, an address or a port without directories. -/
def deviceName? (value : String) : Option String :=
  let name := Text.trim value.toList
  if name.all isNameChar && !name.isEmpty then some (String.ofList name) else none

namespace Request

def fields : Fields [String, String, String, Bool] :=
  .cons "yaml" .text (some "") <|
  .cons "action" .text (some "") <|
  .cons "device" .text (some "") <|
  .cons "clean" .flag (some false) .nil

def format : Format Request :=
  (Format.object fields).view
    (fun (document, action, device, clean, ()) => ⟨document, action, device, clean⟩)
    (fun r => (r.document, r.action, r.device, r.clean, ()))

/-- A request for an action, its other texts as given. -/
def of (document : String) (action : Action) (device : String) (clean : Bool) : Request :=
  ⟨document, action.word, device, clean⟩

def validate (r : Request) : Except Rejection Order := do
  let document ← match documentName? r.document with
    | some name => .ok name
    | none => .error .document
  let action ← match Action.parse? r.action with
    | some action => .ok action
    | none => .error .action
  let device ←
    if action.needsDevice then
      match deviceName? r.device with
      | some name => .ok name
      | none => .error .device
    else .ok ""
  .ok ⟨document, action, device, r.clean⟩

end Request

/-- The request that an order came from, up to blanks and letter case. -/
def Order.request (o : Order) : Request := .of o.document o.action o.device o.clean

end FirmwareJobs

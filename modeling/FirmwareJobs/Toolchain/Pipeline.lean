import FirmwareJobs.Toolchain.Run
import FirmwareJobs.Toolchain.Steps

/-! # Running the steps of a job

The steps of a job run one after the other. The first one that fails is the last one, and none is
started once the job is to be canceled.
-/

namespace FirmwareJobs.Toolchain

structure Pipeline where
  /-- The words of the toolchain command. -/
  command : List String
  remaining : List (List String)
  run : Run

namespace Pipeline

/-- Start steps until one goes on, one fails or none is left. `code` is the code of the step
before. -/
def next (plan : Plan) (command : List String) :
    Int32 → List (List String) → Workbench → Workbench × Progress Pipeline
  | code, [], b => (b, .over code)
  | code, step :: rest, b =>
    if b.job.cancelRequested then (b, .over code)
    else
      match Run.start plan (command ++ step) b with
      | (b, .going run) => (b, .going ⟨command, rest, run⟩)
      | (b, .over code) => if code = 0 then next plan command code rest b else (b, .over code)

def start (plan : Plan) (b : Workbench) : Workbench × Progress Pipeline :=
  match plan.settings.toolchainWords with
  | .error fault => (b.report plan fault.message, .over Run.failureCode)
  | .ok command =>
    let document := plan.settings.documentPath b.job.record.document
    next plan command 0 (steps b.job.record document) b

def advance? (plan : Plan) (p : Pipeline) (b : Workbench) :
    Option (Workbench × Progress Pipeline) :=
  (p.run.advance? b).map fun
    | (b, .going run) => (b, .going { p with run })
    | (b, .over code) =>
      if code = 0 then next plan p.command code p.remaining b else (b, .over code)

def nextLook? (p : Pipeline) : Option Nat := p.run.nextLook?

end Pipeline

end FirmwareJobs.Toolchain

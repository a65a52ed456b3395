import FirmwareJobs.Toolchain.Pipeline

/-! # Running work to its end

The work and its processes take turns. When nobody can go on, the clock moves to the next time
that somebody waits for.
-/

namespace FirmwareJobs.Toolchain

/-- How many rounds of steps the processes take in one turn. -/
def turnRounds : Nat := 64

/-- Turns in a row after which an observer looks although the processes are still busy. -/
def patience : Nat := 100

/-- The earlier one of two times. -/
def earlier? (a b : Option Nat) : Option Nat :=
  match a, b with
  | some s, some t => some (min s t)
  | some s, none => some s
  | none, t => t

/-- Work that is done in turns: what it does when there is something to do, and when it wants to
look again in any case. -/
structure Worksite (α : Type) where
  advance? : α → Workbench → Option (Workbench × Progress α)
  nextLook? : α → Option Nat

namespace Worksite

/-- Work until it is over. `meddle` is applied to the job when the processes are quiet, or busy
for a while. The result is `none` if `fuel` turns were not enough. -/
def complete {α : Type} (site : Worksite α) (meddle : Job → Time.Instant → Job)
    (start : Time.Instant) : Nat → Nat → α → Workbench → Option (Workbench × Int32)
  | 0, _, _, _ => none
  | fuel + 1, busy, work, b =>
    let meddled (b : Workbench) : Workbench :=
      { b with job := meddle b.job (start.after b.host.now) }
    match site.advance? work b with
    | some (b, .over code) => some (b, code)
    | some (b, .going work) => complete site meddle start fuel (busy + 1) work b
    | none =>
      if (b.host.round?).isSome then
        let b := { b with host := b.host.rounds turnRounds }
        if busy < patience then complete site meddle start fuel (busy + 1) work b
        else complete site meddle start fuel 0 work (meddled b)
      else
        match earlier? b.host.nextWake? (site.nextLook? work) with
        | some t =>
          let b := { b with host := b.host.passTo t }
          complete site meddle start fuel 0 work (meddled b)
        | none => none

end Worksite

/-- More turns than a job takes that waits for hours. -/
def turns : Nat := 10000000

/-- Run one command for a job. -/
def runCommand (plan : Plan) (command : List String) (meddle : Job → Time.Instant → Job)
    (start : Time.Instant) (b : Workbench) : Option (Workbench × Int32) :=
  match Run.start plan command b with
  | (b, .over code) => some (b, code)
  | (b, .going run) => Worksite.complete ⟨Run.advance?, Run.nextLook?⟩ meddle start turns 0 run b

/-- Run all steps of a job. -/
def runJob (plan : Plan) (meddle : Job → Time.Instant → Job) (start : Time.Instant)
    (b : Workbench) : Option (Workbench × Int32) :=
  match Pipeline.start plan b with
  | (b, .over code) => some (b, code)
  | (b, .going p) =>
    Worksite.complete ⟨Pipeline.advance? plan, Pipeline.nextLook?⟩ meddle start turns 0 p b

end FirmwareJobs.Toolchain

import FirmwareJobs.Shell.Step

/-! # Running processes

Processes take their steps in turns. When none of them can go on, time passes until the next one
wakes up.
-/

namespace FirmwareJobs.Machine.Host

open Text

/-- What a process does about a signal. -/
inductive Reaction where
  | ignore
  | die
  | stop
  | continue
  | handle (s : Shell.State)
  | later

/-- Run the action of a trap before the rest of the script. A `wait` is over then. -/
def trapped (s : Shell.State) (signal : Signal) (action : ByteText) : Shell.State :=
  let s := match s.stack with
    | .wait _ :: rest => { s.setStatus (128 + signal) with stack := rest }
    | _ => s
  (s.push (.arrive s.status)).push (.script action s.line)

def byDefault (signal : Signal) : Reaction :=
  if signal.stops then .stop else if signal.isHarmless then .ignore else .die

def reaction (p : Process) (signal : Signal) : Reaction :=
  if signal = Signal.kill then .die
  else if signal = 18 then .continue
  else
    match p.activity with
    | .shell s =>
      match s.traps.lookup signal with
      | some action =>
        if action.isEmpty then .ignore
        else if s.isBusy then .later
        else .handle (trapped s signal action)
      | none => byDefault signal
    | _ => if p.ignored.contains signal then .ignore else byDefault signal

/-- React to the first signal that does not have to wait. -/
def deliverFrom (h : Host) (p : Process) (before : List Signal) : List Signal → Option Host
  | [] => none
  | signal :: rest =>
    let p' := { p with pending := before ++ rest }
    match reaction p signal with
    | .ignore => some (h.setProcess p')
    | .die => some (h.finish p.id (.signal signal))
    | .stop => some (h.setProcess { p' with stopped := true })
    | .continue => some (h.setProcess { p' with stopped := false })
    | .handle s => if p.stopped then none else some (h.setProcess { p' with activity := .shell s })
    | .later => deliverFrom h p (before ++ [signal]) rest

/-- Write the output of a program and end it. -/
def print (h : Host) (p : Process) (output complaint : ByteText) (code : Nat) : Host :=
  let write (h : Host) (descriptor : Nat) (s : ByteText) : Host × Option Exit :=
    if s.isEmpty then (h, none)
    else
      match h.write p.channels descriptor (ByteText.toBytes s) with
      | .ok h => (h, none)
      | .error .closed => (h, some (.signal Signal.pipe))
      | .error _ => (h, some (.code 1))
  let (h, a) := write h 1 output
  let (h, b) := write h 2 complaint
  h.finish p.id ((a <|> b).getD (.code code))

def copy (h : Host) (p : Process) (sources : List Source) (code : Nat) : Option Host :=
  let put (h : Host) (bytes : List UInt8) (activity : Activity) : Host :=
    match h.write p.channels 1 bytes with
    | .ok h => h.setProcess { p with activity }
    | .error .closed => h.finish p.id (.signal Signal.pipe)
    | .error _ => h.finish p.id (.code 1)
  match sources with
  | [] => some (h.finish p.id (.code code))
  | .input :: rest =>
    let input := p.channels.get? 0
    match h.peek input with
    | .bytes content => some (put (h.consume input content.length) content p.activity)
    | .atEnd => some (h.setProcess { p with activity := .copying rest code })
    | .nothing => none
  | .path name :: rest =>
    match h.files.read p.here (ByteText.toString name) with
    | .ok content => some (put h content (.copying rest code))
    | .error fault =>
      let text := match fault with
        | .isDirectory => "Is a directory"
        | .notDirectory => "Not a directory"
        | .nameTooLong => "File name too long"
        | _ => "No such file or directory"
      let message := "cat: ".toList ++ name ++ ": ".toList ++ text.toList ++ ['\n']
      let h := (h.write p.channels 2 (ByteText.toBytes message)).toOption.getD h
      some (h.setProcess { p with activity := .copying rest 1 })

/-- The next thing that a process does on its own. -/
def act (h : Host) (p : Process) : Option Host :=
  match p.activity with
  | .ended _ => none
  | .sleeping wake => if wake ≤ h.now then some (h.finish p.id (.code 0)) else none
  | .printing output complaint code => some (h.print p output complaint code)
  | .copying sources code => h.copy p sources code
  | .shell s => (Shell.Running.mk h p s).step

/-- One step of one process, unless it has to wait. -/
def stepProcess (h : Host) (id : Nat) : Option Host :=
  match h.process? id with
  | none => none
  | some p =>
    if !p.isAlive then none
    else
      match h.deliverFrom p [] p.pending with
      | some h => some h
      | none => if p.stopped then none else h.act p

/-- The time that one round of steps takes. -/
def roundNanos : Nat := 1000

/-- One step of every process that can go on; `none` if there is none. -/
def round? (h : Host) : Option Host :=
  let (moved, h) := (h.processes.map (·.id)).foldl (fun (moved, h) id =>
    match h.stepProcess id with
    | some h => (true, h)
    | none => (moved, h)) (false, h)
  if moved then some { h with now := h.now + roundNanos } else none

/-- Up to `fuel` rounds, as long as somebody can go on. -/
def rounds : Nat → Host → Host
  | 0, h => h
  | fuel + 1, h =>
    match h.round? with
    | some h => rounds fuel h
    | none => h

/-- When the next process wakes up. -/
def nextWake? (h : Host) : Option Nat :=
  (h.processes.filterMap fun p =>
    match p.activity with
    | .sleeping wake => if p.stopped then none else some wake
    | _ => none).min?

def passTo (h : Host) (now : Nat) : Host := { h with now := max h.now now }

end FirmwareJobs.Machine.Host

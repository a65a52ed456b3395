import FirmwareJobs.Shell.Builtin
import FirmwareJobs.Shell.Pathnames
import FirmwareJobs.Shell.Reader

/-! # One step of a shell

A step looks at the first frame of the stack. It answers with the host after the step, or with
`none` while the shell has to wait.
-/

namespace FirmwareJobs.Shell

open Text Machine

namespace Running

/-- Go on after an expansion, run the command that it needs first, or leave. -/
def expanded {α : Type} (r : Running) (c : Command) (outputs : List ByteText) (line : Nat)
    (result : Except Stop (α × Supply)) (next : Running → α → Running) : Running :=
  match result with
  | .ok (a, s) => next (r.withParameters fun _ => s.parameters) a
  | .error (.needs source) => r.substitute c outputs source
  | .error (.failed message) => r.abort line message

def supply (r : Running) (outputs : List ByteText) : Supply := ⟨r.state.parameters, outputs⟩

def expandRedirects (s : Supply) :
    List Redirect → Except Stop (List (Redirect × ByteText) × Supply)
  | [] => .ok ([], s)
  | d :: rest => do
    let (t, s) ← Expansion.text s d.target
    let (more, s) ← expandRedirects s rest
    .ok ((d, t) :: more, s)

def expandAssignments (s : Supply) :
    List (ByteText × Word) → Except Stop (List (ByteText × ByteText) × Supply)
  | [] => .ok ([], s)
  | (name, w) :: rest => do
    let (t, s) ← Expansion.text s w
    let s := { s with parameters := (s.parameters.assign? name t).getD s.parameters }
    let (more, s) ← expandAssignments s rest
    .ok ((name, t) :: more, s)

/-- A simple command after its expansion. -/
structure Ready where
  arguments : List ByteText
  redirects : List (Redirect × ByteText)
  assignments : List (ByteText × ByteText)

/-- Expand the words, the redirections and the assignments. The assignments count only among
themselves; `assign` makes them in the shell. -/
def prepare (r : Running) (s : Supply) (assignments : List (ByteText × Word)) (words : List Word)
    (redirects : List Redirect) : Except Stop (Ready × Supply) := do
  let (fields, s) ← Expansion.allFields s words
  let globbed := if s.parameters.hasOption 'f' then fields.map Pathnames.textOf
    else fields.flatMap (Pathnames.expand r.host.files r.process.here)
  let (redirects, s) ← expandRedirects s redirects
  let (assignments, _) ← expandAssignments s assignments
  .ok (⟨globbed, redirects, assignments⟩, s)

def assign (r : Running) (line : Nat) (assignments : List (ByteText × ByteText)) : Running :=
  match assignments.find? fun (name, _) => r.state.parameters.constants.contains name with
  | some (name, _) => r.abort line (name ++ ": is read only".toList)
  | none => r.withParameters fun p =>
      assignments.foldl (fun p (name, value) => (p.assign? name value).getD p) p

/-- The environment of a program with some variables set for it alone. -/
def environmentWith (p : Parameters) (assignments : List (ByteText × ByteText)) :
    List (ByteText × ByteText) :=
  assignments.foldl (fun env (name, value) => Parameters.put name value env) p.environment

/-- Run a builtin with assignments that are undone afterwards. -/
def withAssignments (r : Running) (assignments : List (ByteText × ByteText))
    (act : Running → Running) : Running :=
  if assignments.isEmpty then act r
  else
    let after := act (r.withParameters fun p =>
      assignments.foldl (fun p (name, value) => (p.assign? name value).getD p) p)
    after.withParameters fun p =>
      assignments.foldl (fun p (name, _) =>
        match r.state.parameters.bindings.lookup name with
        | some old => { p with bindings := Parameters.put name old p.bindings }
        | none => p.unset name) p

/-- Run the command that the arguments name. -/
def dispatch (r : Running) (line : Nat) (channels : Channels) (ready : Ready)
    (functions : Bool) : Running :=
  match ready.arguments with
  | [] => r
  | name :: rest =>
    let word := String.ofList name
    match Builtin.special.lookup word with
    | some act => act ((r.assign line ready.assignments).restoring channels) line rest
    | none =>
      match if functions then r.state.functions.lookup name else none with
      | some body =>
        let r := (r.assign line ready.assignments).restoring channels
        let r := r.push (.called r.state.parameters.arguments [])
        (r.withParameters fun p => { p with arguments := rest }).update (·.run body)
      | none =>
        match Builtin.regular.lookup word with
        | some act =>
          (r.restoring channels).withAssignments ready.assignments fun r => act r line rest
        | none =>
          let (id, r) := r.launch line r.process.channels
            (environmentWith r.state.parameters ready.assignments) ready.arguments
          { r with process := { r.process with channels } }.push (.await id)

/-- Run a simple command whose words are known. -/
def perform (r : Running) (line : Nat) (ready : Ready) : Host :=
  let channels := r.process.channels
  let isSpecial := match ready.arguments with
    | name :: _ => (Builtin.special.lookup (String.ofList name)).isSome || name == "exec".toList
    | [] => false
  match r.redirectAll ready.redirects with
  | .error message =>
    if isSpecial then (r.abort line message).keep else ((r.report line message).settle 2).keep
  | .ok r =>
    match ready.arguments with
    | [] =>
      let r := r.assign line ready.assignments
      let r := { r with process := { r.process with channels } }
      (r.settle (r.state.substituted.getD 0)).keep
    | name :: rest =>
      match String.ofList name, rest with
      | "exec", _ => Builtin.replace (r.assign line ready.assignments) line rest
      | "command", ['-', 'v'] :: names => (Builtin.describe (r.restoring channels) line names).keep
      | "command", [] => (r.restoring channels |>.setStatus 0).keep
      | "command", _ =>
        (r.dispatch line channels { ready with arguments := rest } false).keep
      | _, _ => (r.dispatch line channels ready true).keep

/-- Connect the ends of a pipeline and start its commands, the last one last. -/
def startPipeline (r : Running) (input : Option Channel) :
    List Command → List Nat → List Nat × Running
  | [], ids => (ids, r)
  | c :: rest, ids =>
    let channels := match input with
      | some source => r.process.channels.put 0 source
      | none => r.process.channels
    if rest.isEmpty then
      let (id, r) := r.fork channels [.run c []] []
      (ids ++ [id], r)
    else
      let (pipe, host) := r.host.newPipe [] false
      let (id, r) := { r with host }.fork (channels.put 1 (.sink pipe false)) [.run c []] []
      r.startPipeline (some (.source pipe)) rest (ids ++ [id])

/-- The commands of the first arm with a pattern that fits. -/
def chooseArm (s : Supply) (value : ByteText) :
    List (List Word × Command) → Except Stop (Command × Supply)
  | [] => .ok (.nothing, s)
  | (patterns, body) :: rest => do
    let (fits, s) ← patterns.foldlM (fun (fits, s) w => do
      if fits then .ok (fits, s)
      else
        let (p, s) ← Expansion.pattern s w
        .ok (Pattern.isMatch p value, s)) (false, s)
    if fits then .ok (body, s) else chooseArm s value rest

def interrupts : List Signal := [2, 3]

/-- Run a command; its frame was taken from the stack. -/
def command (r : Running) (c : Command) (outputs : List ByteText) : Host :=
  let r := if outputs.isEmpty then r.update fun s => { s with substituted := none } else r
  match c with
  | .nothing => r.keep
  | .simple line assignments words redirects =>
    let r := r.update fun s => { s with line }
    match r.prepare (r.supply outputs) assignments words redirects with
    | .ok (ready, s) => (r.withParameters fun _ => s.parameters).perform line ready
    | .error (.needs source) => (r.substitute c outputs source).keep
    | .error (.failed message) => (r.abort line message).keep
  | .pipeline cs =>
    let (ids, r) := r.startPipeline none cs []
    (ids.reverse.foldl (fun r id => r.push (.await id)) r).keep
  | .negated c => ((r.push .negate).update (·.run c)).keep
  | .both a b => ((r.push (.ifSo b)).update (·.run a)).keep
  | .either a b => ((r.push (.ifNot b)).update (·.run a)).keep
  | .sequence a b => (r.update fun s => (s.run b).run a).keep
  | .background c =>
    let (id, r) := r.fork (r.process.channels.put 0 .null) [.run c []] interrupts
    ((r.withParameters fun p => { p with background := some id }).setStatus 0).keep
  | .subshell c =>
    let (id, r) := r.fork r.process.channels [.run c []] []
    (r.push (.await id)).keep
  | .branch condition thenDo elseDo =>
    ((r.push (.branch thenDo elseDo)).update (·.run condition)).keep
  | .loop isUntil condition body =>
    ((r.push (.tested isUntil condition body 0)).update (·.run condition)).keep
  | .each line name words body =>
    (r.expanded c outputs line (Expansion.allFields (r.supply outputs) words) fun r fields =>
      let values := fields.flatMap (Pathnames.expand r.host.files r.process.here)
      (r.setStatus 0).push (.each name values body)).keep
  | .choose line word arms =>
    let result := do
      let (value, s) ← Expansion.text (r.supply outputs) word
      chooseArm s value arms
    (r.expanded c outputs line result fun r body => (r.setStatus 0).update (·.run body)).keep
  | .define name body =>
    ((r.update fun s =>
      { s with functions := (name, body) :: s.functions.filter (·.1 != name) }).setStatus 0).keep
  | .redirected line inner redirects =>
    (r.expanded c outputs line (expandRedirects (r.supply outputs) redirects) fun r targets =>
      match r.redirectAll targets with
      | .ok after => (after.restoring r.process.channels).update (·.run inner)
      | .error message => (r.report line message).settle 2).keep

/-- The line at the front of some bytes, for `read`. A backslash before a line break joins lines
unless the text is raw. -/
def takeLine (raw : Bool) : ByteText → Option (ByteText × Nat)
  | [] => none
  | '\n' :: _ => some ([], 1)
  | '\\' :: '\n' :: r =>
    if raw then some (['\\'], 2) else (takeLine raw r).map fun (l, n) => (l, n + 2)
  | '\\' :: c :: r =>
    (takeLine raw r).map fun (l, n) => (if raw then '\\' :: c :: l else c :: l, n + 2)
  | c :: r => (takeLine raw r).map fun (l, n) => (c :: l, n + 1)

/-- Divide a line among names; the last one takes what is left. -/
def divide (separators : List Char) : List ByteText → ByteText → List (ByteText × ByteText)
  | [], _ => []
  | [name], s =>
    let isBlank (c : Char) : Bool := Arithmetic.isBlank c && separators.contains c
    [(name, ((s.dropWhile isBlank).reverse.dropWhile isBlank).reverse)]
  | name :: rest, s =>
    let isBlank (c : Char) : Bool := Arithmetic.isBlank c && separators.contains c
    let s := s.dropWhile isBlank
    let (field, after) := s.span (!separators.contains ·)
    let after := after.dropWhile isBlank
    let after := match after with
      | c :: r =>
        if separators.contains c ∧ !isBlank c ∧ field.length + 1 ≤ s.length then r else c :: r
      | [] => []
    (name, field) :: divide separators rest after

def readInto (r : Running) (separators : List Char) (names : List ByteText) (line : ByteText)
    (status : Nat) : Running :=
  (r.assign r.state.line (divide separators names line)).settle status

/-- The first frame, taken from the stack. -/
def frame (r : Running) (f : Frame) : Option Host :=
  let status := r.state.status
  match f with
  | .script text line =>
    if text.isEmpty then some r.keep
    else
      match Reader.nextLine line text with
      | .error fault => some (r.abort fault.line fault.text.toList).keep
      | .ok (c, rest, next) =>
        let r := if rest.isEmpty then r else r.push (.script rest next)
        some (r.update fun s => s.run c).keep
  | .input =>
    let input := r.process.channels.get? 0
    match r.host.peek input with
    | .bytes content =>
      match takeLine true (ByteText.ofBytes content) with
      | some (line, n) =>
        let r := { r with host := r.host.consume input n }
        some ((r.push .input).push (.script (line ++ ['\n']) r.state.line)).keep
      | none =>
        if r.host.mayGrow input then none
        else
          let r := { r with host := r.host.consume input content.length }
          some (r.push (.script (ByteText.ofBytes content) r.state.line)).keep
    | .atEnd => some r.keep
    | .nothing => none
  | .run c outputs => some (r.command c outputs)
  | .collect c outputs id pipe output =>
    match r.host.peek (some (.source pipe)) with
    | .bytes content =>
      let host := r.host.consume (some (.source pipe)) content.length
      some ({ r with host }.push (.collect c outputs id pipe (output ++ content))).keep
    | .nothing => none
    | .atEnd =>
      match r.host.process? id with
      | none => some (r.push (.run c (outputs ++ [ByteText.ofBytes output]))).keep
      | some p =>
        match p.exit? with
        | none => none
        | some e =>
          let host := (r.host.remove id).removePipe pipe
          let r := ({ r with host }.setStatus e.status).update fun s =>
            { s with substituted := some e.status }
          some (r.push (.run c (outputs ++ [ByteText.ofBytes output]))).keep
  | .sourced | .titled _ | .called .. | .restore _ => some (r.dropFrame f).keep
  | .negate => some (r.setStatus (if status = 0 then 1 else 0)).keep
  | .ifSo c => some (if status = 0 then r.update (·.run c) else r).keep
  | .ifNot c => some (if status = 0 then r else r.update (·.run c)).keep
  | .branch thenDo elseDo =>
    some ((r.setStatus 0).update (·.run (if status = 0 then thenDo else elseDo))).keep
  | .tested isUntil condition body last =>
    if (status = 0) ≠ isUntil then
      some ((r.push (.again isUntil condition body)).update (·.run body)).keep
    else some (r.setStatus last).keep
  | .again isUntil condition body =>
    some ((r.push (.tested isUntil condition body status)).update (·.run condition)).keep
  | .each name values body =>
    match values with
    | [] => some r.keep
    | v :: rest =>
      let r := r.assign r.state.line [(name, v)]
      some ((r.push (.each name rest body)).update (·.run body)).keep
  | .await id =>
    match r.host.process? id with
    | none => some (r.setStatus 127).keep
    | some p =>
      match p.exit? with
      | none => none
      | some e =>
        let r := { r with host := r.host.remove id }
        let r := match e with
          | .signal s =>
            match Signal.report? s with
            | some text => (r.write 2 (text.toList ++ ['\n'])).2
            | none => r
          | .code _ => r
        some (match r.state.stack with
          | .await _ :: _ => r.setStatus e.status
          | _ => r.settle e.status).keep
  | .wait ids =>
    match ids with
    | [] => some r.keep
    | id :: rest =>
      match r.host.process? id with
      | none => some ((r.setStatus (if rest.isEmpty then 127 else status)).push (.wait rest)).keep
      | some p =>
        match p.exit? with
        | none => none
        | some e =>
          some (({ r with host := r.host.remove id }.setStatus e.status).push (.wait rest)).keep
  | .reading names raw separators =>
    let input := r.process.channels.get? 0
    match r.host.peek input with
    | .atEnd => some (r.readInto separators names [] 1).keep
    | .nothing => none
    | .bytes content =>
      match takeLine raw (ByteText.ofBytes content) with
      | some (line, n) =>
        some ({ r with host := r.host.consume input n }.readInto separators names line 0).keep
      | none =>
        if r.host.mayGrow input then none
        else
          let r := { r with host := r.host.consume input content.length }
          some (r.readInto separators names (ByteText.ofBytes content) 1).keep
  | .arrive old => some (r.setStatus old).keep
  | .leave code => some (r.host.finish r.process.id (.code (code % 256)))

def step (r : Running) : Option Host :=
  match r.state.stack with
  | [] => some (r.exit r.state.status).keep
  | f :: rest => { r with state := { r.state with stack := rest } }.frame f

end Running

end FirmwareJobs.Shell

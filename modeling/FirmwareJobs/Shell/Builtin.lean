import FirmwareJobs.Shell.Running

/-! # Builtin commands

A builtin command acts on the shell itself. Most of them end at once with a status; some leave
frames that do the rest. A fault of a special builtin ends the shell.
-/

namespace FirmwareJobs.Shell

open Text Machine

namespace Builtin

/-- A number that `break`, `exit` and the like take. -/
def count? (s : ByteText) : Option Nat := natural? s

def illegalNumber (name : String) (s : ByteText) : ByteText :=
  name.toList ++ ": Illegal number: ".toList ++ s

def isName (s : ByteText) : Bool :=
  match s with
  | c :: r => (c.isAlpha || c == '_') && r.all fun c => c.isAlphanum || c == '_'
  | [] => false

def leave (r : Running) (line : Nat) (arguments : List ByteText) : Running :=
  match arguments with
  | [] => r.exit r.state.status
  | a :: _ =>
    match count? a with
    | some n => r.exit n
    | none => r.fail line (illegalNumber "exit" a)

def giveBack (r : Running) (line : Nat) (arguments : List ByteText) : Running :=
  match arguments with
  | [] => r.returnFrom r.state.status
  | a :: _ =>
    match count? a with
    | some n => r.returnFrom n
    | none => r.fail line (illegalNumber "return" a)

def loopControl (name : String) (act : Running → Nat → Running) (r : Running) (line : Nat)
    (arguments : List ByteText) : Running :=
  let r := r.setStatus 0
  match arguments with
  | [] => act r 1
  | a :: _ =>
    match count? a with
    | some (n + 1) => act r (n + 1)
    | _ => r.fail line (illegalNumber name a)

def shift (r : Running) (line : Nat) (arguments : List ByteText) : Running :=
  let go (n : Nat) : Running :=
    if r.state.parameters.arguments.length < n then
      r.fail line "shift: can\x27t shift that many".toList
    else (r.withParameters fun p => { p with arguments := p.arguments.drop n }).setStatus 0
  match arguments with
  | [] => go 1
  | a :: _ =>
    match count? a with
    | some n => go n
    | none => r.fail line (illegalNumber "shift" a)

/-- A name with the value after its equals sign, if it has one. -/
def splitAssignment (s : ByteText) : ByteText × Option ByteText :=
  match s.span (· != '=') with
  | (name, _ :: value) => (name, some value)
  | (name, []) => (name, none)

/-- Mark variables, after assigning those with a value. -/
def mark (title : String) (act : Parameters → ByteText → Parameters) (r : Running) (line : Nat)
    (arguments : List ByteText) : Running :=
  let names := arguments.filter fun a => a != "-p".toList
  names.foldl (fun r a =>
    let (name, value) := splitAssignment a
    if !isName name then
      r.fail line (title.toList ++ ": ".toList ++ name ++ ": bad variable name".toList)
    else
      let assigned := match value with
        | some v => r.state.parameters.assign? name v
        | none => some r.state.parameters
      match assigned with
      | some p => r.withParameters fun _ => act p name
      | none => r.fail line (title.toList ++ ": ".toList ++ name ++ ": is read only".toList))
    (r.setStatus 0)

def share (r : Running) (line : Nat) (arguments : List ByteText) : Running :=
  mark "export" Parameters.share r line arguments

def freeze (r : Running) (line : Nat) (arguments : List ByteText) : Running :=
  mark "readonly" (fun p name => { p with constants := p.constants ++ [name] }) r line arguments

/-- Make variables local to the current function. -/
def makeLocal (r : Running) (_line : Nat) (arguments : List ByteText) : Running :=
  let saved := arguments.map fun a =>
    let name := (splitAssignment a).1
    (name, r.state.parameters.bindings.lookup name)
  let remember : List Frame → List Frame := fun stack =>
    let inner := stack.takeWhile fun
      | .called .. => false
      | _ => true
    match stack.drop inner.length with
    | .called arguments locals :: rest => inner ++ .called arguments (saved ++ locals) :: rest
    | rest => inner ++ rest
  let r := r.update fun s => { s with stack := remember s.stack }
  (arguments.foldl (fun r a =>
    match splitAssignment a with
    | (name, some value) =>
      match r.state.parameters.assign? name value with
      | some p => r.withParameters fun _ => p
      | none => r
    | _ => r) r).setStatus 0

def unset (r : Running) (line : Nat) (arguments : List ByteText) : Running :=
  match arguments with
  | ['-', 'f'] :: names =>
    (r.update fun s => { s with functions := s.functions.filter (!names.contains ·.1) }).setStatus 0
  | _ =>
    let names := arguments.filter fun a => a != ['-', 'v']
    match names.find? r.state.parameters.constants.contains with
    | some name => r.fail line ("unset: ".toList ++ name ++ ": is read only".toList)
    | none => (r.withParameters fun p => names.foldl Parameters.unset p).setStatus 0

/-- The options that `set` turns on or off by their long names. -/
def optionLetter? (name : ByteText) : Option Char :=
  match String.ofList name with
  | "errexit" => some 'e'
  | "nounset" => some 'u'
  | "xtrace" => some 'x'
  | "noglob" => some 'f'
  | "allexport" => some 'a'
  | "noclobber" => some 'C'
  | "verbose" => some 'v'
  | _ => none

def setOptions (p : Parameters) (isOn : Bool) (letters : List Char) : Parameters :=
  let others := p.options.filter (!letters.contains ·)
  { p with options := if isOn then others ++ letters else others }

def setWith : Nat → Parameters → List ByteText → Parameters
  | 0, p, _ => p
  | fuel + 1, p, arguments =>
    match arguments with
    | [] => p
    | ['-', '-'] :: rest => { p with arguments := rest }
    | ['-', 'o'] :: name :: rest =>
      setWith fuel (setOptions p true (optionLetter? name).toList) rest
    | ['+', 'o'] :: name :: rest =>
      setWith fuel (setOptions p false (optionLetter? name).toList) rest
    | ('-' :: c :: cs) :: rest => setWith fuel (setOptions p true (c :: cs)) rest
    | ('+' :: c :: cs) :: rest => setWith fuel (setOptions p false (c :: cs)) rest
    | rest => { p with arguments := rest }

def set (r : Running) (_line : Nat) (arguments : List ByteText) : Running :=
  (r.withParameters fun p => setWith (arguments.length + 1) p arguments).setStatus 0

/-- A signal by its number or its name; `EXIT` is 0. -/
def signal? (s : ByteText) : Option Signal :=
  match natural? s with
  | some n => if n < 65 then some n else none
  | none =>
    let name := (String.ofList s).toUpper
    let name := if name.startsWith "SIG" then (name.drop 3).toString else name
    if name = "EXIT" then some 0 else Signal.named.lookup name

def trap (r : Running) (line : Nat) (arguments : List ByteText) : Running :=
  let arguments := match arguments with
    | ['-', '-'] :: rest => rest
    | rest => rest
  let change (action : Option ByteText) (names : List ByteText) : Running :=
    names.foldl (fun r name =>
      match signal? name with
      | none => (r.complain line ("trap: ".toList ++ name ++ ": bad trap".toList)).setStatus 1
      | some s =>
        r.update fun state =>
          let others := state.traps.filter (·.1 != s)
          { state with traps := match action with
            | some a => (s, a) :: others
            | none => others }) (r.setStatus 0)
  match arguments with
  | [] => r.setStatus 0
  | [only] => change none [only]
  | action :: names =>
    if action = ['-'] ∨ (natural? action).isSome then
      change none (if action = ['-'] then names else arguments)
    else change (some action) names

def placeText (p : Files.Place) : ByteText :=
  ByteText.ofString ("/" ++ "/".intercalate p)

def changeDirectory (r : Running) (line : Nat) (arguments : List ByteText) : Running :=
  let valueOf? (name : String) : Option ByteText :=
    r.state.parameters.bindings.lookup name.toList
  let arguments := arguments.filter fun a => a != ['-', 'P'] && a != ['-', 'L'] && a != ['-', '-']
  let target := match arguments with
    | [] => (valueOf? "HOME").getD []
    | ['-'] :: _ => (valueOf? "OLDPWD").getD (placeText r.process.here)
    | a :: _ => a
  if target.isEmpty then r.setStatus 0
  else
    let path := ByteText.toString target
    match r.host.files.locate r.process.here path with
    | .ok place =>
      if r.host.files.isDirectory place then
        let old := placeText r.process.here
        let r := { r with process := { r.process with here := place } }
        let r := (r.withParameters fun p =>
          let bindings := Parameters.put "OLDPWD".toList old p.bindings
          { p with bindings := Parameters.put "PWD".toList (placeText place) bindings }).setStatus 0
        if arguments = [['-']] then (r.write 1 (placeText place ++ ['\n'])).2 else r
      else (r.complain line ("cd: can\x27t cd to ".toList ++ target)).settle 2
    | .error _ => (r.complain line ("cd: can\x27t cd to ".toList ++ target)).settle 2

/-- Write a text and end with the status of that. -/
def say (name : String) (r : Running) (line : Nat) (s : ByteText) : Running :=
  let (fine, r) := r.write 1 s
  if fine then r.setStatus 0
  else
    (r.complain line (name.toList ++ ": ".toList ++ name.toList ++ ": I/O error".toList)).settle 1

def echo (r : Running) (line : Nat) (arguments : List ByteText) : Running :=
  say "echo" r line (Printed.echoed arguments)

def pwd (r : Running) (line : Nat) (_arguments : List ByteText) : Running :=
  say "pwd" r line (placeText r.process.here ++ ['\n'])

def printf (r : Running) (line : Nat) (arguments : List ByteText) : Running :=
  let arguments := match arguments with
    | ['-', '-'] :: rest => rest
    | rest => rest
  match arguments with
  | [] => (r.complain line "printf: usage: printf format [arg ...]".toList).settle 2
  | format :: rest =>
    match Printed.formatted false format rest with
    | .error left =>
      (r.complain line ("printf: ".toList ++ left ++ ": invalid directive".toList)).settle 2
    | .ok o =>
      let r := say "printf" r line o.text
      if o.wrong.isEmpty then r
      else (o.wrong.foldl (fun r a =>
        r.complain line ("printf: ".toList ++ a ++ ": expected numeric value".toList)) r).settle 1

def facts (r : Running) : Condition.Facts :=
  let files := r.host.files
  let entry? (s : ByteText) : Option Files.Entry :=
    match files.locate r.process.here (ByteText.toString s) with
    | .ok place => files.entry? place
    | .error _ => none
  { isFile := fun s => files.isFile r.process.here (ByteText.toString s)
    isDirectory := fun s => files.isDirectoryAt r.process.here (ByteText.toString s)
    isThere := fun s => files.exists? r.process.here (ByteText.toString s)
    hasContent := fun s => match entry? s with
      | some (.file content) => !content.isEmpty
      | some .directory | some (.program _) => true
      | _ => false
    isRunnable := fun s => match entry? s with
      | some .directory | some (.program _) => true
      | _ => false
    isTerminal := fun n => match r.process.channels.get? n with
      | some (.sink _ terminal) => terminal
      | _ => false }

def test (name : String) (r : Running) (line : Nat) (arguments : List ByteText) : Running :=
  let wrong (s : ByteText) : Running :=
    (r.complain line (name.toList ++ ": ".toList ++ s)).settle 2
  let closed := arguments.getLast? = some [']']
  if name = "[" ∧ !closed then wrong "missing ]".toList
  else
    match Condition.read (if name = "[" then arguments.dropLast else arguments) with
    | .error s => wrong s
    | .ok c =>
      match c.holds (facts r) with
      | .error s => wrong s
      | .ok b => r.settle (if b then 0 else 1)

def kill (r : Running) (line : Nat) (arguments : List ByteText) : Running :=
  let send (s : Signal) (targets : List ByteText) : Running :=
    targets.foldl (fun r t =>
      match natural? t with
      | none => (r.complain line ("kill: ".toList ++ illegalNumber "Illegal pid" t)).setStatus 2
      | some id =>
        if id = r.process.id then
          if s = 0 then r
          else { r with process := { r.process with pending := r.process.pending ++ [s] } }
        else
          let (found, host) := r.host.signal id s
          if found then { r with host }
          else (r.complain line "kill: No such process\n".toList).setStatus 1) (r.setStatus 0)
  let named (name : ByteText) (targets : List ByteText) : Running :=
    match signal? name with
    | some s => send s targets
    | none => (r.complain line ("kill: invalid signal number or name: ".toList ++ name)).settle 2
  match arguments with
  | ['-', 's'] :: name :: targets | ['-', 'n'] :: name :: targets => named name targets
  | ['-', '-'] :: targets => send Signal.terminate targets
  | ('-' :: c :: cs) :: targets => named (c :: cs) targets
  | targets => send Signal.terminate targets

/-- The processes that this shell started and that nobody waited for. -/
def children (r : Running) : List Nat :=
  (r.host.processes.filter (·.parent == r.process.id)).map (·.id)

def wait (r : Running) (_line : Nat) (arguments : List ByteText) : Running :=
  let r := r.setStatus 0
  match arguments with
  | [] => r.push (.wait (children r))
  | _ => r.push (.wait (arguments.map fun a => (natural? a).getD 0))

def read (r : Running) (_line : Nat) (arguments : List ByteText) : Running :=
  let raw := arguments.contains ['-', 'r']
  let names := arguments.filter fun a => a.head? != some '-'
  let names := if names.isEmpty then ["REPLY".toList] else names
  r.push (.reading names raw r.state.parameters.separators)

/-- Go on with a frame under a title of its own. -/
def titled (r : Running) (title : ByteText) (f : Frame) : Running :=
  ((r.push (.titled r.state.title)).update fun s => { s with title }).push f

def evaluate (r : Running) (line : Nat) (arguments : List ByteText) : Running :=
  titled (r.setStatus 0) "eval".toList (.script (Printed.words arguments) line)

def source (r : Running) (line : Nat) (arguments : List ByteText) : Running :=
  match arguments with
  | [] => r.fail line ".: filename argument required".toList
  | name :: _ =>
    let candidates :=
      if name.contains '/' then [name]
      else
        (Program.directories r.searchPath).map fun d =>
          if d.isEmpty then name else d ++ '/' :: name
    let found := candidates.findSome? fun path =>
      (r.host.files.content? r.process.here (ByteText.toString path))
    match found with
    | some content =>
      titled ((r.setStatus 0).push .sourced) name (.script (ByteText.ofBytes content) 1)
    | none =>
      if name.contains '/' then
        r.fail line (".: cannot open ".toList ++ name ++ ": No such file".toList)
      else r.fail line (".: ".toList ++ name ++ ": not found".toList)

/-- Go on as another program. -/
def replace (r : Running) (line : Nat) (arguments : List ByteText) : Host :=
  match arguments with
  | [] => (r.setStatus 0).keep
  | name :: _ =>
    let ignored := r.state.ignored ++ r.process.ignored
    let environment := r.state.parameters.environment
    match r.keep.exec r.process.id r.searchPath environment arguments ignored with
    | .ok host => host
    | .error fault =>
      let (text, code) := Running.startFault fault
      ((r.complain line ("exec: ".toList ++ name ++ ": ".toList ++ text.toList)).exit code).keep

def nothing (r : Running) (_line : Nat) (_arguments : List ByteText) : Running := r.setStatus 0

/-- The builtins whose faults end the shell and whose assignments stay. -/
def special : List (String × (Running → Nat → List ByteText → Running)) :=
  [(":", nothing), (".", source), ("break", loopControl "break" Running.breakLoops),
    ("continue", loopControl "continue" Running.continueLoop), ("eval", evaluate),
    ("exit", leave), ("export", share), ("readonly", freeze), ("return", giveBack), ("set", set),
    ("shift", shift), ("times", nothing), ("trap", trap), ("unset", unset)]

def regular : List (String × (Running → Nat → List ByteText → Running)) :=
  [("[", test "["), ("cd", changeDirectory), ("chdir", changeDirectory), ("echo", echo),
    ("false", fun r _ _ => r.settle 1), ("alias", nothing), ("hash", nothing), ("kill", kill),
    ("local", makeLocal),
    ("printf", printf), ("pwd", pwd), ("read", read), ("test", test "test"), ("true", nothing),
    ("ulimit", nothing), ("umask", nothing), ("wait", wait)]

/-- How a command name is resolved, as `command -v` shows it. -/
def describe? (r : Running) (name : ByteText) : Option ByteText :=
  let word := String.ofList name
  if (r.state.functions.lookup name).isSome ∨ (special.lookup word).isSome ∨
      (regular.lookup word).isSome ∨ word = "exec" ∨ word = "command" then some name
  else if name.contains '/' then
    match Program.at? r.host.files r.process.here name with
    | .ok _ => some name
    | .error _ => none
  else
    (Program.directories r.searchPath).findSome? fun d =>
      let path := d ++ '/' :: name
      match Program.at? r.host.files r.process.here path with
      | .ok _ => some path
      | .error _ => none

def describe (r : Running) (line : Nat) (arguments : List ByteText) : Running :=
  arguments.foldl (fun r name =>
    match describe? r name with
    | some path => say "command" r line (path ++ ['\n'])
    | none => r.settle 127) (r.setStatus 0)

end Builtin

end FirmwareJobs.Shell

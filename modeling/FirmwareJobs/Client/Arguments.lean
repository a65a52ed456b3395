import FirmwareJobs.Client.Operation
import FirmwareJobs.Settings.Engine

/-! # Arguments of the client

Options may stand before, between and after the other arguments. A long option takes its value
after `=` or from the next argument, a short one also from the rest of its own argument. After
`--` nothing is an option. An option must not be repeated.
-/

namespace FirmwareJobs.Client

structure Switch where
  long : String
  short : Option Char
  takesValue : Bool
  deriving Repr, DecidableEq

/-- What a command understands: its switches, how many other arguments it takes, and the commands
that may come next. -/
structure Grammar where
  switches : List Switch
  positionals : Nat
  commands : List String
  deriving Repr, DecidableEq

/-- Why reading stops early. -/
inductive Stop where
  | wrong
  | version
  | help
  deriving Repr, DecidableEq

/-- What was read. An option that still lacks its value has `none`. -/
structure Given where
  options : List (String × Option String) := []
  positionals : List String := []
  deriving Repr, DecidableEq

namespace Given

def add (g : Given) (name : String) (value : Option String) : Given :=
  { g with options := g.options ++ [(name, value)] }

/-- Give the last option its value. -/
def complete (g : Given) (value : String) : Given :=
  match g.options.getLast? with
  | some (name, _) => { g with options := g.options.dropLast ++ [(name, some value)] }
  | none => g

def has (g : Given) (name : String) : Bool := g.options.any (·.1 == name)

def value? (g : Given) (name : String) : Option String := (g.options.lookup name).join

/-- No option is repeated and none lacks its value. -/
def isSound (g : Given) (switches : List Switch) : Bool :=
  switches.all fun s =>
    match g.options.filter (·.1 == s.long) with
    | [] => true
    | [(_, value)] => !s.takesValue || value.isSome
    | _ => false

end Given

/-- The switches that every command has. -/
def commonSwitches : List Switch := [⟨"help", some 'h', false⟩, ⟨"version", some 'V', false⟩]

/-- The stop that a switch asks for. -/
def stopOf? (s : Switch) : Option Stop :=
  if s.long = "version" then some .version
  else if s.long = "help" then some .help
  else none

/-- Take a switch without a value; `true` in the result means that the value is to come. -/
def takeSwitch (g : Given) (s : Switch) : Except Stop (Given × Bool) :=
  match stopOf? s with
  | some stop => .error stop
  | none => .ok (g.add s.long none, s.takesValue)

def withoutEquals (value : List Char) : String := String.ofList (value.dropWhile (· == '='))

def takeLong (grammar : Grammar) (g : Given) (arg : List Char) : Except Stop (Given × Bool) :=
  let (name, value) := (arg.dropWhile (· == '-')).span (· != '=')
  match (grammar.switches ++ commonSwitches).find? (·.long == String.ofList name) with
  | none => .error .wrong
  | some s =>
    if s.takesValue ∧ !value.isEmpty then .ok (g.add s.long (some (withoutEquals value)), false)
    else takeSwitch g s

def takeShort (grammar : Grammar) : Given → List Char → Except Stop (Given × Bool)
  | g, [] => .ok (g, false)
  | g, c :: rest =>
    match (grammar.switches ++ commonSwitches).find? (·.short == some c) with
    | none => .error .wrong
    | some s =>
      if s.takesValue then
        if rest.isEmpty then takeSwitch g s
        else .ok (g.add s.long (some (withoutEquals rest)), false)
      else do
        let (g, _) ← takeSwitch g s
        takeShort grammar g rest

/-- An argument other than an option. -/
def takePositional (grammar : Grammar) (g : Given) (arg : String) : Except Stop Given :=
  if g.positionals.length < grammar.positionals then
    .ok { g with positionals := g.positionals ++ [arg] }
  else .error .wrong

/-- Read arguments up to the end or to a command, which is given back with what follows it.
`awaiting` says that the last option lacks its value. -/
def readArguments (grammar : Grammar) (awaiting : Bool) (g : Given) :
    List String → Except Stop (Given × Option (String × List String))
  | [] => .ok (g, none)
  | arg :: rest =>
    let cs := arg.toList
    let isOption := cs.head? == some '-' && cs != ['-']
    if arg = "--" then do
      let g ← rest.foldlM (takePositional grammar) g
      .ok (g, none)
    else if awaiting && !isOption then readArguments grammar false (g.complete arg) rest
    else if !awaiting && grammar.commands.contains arg then .ok (g, some (arg, rest))
    else if isOption then do
      let (g, awaiting) ←
        if cs.take 2 = ['-', '-'] then takeLong grammar g cs
        else takeShort grammar g (cs.dropWhile (· == '-'))
      readArguments grammar awaiting g rest
    else do
      let g ← takePositional grammar g arg
      readArguments grammar awaiting g rest

def commands : List String := ["submit", "status", "list", "tail", "follow", "cancel"]

def topGrammar : Grammar := ⟨[⟨"url", some 'u', true⟩], 0, commands ++ ["help"]⟩

def commandGrammar (command : String) : Grammar :=
  if command = "submit" then
    ⟨[⟨"device", some 'd', true⟩, ⟨"clean", none, false⟩, ⟨"follow", some 'f', false⟩], 2, []⟩
  else if command = "tail" then ⟨[⟨"since", none, true⟩, ⟨"limit", none, true⟩], 1, []⟩
  else if command = "list" then ⟨[], 0, []⟩
  else ⟨[], 1, []⟩

/-- The number in an option, or its default. -/
def number (g : Given) (name : String) (default : Nat) : Except Stop Nat :=
  match g.value? name with
  | none => .ok default
  | some v =>
    match Text.unsignedBelow? 64 v.toList with
    | some n => .ok n
    | none => .error .wrong

def operation (command : String) (g : Given) : Except Stop Operation :=
  match command, g.positionals with
  | "submit", document :: rest =>
    let device := (g.value? "device").getD ""
    match Action.parse? (rest.head?.getD "compile") with
    | none => .error .wrong
    | some action =>
      .ok (.submit (.of document action device (g.has "clean")) (g.has "follow"))
  | "list", [] => .ok .list
  | "status", [id] => .ok (.status id)
  | "follow", [id] => .ok (.follow id)
  | "cancel", [id] => .ok (.cancel id)
  | "tail", [id] => do
    .ok (.tail id (← number g "since" 0) (← number g "limit" 2000))
  | _, _ => .error .wrong

def defaultUrl : String := "http://127.0.0.1:8099"

def versionText : String := "fwjob-client 0.1.0"

/-- The version text of a command. -/
def commandVersionText (command : String) : String := "fwjob_client-" ++ command ++ " 0.1.0"

def helpText : String :=
  "fwjob-client [--url URL] submit|status|list|tail|follow|cancel [arguments]"

/-- What a command line asks for. -/
inductive Invocation where
  | wrong
  | say (text : String)
  | perform (base : String) (operation : Operation)
  deriving Repr, DecidableEq

def Stop.invocation (version : String) : Stop → Invocation
  | .wrong => .wrong
  | .version => .say version
  | .help => .say helpText

/-- The address of the server without slashes at its end. -/
def baseOf (url : String) : String :=
  String.ofList (url.toList.reverse.dropWhile (· == '/')).reverse

/-- Read a command line. The address comes from its option, else from the environment. -/
def invocation (environmentUrl : Option String) (arguments : List String) : Invocation :=
  match readArguments topGrammar false {} arguments with
  | .error stop => stop.invocation versionText
  | .ok (_, none) => .wrong
  | .ok (top, some (command, rest)) =>
    if command = "help" then .say helpText
    else
      match readArguments (commandGrammar command) false {} rest with
      | .error stop => stop.invocation (commandVersionText command)
      | .ok (g, _) =>
        let sound := g.isSound (commandGrammar command).switches && top.isSound topGrammar.switches
        match operation command g with
        | .ok operation =>
          if sound then
            .perform (baseOf ((top.value? "url").getD (environmentUrl.getD defaultUrl))) operation
          else .wrong
        | .error stop => stop.invocation (commandVersionText command)

end FirmwareJobs.Client

import FirmwareJobs.Machine.Host
import FirmwareJobs.Shell.Printed
import FirmwareJobs.Text.Real

/-! # Programs

The programs that a host has: a shell, `echo`, `printf`, `sleep`, `cat`, `basename`, `true` and
`false`. A program is found in the directories of the search path unless its name has a slash.
-/

namespace FirmwareJobs.Machine

open Text

namespace Program

def standardPath : ByteText :=
  "/usr/local/sbin:/usr/local/bin:/usr/sbin:/usr/bin:/sbin:/bin".toList

/-- The parts of a search path. -/
def directories (path : ByteText) : List ByteText :=
  path.foldr (fun c parts =>
    match parts with
    | d :: rest => if c = ':' then [] :: d :: rest else (c :: d) :: rest
    | [] => [[c]]) [[]]

/-- The program at one path. -/
def at? (files : Files.Tree) (here : Files.Place) (path : ByteText) :
    Except Files.Fault String := do
  match ← files.demand (← files.locate here (ByteText.toString path)) with
  | .program name => .ok name
  | _ => .error .denied

/-- Look in all directories. A program that may not be run counts only if there is no other. -/
def search (files : Files.Tree) (here : Files.Place) (name : ByteText) :
    List ByteText → Except Files.Fault String
  | [] => .error .missing
  | d :: rest =>
    let path := if d.isEmpty then name else d ++ '/' :: name
    match at? files here path with
    | .ok program => .ok program
    | .error fault =>
      match search files here name rest with
      | .error .missing => .error (if fault = .denied then .denied else .missing)
      | found => found

def find (files : Files.Tree) (here : Files.Place) (path name : ByteText) :
    Except Files.Fault String :=
  if name.isEmpty then .error .missing
  else if name.contains '/' then at? files here name
  else search files here name (directories path)

/-! ## The programs -/

def dropSlashes (s : ByteText) : ByteText := (s.reverse.dropWhile (· == '/')).reverse

/-- The last part of a path, without an ending that is not all of it. -/
def baseName (s ending : ByteText) : ByteText :=
  let trimmed := dropSlashes s
  let base :=
    if trimmed.isEmpty then s.take 1 else (trimmed.reverse.takeWhile (· != '/')).reverse
  if !ending.isEmpty ∧ ending.isSuffixOf base ∧ ending ≠ base then
    base.take (base.length - ending.length)
  else base

def quoted (s : ByteText) : ByteText := '\x27' :: s ++ ['\x27']

/-- Nanoseconds of a duration with an optional unit. -/
def duration? (s : ByteText) : Option Nat :=
  let (body, unit) := match s.getLast? with
    | some 's' => (s.dropLast, 1)
    | some 'm' => (s.dropLast, 60)
    | some 'h' => (s.dropLast, 3600)
    | some 'd' => (s.dropLast, 86400)
    | _ => (s, 1)
  let (whole, rest) := body.span isDigit
  let fraction := match rest with
    | [] => some []
    | '.' :: ds => if ds.all isDigit then some ds else none
    | _ => none
  match fraction with
  | none => none
  | some ds =>
    if whole.isEmpty ∧ ds.isEmpty then none
    else
      let ds := ds.take 9
      let nanos := digitsValue 0 ds * Nat.pow 10 (9 - ds.length)
      some ((digitsValue 0 whole * 1000000000 + nanos) * unit)

def tryHelp (name : String) : String :=
  "Try \x27" ++ name ++ " --help\x27 for more information.\n"

def missingOperand (name : String) : Activity :=
  .printing [] (name ++ ": missing operand\n" ++ tryHelp name).toList 1

def sleep (now : Nat) (arguments : List ByteText) : Activity :=
  match arguments with
  | [] => missingOperand "sleep"
  | _ =>
    match arguments.find? fun a => (duration? a).isNone with
    | some bad =>
      .printing [] ("sleep: invalid time interval ".toList ++ quoted bad ++
        ("\n" ++ tryHelp "sleep").toList) 1
    | none => .sleeping (now + (arguments.filterMap duration?).foldl (· + ·) 0)

def printf (name : String) (arguments : List ByteText) : Activity :=
  match arguments with
  | [] => missingOperand name
  | format :: rest =>
    match Shell.Printed.formatted true format rest with
    | .error left => .printing [] (name.toList ++ ": ".toList ++ left ++ "\n".toList) 1
    | .ok o =>
      .printing o.text
        (o.wrong.flatMap fun a =>
          name.toList ++ ": ".toList ++ quoted a ++ ": expected a numeric value\n".toList)
        (if o.wrong.isEmpty then 0 else 1)

/-- The options of a shell, whether a command is given, and the operands. -/
def shellOptions (options : List Char) (commanded : Bool) :
    List ByteText → List Char × Bool × List ByteText
  | ['-', '-'] :: rest => (options, commanded, rest)
  | ('-' :: c :: cs) :: rest =>
    let letters := c :: cs
    shellOptions (options ++ letters.filter fun c => c != 'c' && c != 's')
      (commanded || letters.contains 'c') rest
  | rest => (options, commanded, rest)

/-- The shell reads a command, a file or its input. -/
def shell (files : Files.Tree) (here : Files.Place) (process : Nat)
    (environment : List (ByteText × ByteText)) (name : ByteText) (arguments : List ByteText)
    (ignored : List Signal) : Activity :=
  let (options, commanded, operands) := shellOptions [] false arguments
  let start (name : ByteText) (arguments : List ByteText) (frame : Shell.Frame) : Activity :=
    .shell
      { parameters :=
          { name, arguments, bindings := environment, exported := environment.map (·.1), options,
            process }
        traps := ignored.map fun s => (s, [])
        stack := [frame] }
  match commanded, operands with
  | true, [] => .printing [] (name ++ ": 0: -c requires an argument\n".toList) 2
  | true, [command] => start name [] (.script command 1)
  | true, command :: zero :: rest => start zero rest (.script command 1)
  | false, [] => start name [] .input
  | false, file :: rest =>
    match files.read here (ByteText.toString file) with
    | .ok content => start file rest (.script (ByteText.ofBytes content) 1)
    | .error .isDirectory => start file rest (.script [] 1)
    | .error _ =>
      .printing [] (name ++ ": 0: cannot open ".toList ++ file ++ ": No such file\n".toList) 2

/-- What a program does with its arguments, the first of which is its own name. -/
def start (h : Host) (here : Files.Place) (process : Nat) (program : String)
    (environment : List (ByteText × ByteText)) (arguments : List ByteText)
    (ignored : List Signal) : Activity :=
  let rest := arguments.drop 1
  match program with
  | "sh" => shell h.files here process environment (arguments.headD []) rest ignored
  | "echo" => .printing (Shell.Printed.echoedByProgram rest) [] 0
  | "printf" => printf "printf" rest
  | "sleep" => sleep h.now rest
  | "true" => .printing [] [] 0
  | "basename" =>
    match rest with
    | [] => missingOperand "basename"
    | [a] => .printing (baseName a [] ++ ['\n']) [] 0
    | a :: b :: _ => .printing (baseName a b ++ ['\n']) [] 0
  | "cat" =>
    .copying (if rest.isEmpty then [.input]
      else rest.map fun a => if a = ['-'] then .input else .path a) 0
  | _ => .printing [] [] 1

end Program

/-- Let a process go on as another program. -/
def Host.exec (h : Host) (id : Nat) (path : ByteText) (environment : List (ByteText × ByteText))
    (arguments : List ByteText) (ignored : List Signal) : Except Files.Fault Host :=
  match h.process? id with
  | none => .error .missing
  | some p => do
    let program ← Program.find h.files p.here path (arguments.headD [])
    .ok (h.setProcess { p with
      activity := Program.start h p.here id program environment arguments ignored, ignored })

end FirmwareJobs.Machine

import FirmwareJobs.Shell.Command
import FirmwareJobs.Shell.Parameters
import FirmwareJobs.Shell.Pattern

/-! # Expansion of words

A word becomes a row of items, which is then cut into fields. Outputs of command substitutions are
supplied in the order in which they are needed. When one is missing the expansion stops and names
the commands to run; it is started again with one output more.
-/

namespace FirmwareJobs.Shell

open Text

/-- A character that may divide fields, a place that makes a field exist though it may be empty,
or a place where a field ends. -/
inductive Item where
  | glyph (g : Glyph) (divides : Bool)
  | anchor
  | boundary
  deriving Repr, DecidableEq

/-- Why an expansion stopped. -/
inductive Stop where
  | needs (source : ByteText)
  | failed (message : ByteText)

/-- The parameters so far and the outputs not used yet. -/
structure Supply where
  parameters : Parameters
  outputs : List ByteText

namespace Expansion

def failed {α : Type} (name : ByteText) (reason : String) : Except Stop (α × Supply) :=
  .error (.failed (name ++ ": ".toList ++ reason.toList))

/-- The items of a value. -/
def items (s : ByteText) (quoted : Bool) : List Item :=
  if quoted then .anchor :: s.map fun c => .glyph ⟨c, true⟩ false
  else s.map fun c => .glyph ⟨c, false⟩ true

/-- All arguments, as fields of their own. -/
def argumentItems (quoted : Bool) : List ByteText → List Item
  | [] => []
  | [a] => items a quoted
  | a :: rest => items a quoted ++ .boundary :: argumentItems quoted rest

def joined (separator : ByteText) (arguments : List ByteText) : ByteText :=
  separator.intercalate arguments

/-- The text of items; a boundary becomes a space. -/
def textOf (is : List Item) : ByteText :=
  is.filterMap fun
    | .glyph g _ => some g.char
    | .anchor => none
    | .boundary => some ' '

def glyphsOf (is : List Item) : List Glyph :=
  is.filterMap fun
    | .glyph g _ => some g
    | .anchor => none
    | .boundary => some ⟨' ', true⟩

def dropLineEnds (s : ByteText) : ByteText := (s.reverse.dropWhile (· == '\n')).reverse

def parameterItems (p : Parameters) (name : ByteText) (quoted : Bool) : Option (List Item) :=
  match name with
  | ['@'] => some (argumentItems quoted p.arguments)
  | ['*'] =>
    if quoted then some (items (joined (p.separators.take 1) p.arguments) true)
    else some (argumentItems false p.arguments)
  | _ => (p.value? name).map (items · quoted)

/-- The text of a parameter; all arguments are joined by spaces. -/
def parameterText (p : Parameters) (name : ByteText) : Option ByteText :=
  if name = ['@'] ∨ name = ['*'] then
    if p.arguments.isEmpty then none else some (joined [' '] p.arguments)
  else p.value? name

def arithmeticFault (body : ByteText) : Arithmetic.Fault → ByteText
  | .divisionByZero =>
    "arithmetic expression: division by zero: \x22".toList ++ body ++ ['\x22']
  | .badNumber s => "Illegal number: ".toList ++ s

/-- Make the assignments of an arithmetic expression, first one first. -/
def assignAll (p : Parameters) : List (ByteText × ByteText) → Option Parameters
  | [] => some p
  | (name, value) :: rest => do (← p.assign? name value) |> (assignAll · rest)

def arithmetic (s : Supply) (body : ByteText) (quoted : Bool) : Except Stop (List Item × Supply) :=
  let values := s.parameters.bindings
  match Arithmetic.read? body with
  | none =>
    .error (.failed ("arithmetic expression: expecting primary: \x22".toList ++ body ++ ['\x22']))
  | some e =>
    match Arithmetic.evaluate values e with
    | .error fault => .error (.failed (arithmeticFault body fault))
    | .ok (n, after) =>
      match assignAll s.parameters (after.take (after.length - values.length)).reverse with
      | some parameters => .ok (items (Arithmetic.written n) quoted, { s with parameters })
      | none => failed [] "is read only"

mutual

/-- The items of a part. Plain text divides fields only inside `${…}`. -/
def part (inside : Bool) (s : Supply) : Part → Except Stop (List Item × Supply)
  | .text t quoted =>
    .ok (if quoted then items t true else t.map fun c => .glyph ⟨c, false⟩ inside, s)
  | .output t quoted => .ok (items t quoted, s)
  | .parameter name quoted =>
    match parameterItems s.parameters name quoted with
    | some is => .ok (is, s)
    | none =>
      if s.parameters.hasOption 'u' then failed name "parameter not set"
      else .ok (if quoted then [.anchor] else [], s)
  | .length name quoted =>
    .ok (items (Parameters.decimal ((parameterText s.parameters name).getD []).length) quoted, s)
  | .command source quoted =>
    match s.outputs with
    | [] => .error (.needs source)
    | o :: rest => .ok (items (dropLineEnds o) quoted, { s with outputs := rest })
  | .arithmetic body quoted => do
    let (is, s) ← parts false s body
    arithmetic s (textOf is) quoted
  | .modified name colon modifier word quoted =>
    let value := (parameterText s.parameters name).filter fun v => !(colon && v.isEmpty)
    let plain : List Item := (parameterItems s.parameters name quoted).getD []
    match modifier, value with
    | .orElse, some _ | .assign, some _ | .demand, some _ => .ok (plain, s)
    | .orElse, none => parts true s word
    | .instead, some _ => parts true s word
    | .instead, none => .ok (if quoted then [.anchor] else [], s)
    | .assign, none => do
      let (is, s) ← parts true s word
      match s.parameters.assign? name (textOf is) with
      | some parameters => .ok (items (textOf is) quoted, { s with parameters })
      | none => failed name "is read only"
    | .demand, none => do
      let (is, _) ← parts true s word
      let reason := textOf is
      .error (.failed (name ++ ": ".toList ++
        if reason.isEmpty then "parameter not set".toList else reason))
    | .dropStart longest, v => do
      let (is, s) ← parts true s word
      .ok (items (Pattern.dropStart longest (glyphsOf is) (v.getD [])) quoted, s)
    | .dropEnd longest, v => do
      let (is, s) ← parts true s word
      .ok (items (Pattern.dropEnd longest (glyphsOf is) (v.getD [])) quoted, s)

def parts (inside : Bool) (s : Supply) : List Part → Except Stop (List Item × Supply)
  | [] => .ok ([], s)
  | p :: rest => do
    let (a, s) ← part inside s p
    let (b, s) ← parts inside s rest
    .ok (a ++ b, s)

end

/-- Cut items into fields. `field` is the field begun; `afterBlank` says that a blank has just
ended one, so that a separator right after it ends none. -/
def fieldsFrom (separators : List Char) :
    Option (List Glyph) → Bool → List Item → List (List Glyph)
  | field, _, [] => field.toList
  | field, _, .anchor :: rest => fieldsFrom separators (some (field.getD [])) false rest
  | field, _, .boundary :: rest => field.toList ++ fieldsFrom separators none false rest
  | field, afterBlank, .glyph g divides :: rest =>
    if divides ∧ separators.contains g.char then
      if Arithmetic.isBlank g.char then
        field.toList ++ fieldsFrom separators none (afterBlank || field.isSome) rest
      else if afterBlank then fieldsFrom separators none false rest
      else field.getD [] :: fieldsFrom separators none false rest
    else fieldsFrom separators (some (field.getD [] ++ [g])) false rest

/-- The fields of a word. -/
def fields (s : Supply) (w : Word) : Except Stop (List (List Glyph) × Supply) := do
  let (is, s) ← parts false s w
  .ok (fieldsFrom s.parameters.separators none false is, s)

def allFields (s : Supply) : List Word → Except Stop (List (List Glyph) × Supply)
  | [] => .ok ([], s)
  | w :: rest => do
    let (a, s) ← fields s w
    let (b, s) ← allFields s rest
    .ok (a ++ b, s)

/-- The text of a word that is not cut into fields. -/
def text (s : Supply) (w : Word) : Except Stop (ByteText × Supply) := do
  let (is, s) ← parts false s w
  .ok (textOf is, s)

/-- The pattern that a word stands for. -/
def pattern (s : Supply) (w : Word) : Except Stop (List Glyph × Supply) := do
  let (is, s) ← parts false s w
  .ok (glyphsOf is, s)

end Expansion

end FirmwareJobs.Shell

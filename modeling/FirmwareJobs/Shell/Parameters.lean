import FirmwareJobs.Shell.Arithmetic

/-! # Parameters of a shell -/

namespace FirmwareJobs.Shell

open Text

structure Parameters where
  name : ByteText
  arguments : List ByteText := []
  bindings : List (ByteText × ByteText) := []
  exported : List ByteText := []
  constants : List ByteText := []
  options : List Char := []
  status : Nat := 0
  process : Nat := 0
  background : Option Nat := none

namespace Parameters

def decimal (n : Nat) : ByteText := digits n

/-- The value of a parameter that is one text. -/
def value? (p : Parameters) (name : ByteText) : Option ByteText :=
  match name with
  | ['#'] => some (decimal p.arguments.length)
  | ['?'] => some (decimal p.status)
  | ['$'] => some (decimal p.process)
  | ['!'] => p.background.map decimal
  | ['-'] => some p.options
  | _ =>
    if name.all isDigit then
      let n := digitsValue 0 name
      if n = 0 then some p.name else p.arguments[n - 1]?
    else p.bindings.lookup name

def hasOption (p : Parameters) (c : Char) : Bool := p.options.contains c

def put (name value : ByteText) : List (ByteText × ByteText) → List (ByteText × ByteText)
  | [] => [(name, value)]
  | (n, v) :: rest => if n = name then (n, value) :: rest else (n, v) :: put name value rest

/-- Assign a variable, unless it is constant. -/
def assign? (p : Parameters) (name value : ByteText) : Option Parameters :=
  if p.constants.contains name then none
  else
    let exported :=
      if p.hasOption 'a' ∧ !p.exported.contains name then p.exported ++ [name] else p.exported
    some { p with bindings := put name value p.bindings, exported }

def unset (p : Parameters) (name : ByteText) : Parameters :=
  { p with
    bindings := p.bindings.filter (·.1 != name)
    exported := p.exported.filter (· != name) }

def share (p : Parameters) (name : ByteText) : Parameters :=
  if p.exported.contains name then p else { p with exported := p.exported ++ [name] }

/-- The variables that programs get, with their values. -/
def environment (p : Parameters) : List (ByteText × ByteText) :=
  p.bindings.filter fun (n, _) => p.exported.contains n

/-- The characters that divide fields. -/
def separators (p : Parameters) : List Char :=
  (p.bindings.lookup "IFS".toList).getD [' ', '\t', '\n']

end Parameters

end FirmwareJobs.Shell

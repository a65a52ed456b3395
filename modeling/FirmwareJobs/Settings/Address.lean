import FirmwareJobs.Text.Decimal

/-! # Network addresses

Version 4 addresses are four decimal octets without leading zeros. Version 6 addresses are eight
hexadecimal groups, of which one run of zeros may be left out and the last two may be written as
a version 4 address.
-/

namespace FirmwareJobs

open Text

inductive Address where
  | v4 (octets : List Nat)
  | v6 (groups : List Nat)
  deriving Repr, DecidableEq

namespace Address

/-- A decimal octet at the front of the text. -/
def takeOctet (s : List Char) : Option (Nat × List Char) :=
  let ds := s.takeWhile isDigit
  let n := digitsValue 0 ds
  if ds.isEmpty ∨ 3 < ds.length ∨ 255 < n ∨ (1 < ds.length ∧ ds.head? = some '0') then none
  else some (n, s.drop ds.length)

/-- Four octets at the front of the text. -/
def takeV4 (s : List Char) : Option (List Nat × List Char) := do
  let (a, s) ← takeOctet s
  let (b, s) ← dotted s
  let (c, s) ← dotted s
  let (d, s) ← dotted s
  some ([a, b, c, d], s)
where
  dotted : List Char → Option (Nat × List Char)
    | '.' :: r => takeOctet r
    | _ => none

/-- A hexadecimal group of one to four digits. -/
def takeGroup (s : List Char) : Option (Nat × List Char) :=
  let ds := s.takeWhile fun c => (hexValue? c).isSome
  if ds.isEmpty ∨ 4 < ds.length then none
  else some (ds.foldl (fun n c => n * 16 + (hexValue? c).getD 0) 0, s.drop ds.length)

/-- What stands after a colon, which the first group does not need. -/
def afterColon (isFirst : Bool) (s : List Char) : Option (List Char) :=
  if isFirst then some s
  else match s with
    | ':' :: r => some r
    | _ => none

/-- The two groups of a version 4 address. -/
def pairOctets : List Nat → List Nat
  | [a, b, c, d] => [a * 256 + b, c * 256 + d]
  | _ => []

/-- At most `limit` groups, and whether the last two came from a version 4 address. -/
def takeGroups (isFirst : Bool) : Nat → List Char → List Nat × Bool × List Char
  | 0, s => ([], false, s)
  | limit + 1, s =>
    let embedded := if limit = 0 then none else (afterColon isFirst s).bind takeV4
    match embedded with
    | some (octets, rest) => (pairOctets octets, true, rest)
    | none =>
      match (afterColon isFirst s).bind takeGroup with
      | none => ([], false, s)
      | some (group, rest) =>
        let (groups, embedded, rest) := takeGroups false limit rest
        (group :: groups, embedded, rest)

def takeV6 (s : List Char) : Option (List Nat × List Char) :=
  let (front, embedded, rest) := takeGroups true 8 s
  if front.length = 8 then some (front, rest)
  else if embedded then none
  else
    match rest with
    | ':' :: ':' :: rest =>
      let (back, _, rest) := takeGroups true (7 - front.length) rest
      some (front ++ List.replicate (8 - front.length - back.length) 0 ++ back, rest)
    | _ => none

def ofChars? (s : List Char) : Option Address :=
  match takeV4 s with
  | some (octets, []) => some (.v4 octets)
  | _ =>
    match takeV6 s with
    | some (groups, []) => some (.v6 groups)
    | _ => none

def ofText? (s : String) : Option Address := ofChars? s.toList

def joined (divider : Char) : List (List Char) → List Char
  | [] => []
  | [x] => x
  | x :: xs => x ++ divider :: joined divider xs

def octetChars (octets : List Nat) : List Char := joined '.' (octets.map digits)

/-- The start and length of the first longest run of zeros. `start` and `length` describe the run
that ends before `index`. -/
def longestZeros (index start length : Nat) (best : Nat × Nat) : List Nat → Nat × Nat
  | [] => best
  | g :: rest =>
    if g = 0 then
      let start := if length = 0 then index else start
      let best := if best.2 < length + 1 then (start, length + 1) else best
      longestZeros (index + 1) start (length + 1) best rest
    else longestZeros (index + 1) 0 0 best rest

/-- Groups with the first longest run of two or more zeros left out. -/
def groupChars (groups : List Nat) : List Char :=
  let hex (gs : List Nat) := joined ':' (gs.map hexDigits)
  let (start, length) := longestZeros 0 0 0 (0, 0) groups
  if 1 < length then hex (groups.take start) ++ ':' :: ':' :: hex (groups.drop (start + length))
  else hex groups

/-- A version 6 address that carries a version 4 address shows its octets. -/
def toText : Address → String
  | .v4 octets => String.ofList (octetChars octets)
  | .v6 groups =>
    match groups with
    | [0, 0, 0, 0, 0, 0xffff, a, b] =>
      "::ffff:" ++ String.ofList (octetChars [a / 256, a % 256, b / 256, b % 256])
    | _ => String.ofList (groupChars groups)

end Address

end FirmwareJobs

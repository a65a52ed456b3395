import FirmwareJobs.Settings.Address
import FirmwareJobs.Url.Percent
import FirmwareJobs.Url.Punycode

/-! # Hosts

A host is a domain name, a version 4 address or a version 6 address in brackets. Names are written
in lower case and in ASCII. A name whose last label is a number must be a version 4 address, whose
numbers may also be octal or hexadecimal and may cover several octets.
-/

namespace FirmwareJobs.Url

open Text

/-- Characters that no domain name may contain. -/
def isForbiddenInDomain (c : Char) : Bool :=
  c.toNat ≤ 0x20 || c.toNat == 0x7f || "#/:<>?@[\\]^|%".toList.contains c

/-- The form of a character in a domain name: lower case, ASCII instead of full width, and one kind
of full stop. -/
def domainChar (c : Char) : List Char :=
  let n := c.toNat
  if n == 0xAD then []
  else if n == 0x3002 || n == 0xFF0E || n == 0xFF61 then ['.']
  else if 0xFF01 ≤ n && n ≤ 0xFF5E then [(Char.ofNat (0x21 + n % 0xFF01)).toLower]
  else if (0xC0 ≤ n && n ≤ 0xDE && n != 0xD7) || (0x391 ≤ n && n ≤ 0x3A9) ||
      (0x410 ≤ n && n ≤ 0x42F) then [Char.ofNat (n + 32)]
  else if 0x400 ≤ n && n ≤ 0x40F then [Char.ofNat (n + 80)]
  else if ((0x100 ≤ n && n ≤ 0x137) || (0x14A ≤ n && n ≤ 0x177)) && n % 2 == 0 then
    [Char.ofNat (n + 1)]
  else [c.toLower]

/-- A number in an address: decimal, octal after `0`, hexadecimal after `0x`. -/
def addressNumber? (s : List Char) : Option Nat :=
  let value (base : Nat) (ds : List Char) : Option Nat :=
    if ds.all fun c => match hexValue? c with
      | some v => v < base
      | none => false
    then some (ds.foldl (fun n c => n * base + (hexValue? c).getD 0) 0)
    else none
  match s with
  | [] => none
  | '0' :: 'x' :: ds => value 16 ds
  | '0' :: ds => value 8 ds
  | ds => value 10 ds

def labels (domain : List Char) : List (List Char) := splitOn (· == '.') domain

/-- The labels without an empty last one. -/
def addressParts (domain : List Char) : List (List Char) :=
  let parts := labels domain
  if parts.getLast? = some [] ∧ 1 < parts.length then parts.dropLast else parts

def endsInNumber (domain : List Char) : Bool :=
  match (addressParts domain).getLast? with
  | none => false
  | some label =>
    (!label.isEmpty && label.all isDigit) ||
      (['0', 'x'].isPrefixOf label && (addressNumber? label).isSome)

/-- The octets of an address whose last number covers all that the others leave. -/
def addressOctets? (domain : List Char) : Option (List Nat) := do
  let parts := addressParts domain
  let numbers ← parts.mapM addressNumber?
  let count := numbers.length
  let last ← numbers.getLast?
  if 4 < count ∨ numbers.dropLast.any (255 < ·) ∨ Nat.pow 256 (5 - count) ≤ last then none
  else
    let rest := (List.range (5 - count)).map fun i => last / Nat.pow 256 (4 - count - i) % 256
    some (numbers.dropLast ++ rest)

/-- The written form of a host, `none` if it is not valid. -/
def host? (s : List Char) : Option (List Char) :=
  match s with
  | '[' :: r =>
    match r.getLast? with
    | some ']' =>
      match Address.takeV6 r.dropLast with
      | some (groups, []) => some ('[' :: Address.groupChars groups ++ [']'])
      | _ => none
    | _ => none
  | _ => do
    let decoded ← Utf8.decode? (percentDecode s)
    let domain := decoded.flatMap domainChar
    let domain := Address.joined '.' ((labels domain).map Punycode.encode)
    if domain.isEmpty ∨ domain.any isForbiddenInDomain then none
    else if endsInNumber domain then
      (addressOctets? domain).map Address.octetChars
    else some domain

end FirmwareJobs.Url

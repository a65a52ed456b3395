import FirmwareJobs.Text.Decimal
import FirmwareJobs.Text.Utf8

/-! # Percent encoding

A byte is written as a percent sign and two capital hexadecimal digits. Reading is lenient: a
percent sign without two digits stands for itself.
-/

namespace FirmwareJobs.Url

open Text

def percentSign : UInt8 := 0x25

def capitalHex (n : Nat) : Char := if n < 10 then digitChar n else Char.ofNat (55 + n)

def percentByte (b : UInt8) : List Char :=
  ['%', capitalHex (b.toNat / 16), capitalHex (b.toNat % 16)]

/-- Encode the characters that are not ASCII graphic characters or belong to `reserved`. -/
def percentEncode (reserved : Char → Bool) (s : List Char) : List Char :=
  s.flatMap fun c =>
    if c.toNat ≤ 0x20 ∨ 0x7f ≤ c.toNat ∨ reserved c then
      (String.utf8EncodeChar c).flatMap percentByte
    else [c]

/-- The byte of two hexadecimal digits. -/
def hexByte? (a b : Char) : Option UInt8 := do
  let high ← hexValue? a
  let low ← hexValue? b
  some (UInt8.ofNat (high * 16 + low))

def percentDecode : List Char → List UInt8
  | '%' :: a :: b :: r =>
    match hexByte? a b with
    | some x => x :: percentDecode r
    | none => percentSign :: percentDecode (a :: b :: r)
  | c :: r => String.utf8EncodeChar c ++ percentDecode r
  | [] => []
termination_by s => s.length

/-- The text before the first character that satisfies `p`, and the rest from there on. -/
def splitAtFirst (p : Char → Bool) (s : List Char) : List Char × List Char :=
  s.span fun c => !p c

/-- The parts of a text between the characters that satisfy `p`. -/
def splitOn (p : Char → Bool) : List Char → List (List Char)
  | [] => [[]]
  | c :: r =>
    if p c then [] :: splitOn p r
    else
      match splitOn p r with
      | part :: parts => (c :: part) :: parts
      | [] => [[c]]

end FirmwareJobs.Url

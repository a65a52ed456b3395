import FirmwareJobs.Text.Decimal

/-! # Labels of international domain names

A label with characters beyond ASCII is written as `xn--`, its ASCII characters and a sequence of
numbers that say where the other characters are inserted. The numbers have digits of varying
weight, adapted to what was inserted before.
-/

namespace FirmwareJobs.Url.Punycode

/-- A digit of base 36. -/
def digit (n : Nat) : Char := if n < 26 then Char.ofNat (97 + n) else Char.ofNat (22 + n)

/-- The weight of the digits after an insertion. -/
def adapt (first : Bool) (delta count : Nat) : Nat :=
  let delta := if first then delta / 700 else delta / 2
  shrink 64 0 (delta + delta / count)
where
  shrink : Nat → Nat → Nat → Nat
    | 0, k, delta => k + 36 * delta / (delta + 38)
    | fuel + 1, k, delta =>
      if 455 < delta then shrink fuel (k + 36) (delta / 35) else k + 36 * delta / (delta + 38)

/-- The digits of a number, lowest first. -/
def weighted (bias : Nat) : Nat → Nat → Nat → List Char
  | 0, _, _ => []
  | fuel + 1, k, n =>
    let t := if k ≤ bias then 1 else min (k - bias) 26
    if n < t then [digit n]
    else digit (t + (n - t) % (36 - t)) :: weighted bias fuel (k + 36) ((n - t) / (36 - t))

/-- The state between two characters: the digits so far, the gap to the last insertion, the weight
and the number of characters handled. -/
structure Coder where
  output : List Char
  delta : Nat
  bias : Nat
  handled : Nat
  first : Bool

/-- Pass one character of the label while those with the code `n` are inserted. -/
def visit (n : Nat) (s : Coder) (c : Char) : Coder :=
  if c.toNat < n then { s with delta := s.delta + 1 }
  else if c.toNat = n then
    { output := s.output ++ weighted s.bias 64 36 s.delta
      delta := 0
      bias := adapt s.first s.delta (s.handled + 1)
      handled := s.handled + 1
      first := false }
  else s

/-- Insert the characters with the codes of the list, in increasing order. -/
def insertAll (label : List Char) : Nat → List Nat → Coder → Coder
  | _, [], s => s
  | n, m :: rest, s =>
    let s := { s with delta := s.delta + (m - n) * (s.handled + 1) }
    let s := label.foldl (visit m) s
    insertAll label (m + 1) rest { s with delta := s.delta + 1 }

/-- The ASCII form of a label. -/
def encode (label : List Char) : List Char :=
  let basic := label.filter (·.toNat < 128)
  if basic.length = label.length then label
  else
    let codes := ((label.filter (128 ≤ ·.toNat)).map Char.toNat).mergeSort.eraseDups
    let start := if basic.isEmpty then [] else basic ++ ['-']
    let coder := insertAll label 128 codes ⟨start, 0, 72, basic.length, true⟩
    "xn--".toList ++ coder.output

end FirmwareJobs.Url.Punycode

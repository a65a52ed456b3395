import FirmwareJobs.Json.Token

/-! # Reading JSON numbers

An integer keeps its value as long as it fits in 64 bits, unsigned or negative. Every other
number, minus zero among them, is a fraction whose value nobody asks for; only its size is
checked, since a number beyond the range of binary64 is no number at all.
-/

namespace FirmwareJobs.Json

inductive Number where
  | natural (n : Nat)
  | negative (n : Nat)
  | fraction
  deriving Repr, DecidableEq

def digitsOf (s : Bytes) : Bytes := s.takeWhile isDigit

def afterDigits (s : Bytes) : Bytes := s.dropWhile isDigit

def decimalValue (ds : Bytes) : Nat := ds.foldl (fun n b => n * 10 + b.toNat % 16) 0

/-- Half way between the largest finite binary64 and the next power of two. -/
def overflowBound : Nat := Nat.pow 2 1024 - Nat.pow 2 970

/-- Whether `m * 10 ^ e` rounds to infinity. -/
def tooLarge (m : Nat) (e : Int) : Bool :=
  if m = 0 then false
  else
    let magnitude := (Nat.toDigits 10 m).length + e
    if magnitude ≤ 308 then false
    else if 310 < magnitude then true
    else if 0 ≤ e then overflowBound ≤ m * Nat.pow 10 e.toNat
    else overflowBound * Nat.pow 10 (-e).toNat ≤ m

def fractionOf (m : Nat) (e : Int) (rest : Bytes) : Except Failure (Number × Bytes) :=
  if tooLarge m e then .error .malformed else .ok (.fraction, rest)

def signOf : Bytes → Bool × Bytes
  | b :: r => if b = 0x2B then (false, r) else if b = minus then (true, r) else (false, b :: r)
  | [] => (false, [])

/-- An exponent, read after its mark, on top of `m * 10 ^ e`. -/
def exponentPart (m : Nat) (e : Int) (s : Bytes) : Except Failure (Number × Bytes) :=
  let (negative, r) := signOf s
  match r with
  | [] => .error .truncated
  | b :: _ =>
    if isDigit b then
      let n : Int := decimalValue (digitsOf r)
      fractionOf m (if negative then e - n else e + n) (afterDigits r)
    else .error .malformed

/-- The digits after a decimal point, on top of the integer `m`. -/
def decimalPart (m : Nat) (s : Bytes) : Except Failure (Number × Bytes) :=
  match digitsOf s, s with
  | [], [] => .error .truncated
  | [], _ => .error .malformed
  | ds, _ =>
    let total := ds.foldl (fun n b => n * 10 + b.toNat % 16) m
    match afterDigits s with
    | b :: r =>
      if isExponentMark b then exponentPart total (-ds.length) r
      else fractionOf total (-ds.length) (b :: r)
    | [] => fractionOf total (-ds.length) []

/-- What follows the integer part `m`. -/
def numberRest (negative : Bool) (m : Nat) (s : Bytes) : Except Failure (Number × Bytes) :=
  let whole :=
    if negative then
      if m = 0 ∨ 9223372036854775808 < m then fractionOf m 0 s else .ok (.negative m, s)
    else if m < 18446744073709551616 then .ok (.natural m, s) else fractionOf m 0 s
  match s with
  | b :: r =>
    if b = point then decimalPart m r
    else if isExponentMark b then exponentPart m 0 r
    else whole
  | [] => whole

/-- A number without its sign. A leading zero stands alone. -/
def unsignedNumber (negative : Bool) : Reader Number
  | [] => .error .truncated
  | b :: r =>
    if !isDigit b then .error .malformed
    else if b = 0x30 then
      match r with
      | c :: _ => if isDigit c then .error .malformed else numberRest negative 0 r
      | [] => numberRest negative 0 r
    else numberRest negative (decimalValue (digitsOf (b :: r))) (afterDigits (b :: r))

/-- A number that is not looked at, without its sign. Nothing bounds its size. -/
def skipNumber : Bytes → Except Failure Bytes
  | [] => .error .malformed
  | b :: r =>
    if !isDigit b then .error .malformed
    else if b = 0x30 then
      match r with
      | c :: _ => if isDigit c then .error .malformed else skipFraction r
      | [] => .ok []
    else skipFraction (afterDigits r)
where
  skipExponent (s : Bytes) : Except Failure Bytes :=
    let (_, r) := signOf s
    if (digitsOf r).isEmpty then .error .malformed else .ok (afterDigits r)
  skipFraction : Bytes → Except Failure Bytes
    | b :: r =>
      if b = point then
        if (digitsOf r).isEmpty then .error .malformed
        else
          match afterDigits r with
          | c :: t => if isExponentMark c then skipExponent t else .ok (c :: t)
          | [] => .ok []
      else if isExponentMark b then skipExponent r
      else .ok (b :: r)
    | [] => .ok []

end FirmwareJobs.Json

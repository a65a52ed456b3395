import FirmwareJobs.Text.Decimal

/-! # Decimal fractions as binary numbers

A real number is read from decimal notation and rounded to the nearest number of 53 significant
bits, a tie to the even neighbour. What is too large for the binary format becomes infinite.
-/

namespace FirmwareJobs.Text

/-- `num / den` rounded to the nearest whole number, a half to the even one. -/
def roundHalfEven (num den : Nat) : Nat :=
  let q := num / den
  let r := num % den
  if den < 2 * r ∨ (den = 2 * r ∧ q % 2 = 1) then q + 1 else q

/-- A number text: `mantissa * 10 ^ exponent` with a sign, or one of the special names. -/
inductive Real where
  | undefined
  | infinite (negative : Bool)
  | finite (negative : Bool) (mantissa : Nat) (exponent : Int)
  deriving Repr, DecidableEq

/-- A non-negative binary number `mantissa * 2 ^ exponent`. -/
structure Binary where
  mantissa : Nat
  exponent : Int
  deriving Repr, DecidableEq

namespace Binary

/-- The number times `scale`, rounded to a whole number. -/
def scaled (b : Binary) (scale : Nat) : Nat :=
  if 0 ≤ b.exponent then b.mantissa * scale * Nat.pow 2 b.exponent.toNat
  else roundHalfEven (b.mantissa * scale) (Nat.pow 2 (-b.exponent).toNat)

/-- The largest `k` with `2 ^ k ≤ num / den`. -/
def magnitude (num den : Nat) : Int :=
  let k : Int := (num.log2 : Int) - den.log2
  let reaches := if 0 ≤ k then den * Nat.pow 2 k.toNat ≤ num else den ≤ num * Nat.pow 2 (-k).toNat
  if reaches then k else k - 1

/-- The binary number nearest to `num / den`, `none` if it is too large. -/
def nearest? (num den : Nat) : Option Binary :=
  if num = 0 then some ⟨0, 0⟩
  else
    let q := max (magnitude num den - 52) (-1074)
    let m := if 0 ≤ q then roundHalfEven num (den * Nat.pow 2 q.toNat)
      else roundHalfEven (num * Nat.pow 2 (-q).toNat) den
    if Nat.pow 2 1024 ≤ (Binary.mk m q).scaled 1 then none else some ⟨m, q⟩

/-- The binary number nearest to `mantissa * 10 ^ exponent`. -/
def ofDecimal? (mantissa : Nat) (exponent : Int) : Option Binary :=
  let size := exponent + (digits mantissa).length
  if mantissa = 0 ∨ size < -400 then some ⟨0, 0⟩
  else if 400 < size then none
  else if 0 ≤ exponent then nearest? (mantissa * Nat.pow 10 exponent.toNat) 1
  else nearest? mantissa (Nat.pow 10 (-exponent).toNat)

end Binary

/-- A binary number with a sign, `none` for what is undefined or infinite. -/
def Real.toBinary? : Real → Option (Bool × Binary)
  | .undefined | .infinite _ => none
  | .finite negative mantissa exponent =>
    (Binary.ofDecimal? mantissa exponent).map fun b => (negative, b)

/-- Digits with an optional point and exponent; at least one digit stands beside the point. -/
def unsignedReal? (negative : Bool) (s : List Char) : Option Real := do
  let whole := s.takeWhile isDigit
  let s := s.drop whole.length
  let (fraction, s) := match s with
    | '.' :: r => (r.takeWhile isDigit, r.dropWhile isDigit)
    | r => ([], r)
  if whole.isEmpty ∧ fraction.isEmpty then none
  else
    let exponent ← match s with
      | [] => some 0
      | c :: r => if c = 'e' ∨ c = 'E' then signed? r else none
    some (.finite negative (digitsValue 0 (whole ++ fraction)) (exponent - fraction.length))

/-- A number with an optional sign, or one of the names `inf`, `infinity` and `nan` in any case. -/
def real? (s : List Char) : Option Real :=
  let (negative, s) := match s with
    | '-' :: r => (true, r)
    | '+' :: r => (false, r)
    | r => (false, r)
  let name := String.ofList (s.map Char.toLower)
  if name = "inf" ∨ name = "infinity" then some (.infinite negative)
  else if name = "nan" then some .undefined
  else unsignedReal? negative s

end FirmwareJobs.Text

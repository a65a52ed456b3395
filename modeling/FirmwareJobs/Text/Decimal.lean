/-! # Decimal numerals

Numbers are written without leading zeros unless a width is asked for, and read in the signed
form that settings, queries and arguments share: an optional sign, then one or more digits.
-/

namespace FirmwareJobs.Text

def isDigit (c : Char) : Bool := '0' ≤ c && c ≤ '9'

/-- The low four bits of a digit's code are its value. -/
def digitValue (c : Char) : Nat := c.toNat % 16

def digitChar (n : Nat) : Char := Char.ofNat (48 + n)

/-- The digits of `n`, most significant first; zero has one digit. -/
def digits (n : Nat) : List Char :=
  if n < 10 then [digitChar n] else digits (n / 10) ++ [digitChar (n % 10)]

/-- At least `width` digits, filled with zeros on the left. -/
def paddedDigits (width n : Nat) : List Char :=
  let ds := digits n
  List.replicate (width - ds.length) '0' ++ ds

def integerDigits (n : Int) : List Char :=
  if n < 0 then '-' :: digits n.natAbs else digits n.natAbs

/-- The number that a row of digits denotes, continuing from `acc`. -/
def digitsValue (acc : Nat) : List Char → Nat
  | [] => acc
  | c :: r => digitsValue (acc * 10 + digitValue c) r

/-- A non-empty row of digits. -/
def natural? (s : List Char) : Option Nat :=
  if !s.isEmpty && s.all isDigit then some (digitsValue 0 s) else none

/-- Digits with an optional plus sign. -/
def unsigned? : List Char → Option Nat
  | '+' :: r => natural? r
  | s => natural? s

/-- Digits with an optional sign. -/
def signed? : List Char → Option Int
  | '-' :: r => (natural? r).map fun n => -(n : Int)
  | s => (unsigned? s).map Int.ofNat

/-- An unsigned number below `2 ^ bits`. -/
def unsignedBelow? (bits : Nat) (s : List Char) : Option Nat :=
  (unsigned? s).filter (· < Nat.pow 2 bits)

/-- A signed number of `bits` bits in two's complement. -/
def signedWithin? (bits : Nat) (s : List Char) : Option Int :=
  let bound : Int := Nat.pow 2 (bits - 1)
  (signed? s).filter fun n => -bound ≤ n && n < bound

def hexDigit (n : Nat) : Char :=
  if n < 10 then digitChar n else Char.ofNat (87 + n)

/-- Lower-case hexadecimal digits of `n`. -/
def hexDigits (n : Nat) : List Char :=
  if n < 16 then [hexDigit n] else hexDigits (n / 16) ++ [hexDigit (n % 16)]

def hexValue? (c : Char) : Option Nat :=
  if isDigit c then some (digitValue c)
  else if 'a' ≤ c && c ≤ 'f' then some (c.toNat % 16 + 9)
  else if 'A' ≤ c && c ≤ 'F' then some (c.toNat % 16 + 9)
  else none

theorem digitsValue_append (n : Nat) (s t : List Char) :
    digitsValue n (s ++ t) = digitsValue (digitsValue n s) t := by
  induction s generalizing n with
  | nil => rfl
  | cons c r ih => exact ih _

private theorem digit_laws : ∀ n, n < 10 → isDigit (digitChar n) = true ∧
    digitValue (digitChar n) = n := by decide

theorem isDigit_digitChar {n : Nat} (h : n < 10) : isDigit (digitChar n) = true :=
  (digit_laws n h).1

theorem digitValue_digitChar {n : Nat} (h : n < 10) : digitValue (digitChar n) = n :=
  (digit_laws n h).2

theorem all_isDigit_digits (n : Nat) : (digits n).all isDigit = true := by
  fun_induction digits n with
  | case1 n h => simp [isDigit_digitChar h]
  | case2 n h ih => simp [ih, isDigit_digitChar (Nat.mod_lt n (by decide : 0 < 10))]

theorem digits_ne_nil (n : Nat) : digits n ≠ [] := by
  fun_induction digits n <;> simp

/-- Reading the digits of a number gives the number back. -/
theorem digitsValue_digits (n : Nat) : digitsValue 0 (digits n) = n := by
  fun_induction digits n with
  | case1 n h => simp [digitsValue, digitValue_digitChar h]
  | case2 n h ih =>
    rw [digitsValue_append, ih, digitsValue, digitsValue,
      digitValue_digitChar (Nat.mod_lt n (by decide : 0 < 10))]
    omega

theorem natural?_digits (n : Nat) : natural? (digits n) = some n := by
  simp only [natural?, all_isDigit_digits, digitsValue_digits, Bool.and_true]
  simp [digits_ne_nil]

end FirmwareJobs.Text

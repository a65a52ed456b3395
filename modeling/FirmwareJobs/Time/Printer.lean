import FirmwareJobs.Text.Decimal
import FirmwareJobs.Time.Instant

/-! # Writing instants

The form is that of RFC 3339 in UTC with a final `Z`. A year outside 0 to 9999 carries a sign.
The fraction has 0, 3, 6 or 9 digits, the fewest that lose nothing, and a leap second is
written as second 60.
-/

namespace FirmwareJobs.Time

open Text

def yearDigits (year : Int) : List Char :=
  if 0 ≤ year ∧ year ≤ 9999 then paddedDigits 4 year.toNat
  else (if year < 0 then '-' else '+') :: paddedDigits 4 year.natAbs

/-- The fraction of a second with its point, nothing for a whole second. -/
def fractionDigits (nano : Nat) : List Char :=
  if nano = 0 then []
  else if nano % 1000000 = 0 then '.' :: paddedDigits 3 (nano / 1000000)
  else if nano % 1000 = 0 then '.' :: paddedDigits 6 (nano / 1000)
  else '.' :: paddedDigits 9 nano

def Date.toChars (d : Date) : List Char :=
  yearDigits d.year ++ '-' :: paddedDigits 2 d.month ++ '-' :: paddedDigits 2 d.day

namespace Instant

/-- The second shown in the minute, 60 for a leap second. -/
def shownSecond (t : Instant) : Nat := t.second % 60 + t.nano / nanosPerSecond

def toChars (t : Instant) : List Char :=
  t.date.toChars ++ 'T' :: paddedDigits 2 (t.second / 3600) ++
    ':' :: paddedDigits 2 (t.second / 60 % 60) ++ ':' :: paddedDigits 2 t.shownSecond ++
    fractionDigits (t.nano % nanosPerSecond) ++ ['Z']

def toText (t : Instant) : String := String.ofList t.toChars

end Instant

end FirmwareJobs.Time

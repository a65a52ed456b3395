import FirmwareJobs.Text.Blank
import FirmwareJobs.Text.Decimal
import FirmwareJobs.Time.Instant

/-! # Reading instants

The reader takes RFC 3339 and its relatives: numbers may be shorter than their field and have
blanks before them, a signed year may be of any length, the date and the time are divided by `T`,
`t` or one blank, the fraction may have any number of digits of which nine count, and the zone
is `Z`, `UTC` in any case, or a signed offset of hours and minutes whose colon may be missing,
repeated or replaced by blanks. The minus of an offset may be the minus sign U+2212.
-/

namespace FirmwareJobs.Time

open Text

/-- A non-empty row of at most `limit` digits, any number of them without a limit. -/
def takeNumber (limit : Option Nat) (s : List Char) : Option (Nat × List Char) :=
  let ds := (match limit with
    | some n => s.take n
    | none => s).takeWhile isDigit
  if ds.isEmpty then none else some (digitsValue 0 ds, s.drop ds.length)

/-- One expected character. -/
def takeChar (expected : Char) : List Char → Option (List Char)
  | [] => none
  | c :: r => if c = expected then some r else none

/-- A number of one or two digits after optional blanks. -/
def takeField (s : List Char) : Option (Nat × List Char) := takeNumber (some 2) (trimStart s)

/-- A divider with optional blanks before it, then a field. -/
def takeNext (divider : Char) (s : List Char) : Option (Nat × List Char) := do
  takeField (← takeChar divider (trimStart s))

def takeYear (s : List Char) : Option (Int × List Char) :=
  match trimStart s with
  | '-' :: r => (takeNumber none r).map fun (n, rest) => (-(n : Int), rest)
  | '+' :: r => (takeNumber none r).map fun (n, rest) => ((n : Int), rest)
  | r => (takeNumber (some 4) r).map fun (n, rest) => ((n : Int), rest)

def takeDate (s : List Char) : Option (Date × List Char) := do
  let (year, s) ← takeYear s
  let (month, s) ← takeNext '-' s
  let (day, s) ← takeNext '-' s
  some (⟨year, month, day⟩, s)

/-- The nanoseconds of an optional fraction. -/
def takeFraction : List Char → Option (Nat × List Char)
  | '.' :: r => do
    let (n, rest) ← takeNumber (some 9) r
    some (n * Nat.pow 10 (9 - (r.length - rest.length)), rest.dropWhile isDigit)
  | s => some (0, s)

/-- The second of the day and its nanoseconds. Second 60 is the leap second after second 59. -/
def takeTime (s : List Char) : Option ((Nat × Nat) × List Char) := do
  let (hour, s) ← takeField s
  let (minute, s) ← takeNext ':' s
  let (second, s) ← takeNext ':' s
  let (nano, s) ← takeFraction s
  if 24 ≤ hour ∨ 60 ≤ minute ∨ 61 ≤ second then none
  else if second = 60 then some ((hour * 3600 + minute * 60 + 59, nanosPerSecond + nano), s)
  else some ((hour * 3600 + minute * 60 + second, nano), s)

/-- Two digits of an offset. -/
def takePair : List Char → Option (Nat × List Char)
  | a :: b :: r =>
    if isDigit a && isDigit b then some (digitsValue 0 [a, b], r) else none
  | _ => none

/-- The seconds by which a signed offset runs ahead of UTC. -/
def takeSignedOffset : List Char → Option (Int × List Char)
  | c :: s => do
    let negative ← if c = '+' then some false
      else if c = '-' ∨ c = '\u2212' then some true
      else none
    let (hours, s) ← takePair s
    let (minutes, s) ← takePair (s.dropWhile fun c => c == ':' || isBlank c)
    if 60 ≤ minutes ∨ 24 ≤ hours then none
    else
      let seconds : Int := hours * 3600 + minutes * 60
      some (if negative then -seconds else seconds, s)
  | [] => none

def takeZone : List Char → Option (Int × List Char)
  | c :: s =>
    if lowerZone (c :: s) = ['u', 't', 'c'] then some (0, s.drop 2)
    else if c = 'Z' ∨ c = 'z' then some (0, s)
    else takeSignedOffset (c :: s)
  | [] => none
where
  lowerZone (s : List Char) : List Char := (s.take 3).map Char.toLower

/-- The instant that a whole text denotes. -/
def Instant.ofChars? (s : List Char) : Option Instant := do
  let (date, s) ← takeDate s
  let s ← match s with
    | c :: r => if c = 'T' ∨ c = 't' ∨ c = ' ' then some r else none
    | [] => none
  let ((second, nano), s) ← takeTime s
  let (offset, s) ← takeZone (trimStart s)
  if (trimStart s).isEmpty then Instant.ofLocal? date second nano offset else none

def Instant.ofText? (s : String) : Option Instant := Instant.ofChars? s.toList

end FirmwareJobs.Time

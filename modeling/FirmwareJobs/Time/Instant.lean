/-! # Dates and instants

An instant is a date of the proleptic Gregorian calendar, a second of that day and a nanosecond,
all in UTC. A leap second is the last second of its minute with a second thousand million added
to the nanosecond. The calendar covers the years from `firstYear` to `lastYear`.
-/

namespace FirmwareJobs.Time

def firstYear : Int := -262143
def lastYear : Int := 262142

def isLeapYear (year : Int) : Bool :=
  year % 4 == 0 && (year % 100 != 0 || year % 400 == 0)

def daysIn (year : Int) (month : Nat) : Nat :=
  if month == 2 then if isLeapYear year then 29 else 28
  else if month == 4 || month == 6 || month == 9 || month == 11 then 30
  else 31

structure Date where
  year : Int
  month : Nat
  day : Nat
  deriving Repr, DecidableEq

namespace Date

def Valid (d : Date) : Prop :=
  firstYear ≤ d.year ∧ d.year ≤ lastYear ∧ 1 ≤ d.month ∧ d.month ≤ 12 ∧
    1 ≤ d.day ∧ d.day ≤ daysIn d.year d.month

instance (d : Date) : Decidable d.Valid := by unfold Valid; infer_instance

def next (d : Date) : Date :=
  if d.day < daysIn d.year d.month then { d with day := d.day + 1 }
  else if d.month < 12 then ⟨d.year, d.month + 1, 1⟩
  else ⟨d.year + 1, 1, 1⟩

def previous (d : Date) : Date :=
  if 1 < d.day then { d with day := d.day - 1 }
  else if 1 < d.month then ⟨d.year, d.month - 1, daysIn d.year (d.month - 1)⟩
  else ⟨d.year - 1, 12, 31⟩

/-- The date `n` days later. -/
def later (d : Date) : Nat → Date
  | 0 => d
  | n + 1 => d.next.later n

end Date

def secondsPerDay : Nat := 86400

def nanosPerSecond : Nat := 1000000000

def ValidParts (date : Date) (second nano : Nat) : Prop :=
  date.Valid ∧ second < secondsPerDay ∧ nano < 2 * nanosPerSecond ∧
    (nanosPerSecond ≤ nano → second % 60 = 59)

instance (date : Date) (second nano : Nat) : Decidable (ValidParts date second nano) := by
  unfold ValidParts; infer_instance

structure Instant where
  date : Date
  second : Nat
  nano : Nat
  valid : ValidParts date second nano
  deriving DecidableEq

namespace Instant

def ofParts? (date : Date) (second nano : Nat) : Option Instant :=
  if h : ValidParts date second nano then some ⟨date, second, nano, h⟩ else none

/-- The instant whose clock, running `offset` seconds ahead of UTC, shows these parts. -/
def ofLocal? (date : Date) (second nano : Nat) (offset : Int) : Option Instant :=
  if !decide (ValidParts date second nano) then none
  else
    let utc := (second : Int) - offset
    if utc < 0 then ofParts? date.previous (utc + secondsPerDay).toNat nano
    else if utc < secondsPerDay then ofParts? date utc.toNat nano
    else ofParts? date.next (utc - secondsPerDay).toNat nano

/-- Instants in the order of time have increasing ranks. -/
def rank (t : Instant) : Int :=
  (((t.date.year * 13 + t.date.month) * 32 + t.date.day) * secondsPerDay + t.second) *
    (2 * nanosPerSecond) + t.nano

/-- `elapsed` nanoseconds after `t`, or `t` itself if the calendar ends before that. -/
def after (t : Instant) (elapsed : Nat) : Instant :=
  let total := t.second * nanosPerSecond + t.nano + elapsed
  let seconds := total / nanosPerSecond
  (ofParts? (t.date.later (seconds / secondsPerDay)) (seconds % secondsPerDay)
    (total % nanosPerSecond)).getD t

theorem ofParts?_eq (t : Instant) : ofParts? t.date t.second t.nano = some t := by
  simp [ofParts?, t.valid]

end Instant

end FirmwareJobs.Time

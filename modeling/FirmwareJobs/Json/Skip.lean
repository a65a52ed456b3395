import FirmwareJobs.Json.Number

/-! # Passing over a value

A value that nobody reads is checked for its form only. The open lists and objects are kept on a
stack, so that any depth is passed in one loop.
-/

namespace FirmwareJobs.Json

/-- What encloses the place where the reader stands. -/
inductive Enclosure where
  | list
  | object
  deriving Repr, DecidableEq

/-- What comes next: a value, the first item or the end of an opened enclosure, the rest of an
object member, or what may follow a complete value. -/
inductive Awaiting where
  | value
  | first
  | member
  | next
  deriving Repr, DecidableEq

/-- A scalar read from its first byte. -/
def skipScalar (b : UInt8) (r : Bytes) : Except Failure Bytes :=
  if b = letterN then afterNull r
  else if b = letterT then afterTrue r
  else if b = letterF then afterFalse r
  else if b = minus then skipNumber r
  else if isDigit b then skipNumber (b :: r)
  else if b = quote then skipString r
  else .error .malformed

def Enclosure.closing : Enclosure → UInt8
  | .list => closeList
  | .object => closeObject

/-- The state that begins an item of an enclosure. -/
def Enclosure.item : Enclosure → Awaiting
  | .list => .value
  | .object => .member

/-- Pass on from a given place until the stack of enclosures is empty. Each round takes at least
one byte, except the last. -/
def skipFrom : Nat → Awaiting → List Enclosure → Bytes → Except Failure Bytes
  | 0, _, _, _ => .error .truncated
  | _ + 1, .next, [], s => .ok s
  | _ + 1, .first, [], s => .ok s
  | fuel + 1, .next, top :: stack, s =>
    match skipBlank s with
    | [] => .error .truncated
    | b :: r =>
      if b = comma then skipFrom fuel top.item (top :: stack) r
      else if b = top.closing then skipFrom fuel .next stack r
      else .error .malformed
  | fuel + 1, .first, top :: stack, s =>
    match skipBlank s with
    | [] => .error .truncated
    | b :: r =>
      if b = top.closing then skipFrom fuel .next stack r
      else skipFrom fuel top.item (top :: stack) (b :: r)
  | fuel + 1, .member, stack, s =>
    match skipBlank s with
    | [] => .error .truncated
    | b :: r =>
      if b ≠ quote then .error .malformed
      else do
        let r ← skipString r
        let r ← expect colon (skipBlank r)
        skipFrom fuel .value stack r
  | fuel + 1, .value, stack, s =>
    match skipBlank s with
    | [] => .error .truncated
    | b :: r =>
      if b = openList then skipFrom fuel .first (.list :: stack) r
      else if b = openObject then skipFrom fuel .first (.object :: stack) r
      else do
        let r ← skipScalar b r
        skipFrom fuel .next stack r

/-- What follows the next value, whatever it is. -/
def skipValue (s : Bytes) : Except Failure Bytes := skipFrom (2 * s.length + 2) .value [] s

end FirmwareJobs.Json

import FirmwareJobs.Json.Skip
import FirmwareJobs.Text.Decimal
import FirmwareJobs.Time.Printer
import FirmwareJobs.Time.Reader

/-! # Formats of values

A format reads a value from JSON and writes it. Reading is lenient where the format allows it and
stops at the first failure; writing has one form for each layout.
-/

namespace FirmwareJobs.Json

open Text

/-- Compact text, or members on lines of their own at a depth of indentation. -/
inductive Layout where
  | compact
  | indented (depth : Nat)
  deriving Repr, DecidableEq

namespace Layout

def deeper : Layout → Layout
  | .compact => .compact
  | .indented d => .indented (d + 1)

def lineBreak : Layout → List Char
  | .compact => []
  | .indented d => '\n' :: List.replicate (2 * d) ' '

def afterName : Layout → List Char
  | .compact => [':']
  | .indented _ => [':', ' ']

end Layout

structure Format (α : Type) where
  read : Reader α
  write : Layout → α → List Char

/-- Items divided by commas, each on a line of its own in an indented layout. -/
def writeItems (layout : Layout) : List (List Char) → List Char
  | [] => []
  | [x] => layout.lineBreak ++ x
  | x :: xs => layout.lineBreak ++ x ++ ',' :: writeItems layout xs

/-- Items between brackets. Without items the brackets stand side by side. -/
def writeBracketed (layout : Layout) (opening closing : Char) (items : List (List Char)) :
    List Char :=
  if items.isEmpty then [opening, closing]
  else opening :: writeItems layout.deeper items ++ layout.lineBreak ++ [closing]

/-- A character inside a string. -/
def writeChar (c : Char) : List Char :=
  if c = '\x22' ∨ c = '\\' then ['\\', c]
  else if c = '\x08' then ['\\', 'b']
  else if c = '\x0c' then ['\\', 'f']
  else if c = '\n' then ['\\', 'n']
  else if c = '\r' then ['\\', 'r']
  else if c = '\t' then ['\\', 't']
  else if c.toNat < 0x20 then
    ['\\', 'u', '0', '0', hexDigit (c.toNat / 16), hexDigit (c.toNat % 16)]
  else [c]

def writeString (s : List Char) : List Char :=
  '\x22' :: s.flatMap writeChar ++ ['\x22']

/-- The failure at a value of another type. The value itself must be well formed as far as it
can be read as one token. -/
def unexpected : Bytes → Failure
  | [] => .truncated
  | b :: r =>
    let token : Except Failure Unit :=
      if b = letterN then (afterNull r).map fun _ => ()
      else if b = letterT then (afterTrue r).map fun _ => ()
      else if b = letterF then (afterFalse r).map fun _ => ()
      else if b = minus then (unsignedNumber true r).map fun _ => ()
      else if isDigit b then (unsignedNumber false (b :: r)).map fun _ => ()
      else if b = quote then (stringRest r).map fun _ => ()
      else if b = openList ∨ b = openObject then .ok ()
      else .error .malformed
    match token with
    | .ok () => .mismatched
    | .error e => e

def readString : Reader String := fun s =>
  match skipBlank s with
  | b :: r => if b = quote then stringRest r else .error (unexpected (b :: r))
  | [] => .error .truncated

def readFlag : Reader Bool := fun s =>
  match skipBlank s with
  | b :: r =>
    if b = letterT then (afterTrue r).map fun rest => (true, rest)
    else if b = letterF then (afterFalse r).map fun rest => (false, rest)
    else .error (unexpected (b :: r))
  | [] => .error .truncated

/-- An integer from `low` to `high`. Fractions are of the wrong type even when they are whole. -/
def readWhole (low high : Int) : Reader Int := fun s =>
  let checked (n : Int) (rest : Bytes) : Except Failure (Int × Bytes) :=
    if low ≤ n ∧ n ≤ high then .ok (n, rest) else .error .mismatched
  let number (token : Except Failure (Number × Bytes)) : Except Failure (Int × Bytes) := do
    match ← token with
    | (.natural n, rest) => checked n rest
    | (.negative n, rest) => checked (-n) rest
    | (.fraction, _) => .error .mismatched
  match skipBlank s with
  | b :: r =>
    if b = minus then number (unsignedNumber true r)
    else if isDigit b then number (unsignedNumber false (b :: r))
    else .error (unexpected (b :: r))
  | [] => .error .truncated

def readMoment : Reader Time.Instant := fun s => do
  let (text, rest) ← readString s
  match Time.Instant.ofText? text with
  | some t => .ok (t, rest)
  | none => .error .mismatched

def readOptional {α : Type} (read : Reader α) : Reader (Option α) := fun s =>
  match skipBlank s with
  | b :: r =>
    if b = letterN then (afterNull r).map fun rest => (none, rest)
    else (read (b :: r)).map fun (a, rest) => (some a, rest)
  | [] => .error .truncated

/-- One of a few names, as a string or as the only member of an object with the value null. -/
def readChoice {α : Type} (choose : String → Option α) : Reader α := fun s =>
  let named (s : Bytes) : Except Failure (α × Bytes) := do
    let (name, rest) ← readString s
    match choose name with
    | some a => .ok (a, rest)
    | none => .error .mismatched
  match skipBlank s with
  | b :: r =>
    if b = quote then named (b :: r)
    else if b = openObject then do
      let (a, r) ← named r
      let r ← expect colon (skipBlank r)
      let r ← match skipBlank r with
        | c :: t => if c = letterN then afterNull t else .error (unexpected (c :: t))
        | [] => .error .truncated
      let r ← expect closeObject (skipBlank r)
      .ok (a, r)
    else .error .malformed
  | [] => .error .truncated

/-- The items of a list after the first, up to the closing bracket. -/
def readItems {α : Type} (read : Reader α) : Nat → Reader (List α)
  | 0, _ => .error .truncated
  | fuel + 1, s =>
    match skipBlank s with
    | [] => .error .truncated
    | b :: r =>
      if b = closeList then .ok ([], r)
      else if b = comma then
        match skipBlank r with
        | [] => .error .truncated
        | c :: t =>
          if c = closeList then .error .malformed
          else do
            let (a, rest) ← read (c :: t)
            let (as, rest) ← readItems read fuel rest
            .ok (a :: as, rest)
      else .error .malformed

def readList {α : Type} (read : Reader α) : Reader (List α) := fun s =>
  match skipBlank s with
  | b :: r =>
    if b = openList then
      match skipBlank r with
      | [] => .error .truncated
      | c :: t =>
        if c = closeList then .ok ([], t)
        else do
          let (a, rest) ← read (c :: t)
          let (as, rest) ← readItems read (rest.length + 1) rest
          .ok (a :: as, rest)
    else .error (unexpected (b :: r))
  | [] => .error .truncated

namespace Format

def text : Format String where
  read := readString
  write _ s := writeString s.toList

def flag : Format Bool where
  read := readFlag
  write _ b := if b then "true".toList else "false".toList

def whole (low high : Int) : Format Int where
  read := readWhole low high
  write _ n := integerDigits n

/-- A natural number below `2 ^ bits`. -/
def natural (bits : Nat) : Format Nat where
  read s := (readWhole 0 (Nat.pow 2 bits - 1) s).map fun (n, rest) => (n.toNat, rest)
  write _ n := digits n

def moment : Format Time.Instant where
  read := readMoment
  write _ t := writeString t.toChars

def optional {α : Type} (f : Format α) : Format (Option α) where
  read := readOptional f.read
  write layout
    | some a => f.write layout a
    | none => "null".toList

def choice {α : Type} (choose : String → Option α) (name : α → String) : Format α where
  read := readChoice choose
  write _ a := writeString (name a).toList

def list {α : Type} (f : Format α) : Format (List α) where
  read := readList f.read
  write layout as := writeBracketed layout '[' ']' (as.map (f.write layout.deeper))

/-- The format of another view of the same values. -/
def view {α β : Type} (f : Format α) (forth : α → β) (back : β → α) : Format β where
  read s := (f.read s).map fun (a, rest) => (forth a, rest)
  write layout b := f.write layout (back b)

/-- The value of a whole text; only blanks may follow it. -/
def decode {α : Type} (f : Format α) (s : Bytes) : Except Failure α := do
  let (a, rest) ← f.read s
  if (skipBlank rest).isEmpty then .ok a else .error .malformed

def encode {α : Type} (f : Format α) (a : α) : String := String.ofList (f.write .compact a)

def encodeIndented {α : Type} (f : Format α) (a : α) : String :=
  String.ofList (f.write (.indented 0) a)

end Format

end FirmwareJobs.Json

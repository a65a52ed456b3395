import FirmwareJobs.Text.ByteText
import FirmwareJobs.Text.Blank
import FirmwareJobs.Text.Decimal

/-! # Shell arithmetic

Expressions over 64-bit integers with the usual operators, read by their precedence.
-/

namespace FirmwareJobs.Shell.Arithmetic

open Text

inductive Token where
  | number (n : Int64)
  | name (s : ByteText)
  | sign (s : ByteText)
  deriving Repr, DecidableEq

inductive Expression where
  | number (n : Int64)
  | name (s : ByteText)
  | assign (name : ByteText) (operator : ByteText) (value : Expression)
  | unary (operator : ByteText) (e : Expression)
  | binary (operator : ByteText) (a b : Expression)
  | choose (condition a b : Expression)
  deriving Repr

/-- Signs of three, two and one characters; the longest one at the front counts. -/
def signs : List ByteText :=
  ["<<=", ">>=", "<<", ">>", "<=", ">=", "==", "!=", "&&", "||", "+=", "-=", "*=", "/=", "%=",
    "&=", "|=", "^=", "+", "-", "*", "/", "%", "<", ">", "&", "|", "^", "!", "~", "?", ":", "=",
    "(", ")", ","].map String.toList

def baseValue (base : Nat) (s : ByteText) : Option Int64 :=
  s.foldlM (fun n c => do
    let d ← hexValue? c
    if d < base then some (n * Int64.ofNat base + Int64.ofNat d) else none) 0

def number? (s : ByteText) : Option Int64 :=
  match s with
  | '0' :: 'x' :: r | '0' :: 'X' :: r => if r.isEmpty then none else baseValue 16 r
  | '0' :: r => baseValue 8 r
  | _ => baseValue 10 s

def tokensWith : Nat → ByteText → Option (List Token)
  | 0, _ => none
  | fuel + 1, s =>
    match s with
    | [] => some []
    | c :: r =>
      if c = ' ' ∨ c = '\t' ∨ c = '\n' then tokensWith fuel r
      else if c.isDigit then do
        let (word, rest) := s.span Char.isAlphanum
        (← tokensWith fuel rest).cons (.number (← number? word))
      else if c.isAlpha ∨ c = '_' then do
        let (word, rest) := s.span fun c => c.isAlphanum || c == '_'
        (← tokensWith fuel rest).cons (.name word)
      else do
        let sign ← signs.find? (·.isPrefixOf s)
        (← tokensWith fuel (s.drop sign.length)).cons (.sign sign)

/-- How strongly a binary operator binds. -/
def strength? (sign : ByteText) : Option Nat :=
  match String.ofList sign with
  | "*" | "/" | "%" => some 10
  | "+" | "-" => some 9
  | "<<" | ">>" => some 8
  | "<" | ">" | "<=" | ">=" => some 7
  | "==" | "!=" => some 6
  | "&" => some 5
  | "^" => some 4
  | "|" => some 3
  | "&&" => some 2
  | "||" => some 1
  | _ => none

def isAssignment (sign : ByteText) : Bool :=
  ["=", "+=", "-=", "*=", "/=", "%=", "&=", "|=", "^=", "<<=", ">>="].contains
    (String.ofList sign)

mutual

def assignment : Nat → List Token → Option (Expression × List Token)
  | 0, _ => none
  | fuel + 1, tokens =>
    let plain := conditional fuel tokens
    match tokens with
    | .name n :: .sign s :: rest =>
      if isAssignment s then do
        let (e, rest) ← assignment fuel rest
        some (.assign n s.dropLast e, rest)
      else plain
    | _ => plain

def conditional : Nat → List Token → Option (Expression × List Token)
  | 0, _ => none
  | fuel + 1, tokens => do
    let (c, rest) ← operand fuel tokens
    let (c, rest) ← operations fuel 1 c rest
    match rest with
    | .sign ['?'] :: rest =>
      let (a, rest) ← assignment fuel rest
      match rest with
      | .sign [':'] :: rest =>
        let (b, rest) ← conditional fuel rest
        some (.choose c a b, rest)
      | _ => none
    | _ => some (c, rest)

/-- The operations that follow an operand and bind at least so strongly. -/
def operations : Nat → Nat → Expression → List Token → Option (Expression × List Token)
  | 0, _, _, _ => none
  | fuel + 1, least, a, tokens =>
    match tokens with
    | .sign s :: rest =>
      match strength? s with
      | none => some (a, tokens)
      | some n =>
        if n < least then some (a, tokens)
        else do
          let (b, rest) ← operand fuel rest
          let (b, rest) ← operations fuel (n + 1) b rest
          operations fuel least (.binary s a b) rest
    | _ => some (a, tokens)

def operand : Nat → List Token → Option (Expression × List Token)
  | 0, _ => none
  | fuel + 1, tokens =>
    match tokens with
    | .number n :: rest => some (.number n, rest)
    | .name s :: rest => some (.name s, rest)
    | .sign ['('] :: rest => do
      let (e, rest) ← assignment fuel rest
      match rest with
      | .sign [')'] :: rest => some (e, rest)
      | _ => none
    | .sign s :: rest =>
      if ["+", "-", "!", "~"].contains (String.ofList s) then do
        let (e, rest) ← operand fuel rest
        some (.unary s e, rest)
      else none
    | [] => none

end

/-- The expression that a text writes. -/
def read? (s : ByteText) : Option Expression := do
  let tokens ← tokensWith (s.length + 1) s
  if tokens.isEmpty then some (.number 0)
  else
    match ← assignment (8 * tokens.length + 8) tokens with
    | (e, []) => some e
    | _ => none

abbrev Values := List (ByteText × ByteText)

inductive Fault where
  | divisionByZero
  | badNumber (s : ByteText)
  deriving Repr, DecidableEq

def flag (b : Bool) : Int64 := if b then 1 else 0

def applyUnary (operator : ByteText) (a : Int64) : Int64 :=
  match String.ofList operator with
  | "-" => -a
  | "!" => flag (a == 0)
  | "~" => ~~~a
  | _ => a

def applyBinary (operator : ByteText) (a b : Int64) : Except Fault Int64 :=
  match String.ofList operator with
  | "*" => .ok (a * b)
  | "/" => if b = 0 then .error .divisionByZero else .ok (a / b)
  | "%" => if b = 0 then .error .divisionByZero else .ok (a % b)
  | "+" => .ok (a + b)
  | "-" => .ok (a - b)
  | "<<" => .ok (a <<< b)
  | ">>" => .ok (a >>> b)
  | "<" => .ok (flag (a < b))
  | ">" => .ok (flag (b < a))
  | "<=" => .ok (flag (a ≤ b))
  | ">=" => .ok (flag (b ≤ a))
  | "==" => .ok (flag (a == b))
  | "!=" => .ok (flag (a != b))
  | "&" => .ok (a &&& b)
  | "^" => .ok (a ^^^ b)
  | "|" => .ok (a ||| b)
  | _ => .ok b

def written (n : Int64) : ByteText := (toString n.toInt).toList

def isBlank (c : Char) : Bool := c == ' ' || c == '\t' || c == '\n'

/-- The number in a variable; an unset or empty one counts as zero. -/
def valueOf (values : Values) (name : ByteText) : Except Fault Int64 :=
  let text := stripWhile isBlank ((values.lookup name).getD [])
  let (negative, body) := match text with
    | '-' :: r => (true, r)
    | '+' :: r => (false, r)
    | r => (false, r)
  if text.isEmpty then .ok 0
  else
    match number? body with
    | some n => if body.isEmpty then .error (.badNumber text) else .ok (if negative then -n else n)
    | none => .error (.badNumber text)

/-- The value of an expression, and what it assigned, last first. -/
def evaluate (values : Values) : Expression → Except Fault (Int64 × Values)
  | .number n => .ok (n, values)
  | .name s => do .ok (← valueOf values s, values)
  | .assign name operator e => do
    let (b, values) ← evaluate values e
    let n ← if operator.isEmpty then .ok b else applyBinary operator (← valueOf values name) b
    .ok (n, (name, written n) :: values)
  | .unary operator e => do
    let (a, values) ← evaluate values e
    .ok (applyUnary operator a, values)
  | .binary operator a b => do
    let (x, values) ← evaluate values a
    if operator = ['&', '&'] ∧ x = 0 then .ok (0, values)
    else if operator = ['|', '|'] ∧ x ≠ 0 then .ok (1, values)
    else do
      let (y, values) ← evaluate values b
      if operator = ['&', '&'] ∨ operator = ['|', '|'] then .ok (flag (y != 0), values)
      else do .ok (← applyBinary operator x y, values)
  | .choose c a b => do
    let (x, values) ← evaluate values c
    if x ≠ 0 then evaluate values a else evaluate values b

end FirmwareJobs.Shell.Arithmetic

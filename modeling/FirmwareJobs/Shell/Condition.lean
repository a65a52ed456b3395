import FirmwareJobs.Text.ByteText
import FirmwareJobs.Text.Decimal

/-! # Conditions of `test` -/

namespace FirmwareJobs.Shell

open Text

inductive Condition where
  | never
  | nonEmpty (s : ByteText)
  | unary (operator : Char) (s : ByteText)
  | compare (operator : ByteText) (a b : ByteText)
  | not (c : Condition)
  | both (a b : Condition)
  | either (a b : Condition)
  deriving Repr

namespace Condition

/-- The letter of an operator that takes one operand. -/
def unary? (s : ByteText) : Option Char :=
  match s with
  | ['-', c] => if "bcdefghknprstuwxzLOGS".toList.contains c then some c else none
  | _ => none

def isComparison (s : ByteText) : Bool :=
  ["=", "!=", "<", ">", "-eq", "-ne", "-lt", "-le", "-gt", "-ge", "-nt", "-ot", "-ef"].contains
    (String.ofList s)

mutual

def disjunction : Nat → List ByteText → Option (Condition × List ByteText)
  | 0, _ => none
  | fuel + 1, s => do
    let (a, rest) ← conjunction fuel s
    match rest with
    | ['-', 'o'] :: rest => do
      let (b, rest) ← disjunction fuel rest
      some (.either a b, rest)
    | _ => some (a, rest)

def conjunction : Nat → List ByteText → Option (Condition × List ByteText)
  | 0, _ => none
  | fuel + 1, s => do
    let (a, rest) ← primary fuel s
    match rest with
    | ['-', 'a'] :: rest => do
      let (b, rest) ← conjunction fuel rest
      some (.both a b, rest)
    | _ => some (a, rest)

def primary : Nat → List ByteText → Option (Condition × List ByteText)
  | 0, _ => none
  | fuel + 1, s =>
    match s with
    | [] => none
    | a :: rest =>
      let comparison := match rest with
        | operator :: b :: more =>
          if isComparison operator then some (Condition.compare operator a b, more) else none
        | _ => none
      match comparison with
      | some found => some found
      | none =>
        if a = ['!'] ∧ !rest.isEmpty then do
          let (c, rest) ← primary fuel rest
          some (.not c, rest)
        else if a = ['('] ∧ !rest.isEmpty then do
          let (c, rest) ← disjunction fuel rest
          match rest with
          | [')'] :: rest => some (c, rest)
          | _ => none
        else
          match unary? a, rest with
          | some operator, b :: more => some (.unary operator b, more)
          | _, _ => some (.nonEmpty a, rest)

end

/-- The condition that arguments write, or the argument that does not fit. -/
def read (arguments : List ByteText) : Except ByteText Condition :=
  match arguments with
  | [] => .ok .never
  | [a] => .ok (.nonEmpty a)
  | _ =>
    match disjunction (4 * arguments.length + 4) arguments with
    | some (c, []) => .ok c
    | some (_, rest) =>
      let last := arguments[arguments.length - rest.length - 1]?
      .error (last.getD [] ++ ": unexpected operator".toList)
    | none => .error (arguments.getLast?.getD [] ++ ": argument expected".toList)

/-- What a condition may ask about its surroundings. -/
structure Facts where
  isFile : ByteText → Bool
  isDirectory : ByteText → Bool
  isThere : ByteText → Bool
  hasContent : ByteText → Bool
  isRunnable : ByteText → Bool
  isTerminal : Nat → Bool

def integer? (s : ByteText) : Except ByteText Int :=
  let trimmed := ((s.dropWhile (· == ' ')).reverse.dropWhile (· == ' ')).reverse
  match signed? trimmed with
  | some n => .ok n
  | none => .error ("Illegal number: ".toList ++ s)

def holdsUnary (facts : Facts) (operator : Char) (s : ByteText) : Except ByteText Bool :=
  match operator with
  | 'n' => .ok (!s.isEmpty)
  | 'z' => .ok s.isEmpty
  | 'f' => .ok (facts.isFile s)
  | 'd' => .ok (facts.isDirectory s)
  | 'e' | 'r' | 'w' | 'O' | 'G' => .ok (facts.isThere s)
  | 's' => .ok (facts.hasContent s)
  | 'x' => .ok (facts.isRunnable s)
  | 't' => do .ok (facts.isTerminal (← integer? s).toNat)
  | _ => .ok false

def holdsComparison (operator a b : ByteText) : Except ByteText Bool :=
  let numbers (f : Int → Int → Bool) : Except ByteText Bool := do
    .ok (f (← integer? a) (← integer? b))
  match String.ofList operator with
  | "=" => .ok (a == b)
  | "!=" => .ok (a != b)
  | "<" => .ok (decide (a < b))
  | ">" => .ok (decide (b < a))
  | "-eq" => numbers (· == ·)
  | "-ne" => numbers (· != ·)
  | "-lt" => numbers fun x y => x < y
  | "-le" => numbers fun x y => x ≤ y
  | "-gt" => numbers fun x y => y < x
  | "-ge" => numbers fun x y => y ≤ x
  | _ => .ok false

/-- Whether a condition holds, or what is wrong with it. -/
def holds (facts : Facts) : Condition → Except ByteText Bool
  | .never => .ok false
  | .nonEmpty s => .ok (!s.isEmpty)
  | .unary operator s => holdsUnary facts operator s
  | .compare operator a b => holdsComparison operator a b
  | .not c => do .ok (!(← holds facts c))
  | .both a b => do if ← holds facts a then holds facts b else .ok false
  | .either a b => do if ← holds facts a then .ok true else holds facts b

end Condition

end FirmwareJobs.Shell

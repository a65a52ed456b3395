import FirmwareJobs.Text.ByteText

/-! # Shell patterns

In a pattern `*` stands for any text, `?` for one character and brackets for one character of a
set. A quoted character stands for itself.
-/

namespace FirmwareJobs.Shell

open Text

/-- A character of an expanded word. -/
structure Glyph where
  char : Char
  quoted : Bool
  deriving Repr, DecidableEq

namespace Pattern

/-- A member of a bracket expression: a range or a named class. -/
inductive Member where
  | range (low high : Char)
  | named (name : ByteText)
  deriving Repr, DecidableEq

inductive Piece where
  | char (c : Char)
  | anyChar
  | anyText
  | set (negated : Bool) (members : List Member)
  deriving Repr, DecidableEq

def inClass (name : ByteText) (c : Char) : Bool :=
  match String.ofList name with
  | "alpha" => c.isAlpha
  | "digit" => c.isDigit
  | "alnum" => c.isAlphanum
  | "upper" => c.isUpper
  | "lower" => c.isLower
  | "space" => c == ' ' || ('\t' ≤ c && c ≤ '\r')
  | "blank" => c == ' ' || c == '\t'
  | "punct" => '!' ≤ c && c ≤ '~' && !c.isAlphanum
  | "print" => ' ' ≤ c && c ≤ '~'
  | "graph" => '!' ≤ c && c ≤ '~'
  | "cntrl" => c < ' ' || c == '\x7f'
  | "xdigit" => c.isDigit || ('a' ≤ c && c ≤ 'f') || ('A' ≤ c && c ≤ 'F')
  | _ => false

def Member.holds (m : Member) (c : Char) : Bool :=
  match m with
  | .range low high => low ≤ c && c ≤ high
  | .named name => inClass name c

/-- The members of a bracket expression up to its closing bracket. A closing bracket that comes
first is a member. -/
def members : Nat → Bool → List Glyph → Option (List Member × List Glyph)
  | 0, _, _ => none
  | fuel + 1, first, s =>
    let put (m : Member) (rest : List Glyph) : Option (List Member × List Glyph) :=
      (members fuel false rest).map fun (ms, rest) => (m :: ms, rest)
    match s with
    | [] => none
    | g :: r =>
      if g.char = ']' ∧ !g.quoted ∧ !first then some ([], r)
      else
        match r with
        | colon :: more =>
          if g.char = '[' ∧ colon.char = ':' then
            let name := (more.map (·.char)).takeWhile Char.isAlpha
            match more.drop name.length with
            | a :: b :: rest =>
              if a.char = ':' ∧ b.char = ']' then put (.named name) rest
              else put (.range '[' '[') r
            | _ => put (.range '[' '[') r
          else if colon.char = '-' ∧ !colon.quoted then
            match more with
            | high :: rest =>
              if high.char = ']' ∧ !high.quoted then put (.range g.char g.char) r
              else put (.range g.char high.char) rest
            | [] => none
          else put (.range g.char g.char) r
        | [] => none

/-- The pieces of a pattern. A bracket that is never closed stands for itself. -/
def piecesWith : Nat → List Glyph → List Piece
  | 0, _ => []
  | _ + 1, [] => []
  | fuel + 1, g :: r =>
    if g.quoted then .char g.char :: piecesWith fuel r
    else if g.char = '*' then .anyText :: piecesWith fuel r
    else if g.char = '?' then .anyChar :: piecesWith fuel r
    else if g.char = '[' then
      let (negated, body) := match r with
        | n :: body =>
          if (n.char = '!' ∨ n.char = '^') ∧ !n.quoted then (true, body) else (false, r)
        | [] => (false, r)
      match members (body.length + 1) true body with
      | some (ms, rest) => .set negated ms :: piecesWith fuel rest
      | none => .char '[' :: piecesWith fuel r
    else .char g.char :: piecesWith fuel r

def pieces (s : List Glyph) : List Piece := piecesWith (s.length + 1) s

/-- Whether one character fits one piece. -/
def Piece.fits (p : Piece) (c : Char) : Bool :=
  match p with
  | .char d => c == d
  | .anyChar | .anyText => true
  | .set negated ms => ms.any (·.holds c) != negated

def matchesAll : List Piece → ByteText → Bool
  | [], s => s.isEmpty
  | p :: ps, s =>
    match s with
    | [] => p == .anyText && matchesAll ps []
    | c :: r =>
      if p = .anyText then matchesAll ps (c :: r) || matchesAll (p :: ps) r
      else p.fits c && matchesAll ps r
termination_by ps s => ps.length + s.length

/-- Whether a pattern fits a whole text. -/
def isMatch (pattern : List Glyph) (s : ByteText) : Bool := matchesAll (pieces pattern) s

/-- Whether some character has a special meaning. -/
def isPattern (s : List Glyph) : Bool :=
  s.any fun g => !g.quoted && (g.char == '*' || g.char == '?' || g.char == '[')

/-- The text without the shortest or longest part at its start that fits the pattern. -/
def dropStart (longest : Bool) (pattern : List Glyph) (s : ByteText) : ByteText :=
  let lengths := List.range (s.length + 1)
  let lengths := if longest then lengths.reverse else lengths
  match lengths.find? fun n => isMatch pattern (s.take n) with
  | some n => s.drop n
  | none => s

/-- The text without the shortest or longest part at its end that fits the pattern. -/
def dropEnd (longest : Bool) (pattern : List Glyph) (s : ByteText) : ByteText :=
  let lengths := List.range (s.length + 1)
  let lengths := if longest then lengths else lengths.reverse
  match lengths.find? fun n => isMatch pattern (s.drop n) with
  | some n => s.take n
  | none => s

end Pattern

end FirmwareJobs.Shell

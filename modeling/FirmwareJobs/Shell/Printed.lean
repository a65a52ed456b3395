import FirmwareJobs.Shell.Arithmetic

/-! # Printing from the shell

The texts that `echo` and `printf` write, with their escapes and conversions.
-/

namespace FirmwareJobs.Shell.Printed

open Text

def isOctal (c : Char) : Bool := '0' ≤ c && c ≤ '7'

def octalValue (s : ByteText) : Nat := s.foldl (fun n c => n * 8 + digitValue c) 0

def byte (n : Nat) : Char := Char.ofNat (n % 256)

/-- The character of a one-letter escape. -/
def escapeChar? (c : Char) : Option Char :=
  match c with
  | '\\' => some '\\'
  | 'a' => some '\x07'
  | 'b' => some '\x08'
  | 'f' => some '\x0c'
  | 'n' => some '\n'
  | 'r' => some '\r'
  | 't' => some '\t'
  | 'v' => some '\x0b'
  | _ => none

def hexDigitsOf (s : ByteText) : ByteText := (s.take 2).takeWhile fun c => (hexValue? c).isSome

/-- What an escape stands for, and what follows it. An unknown one stands for its backslash. The
programs, unlike the builtins, know hexadecimal escapes and `\e`. -/
def takeEscape (rich : Bool) (s : ByteText) : Char × ByteText :=
  match s with
  | [] => ('\\', [])
  | c :: r =>
    match escapeChar? c with
    | some d => (d, r)
    | none =>
      let octal := (s.take 3).takeWhile isOctal
      let hex := hexDigitsOf r
      if !octal.isEmpty then (byte (octalValue octal), s.drop octal.length)
      else if rich ∧ c = 'e' then ('\x1b', r)
      else if rich ∧ c = 'x' ∧ !hex.isEmpty then
        (byte (hex.foldl (fun n d => n * 16 + (hexValue? d).getD 0) 0), r.drop hex.length)
      else ('\\', s)

/-- A text with its escapes resolved, and whether `\c` cut it short. -/
def unescapeWith (rich : Bool) : Nat → ByteText → ByteText × Bool
  | 0, s => (s, false)
  | _ + 1, [] => ([], false)
  | fuel + 1, '\\' :: r =>
    match r with
    | 'c' :: _ => ([], true)
    | _ =>
      let r := match r with
        | '0' :: d :: more => if isOctal d then d :: more else r
        | _ => r
      let (c, rest) := takeEscape rich r
      let (more, cut) := unescapeWith rich fuel rest
      (c :: more, cut)
  | fuel + 1, c :: r =>
    let (more, cut) := unescapeWith rich fuel r
    (c :: more, cut)

def unescape (rich : Bool) (s : ByteText) : ByteText × Bool :=
  unescapeWith rich (s.length + 1) s

def words (ws : List ByteText) : ByteText := [' '].intercalate ws

/-- What the builtin `echo` writes. -/
def echoed (arguments : List ByteText) : ByteText :=
  let (silent, rest) := match arguments with
    | first :: rest => if first = ['-', 'n'] then (true, rest) else (false, arguments)
    | [] => (false, [])
  let (s, cut) := unescape false (words rest)
  if silent ∨ cut then s else s ++ ['\n']

/-- The options of the program `echo`: whether the line break is left out, whether escapes count,
and the words. -/
def echoOptions (silent escapes : Bool) : List ByteText → Bool × Bool × List ByteText
  | ('-' :: o) :: rest =>
    if !o.isEmpty && o.all (fun c => c == 'n' || c == 'e' || c == 'E') then
      echoOptions (silent || o.contains 'n')
        (match o.reverse.find? (· != 'n') with
          | some c => c == 'e'
          | none => escapes) rest
    else (silent, escapes, ('-' :: o) :: rest)
  | ws => (silent, escapes, ws)

/-- What the program `echo` writes. -/
def echoedByProgram (arguments : List ByteText) : ByteText :=
  let (silent, escapes, rest) := echoOptions false false arguments
  let (s, cut) := if escapes then unescape true (words rest) else (words rest, false)
  if silent ∨ cut then s else s ++ ['\n']

/-- A conversion of a `printf` format. -/
structure Conversion where
  left : Bool := false
  plus : Bool := false
  space : Bool := false
  alternate : Bool := false
  zeros : Bool := false
  width : Option Nat := some 0
  precision : Option (Option Nat) := none
  kind : Char := 's'

inductive Piece where
  | char (c : Char)
  | conversion (c : Conversion)

def takeFlags (c : Conversion) : ByteText → Conversion × ByteText
  | '-' :: r => takeFlags { c with left := true } r
  | '+' :: r => takeFlags { c with plus := true } r
  | ' ' :: r => takeFlags { c with space := true } r
  | '#' :: r => takeFlags { c with alternate := true } r
  | '0' :: r => takeFlags { c with zeros := true } r
  | s => (c, s)

/-- A count: digits, or a star that takes it from the arguments. -/
def takeCount (s : ByteText) : Option Nat × ByteText :=
  match s with
  | '*' :: r => (none, r)
  | _ =>
    let (ds, r) := s.span isDigit
    (some (digitsValue 0 ds), r)

/-- The conversion after a percent sign. -/
def takeConversion (s : ByteText) : Option (Conversion × ByteText) :=
  let (c, s) := takeFlags {} s
  let (width, s) := takeCount s
  let (precision, s) := match s with
    | '.' :: r => let (n, r) := takeCount r; (some n, r)
    | s => (none, s)
  match s with
  | k :: r =>
    if "diouxXcsb".toList.contains k then some ({ c with width, precision, kind := k }, r) else none
  | [] => none

/-- The pieces of a format, or what is left of it at a conversion that is none. -/
def piecesWith (rich : Bool) : Nat → ByteText → Except ByteText (List Piece)
  | 0, _ => .ok []
  | _ + 1, [] => .ok []
  | fuel + 1, '\\' :: r => do
    let (c, rest) := takeEscape rich r
    .ok (.char c :: (← piecesWith rich fuel rest))
  | fuel + 1, '%' :: '%' :: r => do .ok (.char '%' :: (← piecesWith rich fuel r))
  | fuel + 1, '%' :: r =>
    match takeConversion r with
    | some (c, rest) => do .ok (.conversion c :: (← piecesWith rich fuel rest))
    | none => .error ('%' :: r.take ((r.takeWhile fun c => !c.isAlpha).length + 1))
  | fuel + 1, c :: r => do .ok (.char c :: (← piecesWith rich fuel r))

def pieces (rich : Bool) (format : ByteText) : Except ByteText (List Piece) :=
  piecesWith rich (format.length + 1) format

def pad (c : Conversion) (width : Nat) (head body : ByteText) : ByteText :=
  let missing := width - (head.length + body.length)
  if c.left then head ++ body ++ List.replicate missing ' '
  else if c.zeros ∧ c.precision.isNone ∧ c.kind ≠ 's' then
    head ++ List.replicate missing '0' ++ body
  else List.replicate missing ' ' ++ head ++ body

/-- The number that an argument denotes, and whether it is well-formed. -/
def number (s : ByteText) : Int × Bool :=
  match s with
  | [] => (0, true)
  | '\x27' :: c :: _ | '\x22' :: c :: _ => ((c.toNat : Int), true)
  | _ =>
    let (negative, body) := match s with
      | '-' :: r => (true, r)
      | '+' :: r => (false, r)
      | r => (false, r)
    match Arithmetic.number? body with
    | some n => (if negative then -n.toInt else n.toInt, !body.isEmpty)
    | none =>
      let n := (digitsValue 0 (body.takeWhile isDigit) : Int)
      (if negative then -n else n, false)

def inBase (base : Nat) (upper : Bool) (n : Nat) : ByteText :=
  let ds := Nat.toDigits base n
  if upper then ds.map Char.toUpper else ds

/-- The text of a number under a conversion, as its sign and its digits. -/
def numberText (c : Conversion) (precision : Option Nat) (n : Int) : ByteText × ByteText :=
  let unsigned := if n < 0 then (18446744073709551616 + n).toNat else n.toNat
  let least (ds : ByteText) : ByteText :=
    match precision with
    | some p => List.replicate (p - ds.length) '0' ++ ds
    | none => ds
  match c.kind with
  | 'o' => ((if c.alternate then ['0'] else []), least (inBase 8 false unsigned))
  | 'u' => ([], least (inBase 10 false unsigned))
  | 'x' => ((if c.alternate then ['0', 'x'] else []), least (inBase 16 false unsigned))
  | 'X' => ((if c.alternate then ['0', 'X'] else []), least (inBase 16 true unsigned))
  | _ =>
    (if n < 0 then ['-'] else if c.plus then ['+'] else if c.space then [' '] else [],
      least (inBase 10 false n.natAbs))

/-- What a format wrote so far. -/
structure Outcome where
  text : ByteText := []
  arguments : List ByteText
  wrong : List ByteText := []
  cut : Bool := false

def Outcome.next (o : Outcome) : ByteText × Outcome :=
  match o.arguments with
  | a :: rest => (a, { o with arguments := rest })
  | [] => ([], o)

/-- A count given in the format or by the next argument. -/
def Outcome.count (o : Outcome) (given : Option Nat) : Int × Outcome :=
  match given with
  | some n => ((n : Int), o)
  | none =>
    let (a, o) := o.next
    ((number a).1, o)

def Outcome.put (o : Outcome) (s : ByteText) : Outcome := { o with text := o.text ++ s }

def convert (o : Outcome) (c : Conversion) : Outcome :=
  let (width, o) := o.count c.width
  let c := { c with left := c.left || width < 0 }
  let width := width.natAbs
  let (precision, o) : Option Nat × Outcome := match c.precision with
    | none => (none, o)
    | some given =>
      let (n, o) := o.count given
      (if n < 0 then none else some n.toNat, o)
  let (a, o) := o.next
  match c.kind with
  | 'c' => o.put (pad { c with kind := 's' } width [] (a.take 1))
  | 's' => o.put (pad c width [] (match precision with
      | some p => a.take p
      | none => a))
  | 'b' =>
    let (s, cut) := unescape false a
    { o.put (pad { c with kind := 's' } width [] (match precision with
        | some p => s.take p
        | none => s)) with cut }
  | _ =>
    let (n, fine) := number a
    let (sign, ds) := numberText c precision n
    let o := if fine then o else { o with wrong := o.wrong ++ [a] }
    o.put (pad c width sign ds)

def onePass (o : Outcome) (ps : List Piece) : Outcome :=
  ps.foldl (fun o p =>
    if o.cut then o
    else
      match p with
      | .char c => o.put [c]
      | .conversion c => convert o c) o

/-- Use the format again as long as it takes arguments. -/
def passes (ps : List Piece) : Nat → Outcome → Outcome
  | 0, o => o
  | fuel + 1, o =>
    let after := onePass o ps
    if after.cut ∨ after.arguments.isEmpty ∨ after.arguments.length = o.arguments.length then after
    else passes ps fuel after

/-- What `printf` writes, and the arguments that are not the numbers they should be. -/
def formatted (rich : Bool) (format : ByteText) (arguments : List ByteText) :
    Except ByteText Outcome := do
  .ok (passes (← pieces rich format) (arguments.length + 1) { arguments })

end FirmwareJobs.Shell.Printed

import FirmwareJobs.Files.Tree
import FirmwareJobs.Settings.Engine
import FirmwareJobs.Text.Blank

/-! # Files with variables

A file of variables has statements such as `NAME=value`, `export NAME='a value'` or
`NAME="$OTHER text" # comment`. A quoted value may go over several lines. Reading stops at the
first malformed statement; what stands before it counts, but never replaces a variable that is
already set.
-/

namespace FirmwareJobs.VariableFile

open Text

/-! ## Statements -/

/-- Where a reader stands that looks for the end of a statement. -/
inductive Place where
  | plain
  | escaped
  | blank
  | strong
  | strongEscaped
  | weak
  | weakEscaped
  | comment
  deriving Repr, DecidableEq

/-- What a character outside of quotes and escapes begins. -/
def opening (c : Char) : Place :=
  if c = '\\' then .escaped
  else if c = '\x22' then .weak
  else if c = '\x27' then .strong
  else .plain

def step (place : Place) (c : Char) : Place :=
  match place with
  | .plain => if isBlank c && c != '\n' && c != '\r' then .blank else opening c
  | .blank => if c = '#' then .comment else opening c
  | .escaped => .plain
  | .strong => if c = '\\' then .strongEscaped else if c = '\x27' then .plain else .strong
  | .strongEscaped => .strong
  | .weak => if c = '\\' then .weakEscaped else if c = '\x22' then .plain else .weak
  | .weakEscaped => .weak
  | .comment => .comment

/-- Where a line ends, and the line without a comment. -/
def scan : Place → List Char → Place × List Char
  | place, [] => (place, [])
  | place, c :: r =>
    match step place c with
    | .comment => (.comment, [])
    | next =>
      let (last, kept) := scan next r
      (last, c :: kept)

/-- The lines of a file, each with its line feed. -/
def lines : List UInt8 → List (List UInt8)
  | [] => []
  | b :: r =>
    if b = 10 then [b] :: lines r
    else
      match lines r with
      | line :: rest => (b :: line) :: rest
      | [] => [[b]]

/-- The statements of a file, `none` for one that is malformed or not text. -/
def statementsFrom (begun : List Char) (place : Place) : List (List UInt8) →
    List (Option (List Char))
  | [] => if place = .plain then [] else [none]
  | bytes :: rest =>
    match Utf8.decode? bytes with
    | none => [none]
    | some line =>
      if (trimStart (begun ++ line)).head? = some '#' then
        some [] :: statementsFrom [] .plain rest
      else
        match scan place line with
        | (.plain, _) => some (begun ++ line) :: statementsFrom [] .plain rest
        | (.comment, kept) => some (begun ++ kept) :: statementsFrom [] .plain rest
        | (place, _) => statementsFrom (begun ++ line) place rest

def byteOrderMark : List UInt8 := [0xEF, 0xBB, 0xBF]

def statements (content : List UInt8) : List (Option (List Char)) :=
  let content := if byteOrderMark.isPrefixOf content then content.drop 3 else content
  statementsFrom [] .plain (lines content)

/-! ## Values -/

/-- What the next character of a value belongs to. -/
inductive Phase where
  | plain
  | strong
  | escaped
  | name (braced : Bool) (read : List Char)
  | ending
  deriving Repr, DecidableEq

/-- A letter or digit. Outside of ASCII everything from U+00C0 to U+1FFF and from U+3040 to
U+FFFF counts as a letter. -/
def isNameChar (c : Char) : Bool :=
  let n := c.toNat
  isDigit c || c.isAlpha || (0xC0 ≤ n && n < 0x2000) || (0x3040 ≤ n && n ≤ 0xFFFF)

/-- The value that a text denotes, `none` if it is malformed. `quoted` tells that the text stands
in weak quotes. -/
def valueFrom (lookup : List Char → List Char) (quoted : Bool) (phase : Phase) :
    List Char → Option (List Char)
  | [] =>
    match phase with
    | .strong | .name true _ => none
    | .name false name => if quoted then none else some (lookup name)
    | .plain | .escaped | .ending => if quoted then none else some []
  | c :: r =>
    let go (quoted : Bool) (phase : Phase) (added : List Char) : Option (List Char) :=
      (valueFrom lookup quoted phase r).map (added ++ ·)
    match phase with
    | .plain =>
      if c = '$' then go quoted (.name false []) []
      else if c = '\\' then go quoted .escaped []
      else if c = '\x22' then go (!quoted) .plain []
      else if quoted then go quoted .plain [c]
      else if c = '\x27' then go quoted .strong []
      else if c = ' ' ∨ c = '\t' then go quoted .ending []
      else go quoted .plain [c]
    | .strong => if c = '\x27' then go quoted .plain [] else go quoted .strong [c]
    | .escaped =>
      if "\\\x27\x22$ ".toList.contains c then go quoted .plain [c]
      else if c = 'n' then go quoted .plain ['\n']
      else none
    | .name braced name =>
      if isNameChar c then go quoted (.name braced (name ++ [c])) []
      else if braced then
        if c = '\x7d' then go quoted .plain (lookup name)
        else go quoted (.name true (name ++ [c])) []
      else if c = '\x7b' ∧ name.isEmpty then go quoted (.name true []) []
      else if c = '$' then go quoted (.name false []) (lookup name)
      else go quoted .plain (lookup name ++ [c])
    | .ending =>
      if c = ' ' ∨ c = '\t' then go quoted .ending []
      else if c = '#' then some []
      else none

/-! ## Variables -/

def isKeyStart (c : Char) : Bool := c.isAlpha || c == '_'

def isKeyChar (c : Char) : Bool := isKeyStart c || isDigit c || c == '.'

/-- A key and what follows it. -/
def key? (s : List Char) : Option (List Char × List Char) :=
  if s.head?.any isKeyStart then
    let (key, rest) := s.span isKeyChar
    some (key, trimStart rest)
  else none

def afterEqual? : List Char → Option (List Char)
  | '=' :: r => some (trimStart r)
  | _ => none

/-- The key of a statement and the text of its value. The word `export` before a key is left
out. -/
def assignment? (s : List Char) : Option (List Char × List Char) := do
  let (key, rest) ← key? s
  match afterEqual? rest with
  | some value => some (key, value)
  | none =>
    if key = "export".toList then
      let (key, rest) ← key? rest
      some (key, ← afterEqual? rest)
    else none

/-- The variables after the statements. -/
def load (environment : Environment) : List (Option (List Char)) → Environment
  | [] | none :: _ => environment
  | some s :: rest =>
    let s := trim s
    if s.isEmpty ∨ s.head? = some '#' then load environment rest
    else
      match assignment? s with
      | none => environment
      | some (key, text) =>
        let lookup (name : List Char) : List Char :=
          ((environment.get? (String.ofList name)).getD "").toList
        let value := if text.head? = some '#' then some [] else valueFrom lookup false .plain text
        match value with
        | none => environment
        | some value =>
          let key := String.ofList key
          if (environment.get? key).isSome then load environment rest
          else load (environment.set key (String.ofList value)) rest

def fileName : String := ".env"

/-- The file of variables in a directory or the nearest one above it. -/
def nearest? (files : Files.Tree) (directory : Files.Place) : Option (List UInt8) :=
  (List.range (directory.length + 1)).findSome? fun k =>
    match files.entry? (directory.take (directory.length - k) ++ [fileName]) with
    | some (.file content) => some content
    | _ => none

/-- The variables of a program that is started in a directory. -/
def loadNearest (files : Files.Tree) (directory : Files.Place) (environment : Environment) :
    Environment :=
  match nearest? files directory with
  | some content => load environment (statements content)
  | none => environment

end FirmwareJobs.VariableFile

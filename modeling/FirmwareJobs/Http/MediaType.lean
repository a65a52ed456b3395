import FirmwareJobs.Text.Decimal

/-! # Media types

A media type is a type and a subtype with a slash between them. Parameters may follow, each after
a semicolon; their values are tokens or quoted texts.
-/

namespace FirmwareJobs.Http

structure MediaType where
  top : List Char
  sub : List Char
  deriving Repr, DecidableEq

namespace MediaType

def isTokenChar (c : Char) : Bool :=
  Text.isDigit c || c.isAlpha || "!#$%&\x27*+-.^_\x60|~\x7b\x7d".toList.contains c

def isBlank (c : Char) : Bool := c == ' ' || c == '\t'

/-- Where a reader of a media type stands. The places that end in `start` expect a token. -/
inductive Place where
  | topStart
  | top
  | subStart
  | sub
  | gap
  | keyStart
  | key
  | valueStart
  | value
  | quoted
  | escaped
  deriving Repr, DecidableEq

/-- What may follow a subtype or a parameter. -/
def gapStep (c : Char) : Option Place :=
  if c = ';' then some .keyStart else if isBlank c then some .gap else none

def step (place : Place) (c : Char) : Option Place :=
  let token (next : Place) : Option Place := if isTokenChar c then some next else none
  match place with
  | .topStart => token .top
  | .top => if c = '/' then some .subStart else token .top
  | .subStart => token .sub
  | .sub => (token .sub).or (gapStep c)
  | .gap => gapStep c
  | .keyStart => if isBlank c then some .keyStart else token .key
  | .key => if c = '=' then some .valueStart else token .key
  | .valueStart => if c = '\x22' then some .quoted else token .value
  | .value => (token .value).or (gapStep c)
  | .quoted => some (if c = '\x22' then .gap else if c = '\\' then .escaped else .quoted)
  | .escaped => some .quoted

def isWhole (place : Place) : Bool := place == .sub || place == .gap || place == .value

/-- The media type that a text names, in small letters and without its parameters. -/
def ofText? (text : String) : Option MediaType := do
  let s := text.toList
  let place ← s.foldlM step Place.topStart
  if isWhole place then
    let (top, rest) := s.span isTokenChar
    some ⟨top.map Char.toLower, ((rest.drop 1).takeWhile isTokenChar).map Char.toLower⟩
  else none

def json : MediaType := ⟨"application".toList, "json".toList⟩

end MediaType

end FirmwareJobs.Http

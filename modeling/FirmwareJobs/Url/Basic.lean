import FirmwareJobs.Text.Decimal
import FirmwareJobs.Url.Host

/-! # Web addresses

An absolute address of the web is read leniently, as browsers do: blanks around it and line breaks
inside it are dropped, a backslash counts as a slash, the number of slashes before the host is
free, dot segments are resolved and what is reserved is percent-encoded.
-/

namespace FirmwareJobs

open Text

structure Url where
  isSecure : Bool
  host : List Char
  port : Option Nat
  path : List (List Char)
  query : Option (List Char)
  deriving Repr, DecidableEq

namespace Url

def isSlash (c : Char) : Bool := c == '/' || c == '\\'

def isReservedInPath (c : Char) : Bool := "\x22#<>?\x60\x7b\x7d".toList.contains c

def isReservedInQuery (c : Char) : Bool := "\x22#<>\x27".toList.contains c

def isDot (segment : List Char) : Bool :=
  let s := segment.map Char.toLower
  s == ['.'] || s == "%2e".toList

def isDoubleDot (segment : List Char) : Bool :=
  let s := segment.map Char.toLower
  s == "..".toList || s == ".%2e".toList || s == "%2e.".toList || s == "%2e%2e".toList

/-- Resolve the dot segments of a path. A dot segment at the end leaves an empty segment. -/
def resolve (done : List (List Char)) : List (List Char) → List (List Char)
  | [] => done
  | segment :: rest =>
    let tail := if rest.isEmpty then [[]] else []
    if isDoubleDot segment then resolve (done.dropLast ++ tail) rest
    else if isDot segment then resolve (done ++ tail) rest
    else resolve (done ++ [segment]) rest

/-- The segments of what follows the host. -/
def pathSegments (s : List Char) : List (List Char) :=
  let s := match s with
    | c :: r => if isSlash c then r else s
    | [] => []
  resolve [] ((splitOn isSlash s).map (percentEncode isReservedInPath))

def defaultPort (isSecure : Bool) : Nat := if isSecure then 443 else 80

/-- The port after the host. The default port is not kept. -/
def port? (isSecure : Bool) : List Char → Option (Option Nat)
  | [] | [':'] => some none
  | ':' :: ds => do
    let n ← natural? ds
    if n < 65536 then some (if n = defaultPort isSecure then none else some n) else none
  | _ => none

/-- The host and what follows it in an authority without user information. -/
def splitPort (authority : List Char) : List Char × List Char :=
  match authority with
  | '[' :: _ =>
    let (inside, rest) := splitAtFirst (· == ']') authority
    (inside ++ rest.take 1, rest.drop 1)
  | _ => splitAtFirst (· == ':') authority

/-- What follows the last at sign. -/
def withoutUser (authority : List Char) : List Char :=
  ((splitOn (· == '@') authority).getLast?).getD []

/-- The scheme, `true` if it is the secure one, and what follows its colon. -/
def scheme? (s : List Char) : Option (Bool × List Char) :=
  let (scheme, rest) := splitAtFirst (· == ':') s
  let name := String.ofList (scheme.map Char.toLower)
  match rest with
  | [] => none
  | _ :: rest =>
    if name = "http" then some (false, rest)
    else if name = "https" then some (true, rest)
    else none

def isControlOrSpace (c : Char) : Bool := c.toNat ≤ 0x20

/-- The address that a text denotes, `none` if it is not an absolute address of the web. -/
def ofText? (text : String) : Option Url := do
  let trimmed := ((text.toList.dropWhile isControlOrSpace).reverse.dropWhile
    isControlOrSpace).reverse
  let s := trimmed.filter fun c => c != '\t' && c != '\n' && c != '\r'
  let (isSecure, s) ← scheme? s
  let (beforeFragment, _) := splitAtFirst (· == '#') (s.dropWhile isSlash)
  let (hierarchy, query) := splitAtFirst (· == '?') beforeFragment
  let (authority, path) := splitAtFirst isSlash hierarchy
  let (name, rest) := splitPort (withoutUser authority)
  let host ← host? name
  let port ← port? isSecure rest
  some
    { isSecure, host, port
      path := pathSegments path
      query := match query with
        | [] => none
        | _ :: q => some (percentEncode isReservedInQuery q) }

/-- Append names with numbers to the query. -/
def withQuery (url : Url) (pairs : List (String × Nat)) : Url :=
  match pairs.map fun (name, n) => name.toList ++ '=' :: digits n with
  | [] => url
  | parts =>
    let added := Address.joined '&' parts
    match url.query with
    | none | some [] => { url with query := some added }
    | some q => { url with query := some (q ++ '&' :: added) }

/-- What a request line asks for: the path and the query. -/
def target (url : Url) : String :=
  String.ofList
    ('/' :: Address.joined '/' url.path ++
      match url.query with
      | none => []
      | some q => '?' :: q)

/-- The scheme, the host and a port other than the default. -/
def origin (url : Url) : String :=
  (if url.isSecure then "https://" else "http://") ++ String.ofList
    (url.host ++ match url.port with
      | none => []
      | some n => ':' :: digits n)

end Url

end FirmwareJobs

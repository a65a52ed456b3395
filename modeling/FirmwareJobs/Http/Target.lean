import FirmwareJobs.Text.Real
import FirmwareJobs.Url.Percent

/-! # Request targets

A target is a path and a query. The segments of the path and the fields of the query are
percent-decoded; empty segments and empty fields do not count. A field that a route asks for counts
only if it is given once.
-/

namespace FirmwareJobs.Http

open Text Url

structure Target where
  segments : List String
  query : List (String × String)
  deriving Repr, DecidableEq

namespace Target

def isPathChar (c : Char) : Bool :=
  isDigit c || c.isAlpha || "-._~%!$&\x27()*+,;=:@/".toList.contains c

def isQueryChar (c : Char) : Bool :=
  isPathChar c || "?[]\\^\x60|\x7b\x7d".toList.contains c

def decoded (s : List Char) : List Char := Utf8.decodeLossy (percentDecode s)

/-- In a query a plus sign stands for a space. -/
def decodedInQuery (s : List Char) : List Char :=
  decoded (s.map fun c => if c = '+' then ' ' else c)

/-- The first key of a field name such as `key`, `key.other`, `key[other]`, `.key` or `[key]`. -/
def firstKey : List Char → List Char
  | '[' :: r => (splitAtFirst (· == ']') r).1
  | '.' :: r => (splitAtFirst (fun c => c == '.' || c == '[') r).1
  | name => (splitAtFirst (fun c => c == '.' || c == '[') name).1

/-- The key and the value of one field of a query. -/
def field (s : List Char) : String × String :=
  let (name, value) := splitAtFirst (· == '=') s
  (String.ofList (firstKey (decodedInQuery name)), String.ofList (decodedInQuery (value.drop 1)))

/-- The target that a request line asks for, `none` if it is malformed. -/
def ofText? (text : String) : Option Target :=
  match text.toList with
  | '/' :: s =>
    let (path, query) := splitAtFirst (· == '?') s
    let query := query.drop 1
    if path.all isPathChar && query.all isQueryChar then
      some
        { segments := ((splitOn (· == '/') path).filter (!·.isEmpty)).map fun segment =>
            String.ofList (decoded segment)
          query := ((splitOn (· == '&') query).filter (!·.isEmpty)).map field }
    else none
  | _ => none

/-- The value of a field that is given exactly once. -/
def value? (t : Target) (key : String) : Option String :=
  match t.query.filter (·.1 == key) with
  | [(_, value)] => some value
  | _ => none

/-- A number of 64 bits with a sign. -/
def integer? (t : Target) (key : String) : Option Int :=
  (t.value? key).bind fun value => signedWithin? 64 value.toList

def real? (t : Target) (key : String) : Option Text.Real :=
  (t.value? key).bind fun value => Text.real? value.toList

end Target

end FirmwareJobs.Http

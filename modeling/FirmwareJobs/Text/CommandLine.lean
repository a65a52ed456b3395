/-! # Splitting a command line into words

The quoting rules are those of a POSIX shell, without expansions. Blanks are space, tab and
newline. A word may be built from bare characters, single-quoted parts, double-quoted parts and
characters escaped by a backslash; a backslash before a newline joins two lines. A `#` where a
word would start opens a comment to the end of the line. An open quote or a final backslash makes
the whole line unbalanced.
-/

namespace FirmwareJobs.Text.CommandLine

/-- Where the reader stands. The pending word is kept beside it. -/
inductive Mode where
  | between
  | comment
  | bare
  | escaped
  | single
  | double
  | doubleEscaped
  deriving Repr, DecidableEq

def isSeparator (c : Char) : Bool := c == ' ' || c == '\t' || c == '\n'

/-- A character inside or at the start of a bare part: the mode that follows and what is added. -/
def bareStep (c : Char) : Mode × List Char :=
  if c = '\x22' then (.double, [])
  else if c = '\x27' then (.single, [])
  else if c = '\\' then (.escaped, [])
  else (.bare, [c])

/-- The words of the rest of a line, given the mode and the pending word. -/
def splitFrom : Mode → List Char → List Char → Option (List (List Char))
  | .between, _, [] => some []
  | .comment, _, [] => some []
  | .bare, word, [] => some [word]
  | _, _, [] => none
  | .between, word, c :: r =>
    if isSeparator c then splitFrom .between word r
    else if c = '#' then splitFrom .comment word r
    else splitFrom (bareStep c).1 (bareStep c).2 r
  | .comment, word, c :: r => splitFrom (if c = '\n' then .between else .comment) word r
  | .bare, word, c :: r =>
    if isSeparator c then (splitFrom .between [] r).map (word :: ·)
    else splitFrom (bareStep c).1 (word ++ (bareStep c).2) r
  | .escaped, word, c :: r => splitFrom .bare (if c = '\n' then word else word ++ [c]) r
  | .single, word, c :: r =>
    if c = '\x27' then splitFrom .bare word r else splitFrom .single (word ++ [c]) r
  | .double, word, c :: r =>
    if c = '\x22' then splitFrom .bare word r
    else if c = '\\' then splitFrom .doubleEscaped word r
    else splitFrom .double (word ++ [c]) r
  | .doubleEscaped, word, c :: r =>
    splitFrom .double
      (if c = '\n' then word
       else if c = '$' ∨ c = '\x60' ∨ c = '\x22' ∨ c = '\\' then word ++ [c]
       else word ++ ['\\', c]) r

/-- The words of a command line, `none` if a quote stays open or a backslash ends the line. -/
def split? (line : String) : Option (List String) :=
  (splitFrom .between [] line.toList).map (·.map String.ofList)

end FirmwareJobs.Text.CommandLine

import FirmwareJobs.Shell.Command
import FirmwareJobs.Text.Decimal

/-! # Reading shell commands

The reader works on the rest of the script and takes one line of commands at a time, with as many
further lines as its compound commands need. `Position` turns the length of the rest into a line
number. Every function has a fuel that the length of the script bounds.
-/

namespace FirmwareJobs.Shell

open Text

/-- Why a script cannot be read, and in which line. -/
structure ReadFault where
  line : Nat
  text : String
  deriving Repr, DecidableEq

/-- The line on which the reading began and the line breaks that followed from there. -/
structure Position where
  line : Nat
  breaks : Nat

def countBreaks (s : ByteText) : Nat := s.count '\n'

def Position.lineAt (p : Position) (rest : ByteText) : Nat := p.line + (p.breaks - countBreaks rest)

namespace Reader

def isNameStart (c : Char) : Bool := c.isAlpha || c == '_'

def isNameRest (c : Char) : Bool := c.isAlphanum || c == '_'

/-- Characters that end a word. -/
def isMeta (c : Char) : Bool := " \t\n;&|()<>".toList.contains c

def isQuoting (c : Char) : Bool :=
  c == '\x27' || c == '\x22' || c == '\\' || c == '$' || c == '\x60'

def fault {α : Type} (p : Position) (rest : ByteText) (text : String) : Except ReadFault α :=
  .error ⟨p.lineAt rest, "Syntax error: " ++ text⟩

/-- Blanks, joined lines and a comment. -/
def skipBlanks : ByteText → ByteText
  | ' ' :: r => skipBlanks r
  | '\t' :: r => skipBlanks r
  | '\\' :: '\n' :: r => skipBlanks r
  | '#' :: r => r.dropWhile (· != '\n')
  | s => s

/-- Blanks, comments and line breaks. -/
def skipBreaks : Nat → ByteText → ByteText
  | 0, s => s
  | fuel + 1, s =>
    match skipBlanks s with
    | '\n' :: r => skipBreaks fuel r
    | r => r

/-- A name of a variable at the front. -/
def takeName (s : ByteText) : ByteText × ByteText :=
  match s with
  | c :: _ => if isNameStart c then s.span isNameRest else ([], s)
  | [] => ([], s)

def isSpecialParameter (c : Char) : Bool := "@*#?-$!".toList.contains c

/-- The name of a parameter after `$`, if there is one. -/
def takeParameter (s : ByteText) : Option (ByteText × ByteText) :=
  match s with
  | [] => none
  | c :: r =>
    if isNameStart c then some (takeName s)
    else if isDigit c ∨ isSpecialParameter c then some ([c], r)
    else none

/-- The name of a parameter after `${`, where it may have several digits. -/
def takeBracedParameter (s : ByteText) : Option (ByteText × ByteText) :=
  match s with
  | [] => none
  | c :: _ => if isDigit c then some (s.span isDigit) else takeParameter s

/-- The text up to the closing parenthesis of a substitution, at a depth of open parentheses. -/
def takeParenthesized : Nat → Nat → ByteText → Option (ByteText × ByteText)
  | 0, _, _ => none
  | fuel + 1, depth, s =>
    let cons (c : Char) : Option (ByteText × ByteText) → Option (ByteText × ByteText) :=
      Option.map fun (t, r) => (c :: t, r)
    match s with
    | [] => none
    | '\\' :: c :: r => cons '\\' (cons c (takeParenthesized fuel depth r))
    | '\x27' :: r =>
      let (inside, rest) := r.span (· != '\x27')
      (takeParenthesized fuel depth (rest.drop 1)).map fun (t, r) =>
        ('\x27' :: inside ++ '\x27' :: t, r)
    | '(' :: r => cons '(' (takeParenthesized fuel (depth + 1) r)
    | ')' :: r =>
      if depth = 0 then some ([], r) else cons ')' (takeParenthesized fuel (depth - 1) r)
    | c :: r => cons c (takeParenthesized fuel depth r)

/-- The text up to the closing backquote, with its escapes resolved. -/
def takeBackquoted (quoted : Bool) : ByteText → Option (ByteText × ByteText)
  | [] => none
  | '\x60' :: r => some ([], r)
  | '\\' :: c :: r =>
    if c = '\x60' ∨ c = '\\' ∨ c = '$' ∨ (quoted ∧ c = '\x22') then
      (takeBackquoted quoted r).map fun (t, r) => (c :: t, r)
    else (takeBackquoted quoted r).map fun (t, r) => ('\\' :: c :: t, r)
  | c :: r => (takeBackquoted quoted r).map fun (t, r) => (c :: t, r)

/-- The modifier of `${name…}`, whether it has a colon, and what follows it. -/
def takeModifier : ByteText → Option (Bool × Modifier × ByteText)
  | ':' :: '-' :: r => some (true, .orElse, r)
  | ':' :: '=' :: r => some (true, .assign, r)
  | ':' :: '?' :: r => some (true, .demand, r)
  | ':' :: '+' :: r => some (true, .instead, r)
  | '-' :: r => some (false, .orElse, r)
  | '=' :: r => some (false, .assign, r)
  | '?' :: r => some (false, .demand, r)
  | '+' :: r => some (false, .instead, r)
  | '#' :: '#' :: r => some (false, .dropStart true, r)
  | '#' :: r => some (false, .dropStart false, r)
  | '%' :: '%' :: r => some (false, .dropEnd true, r)
  | '%' :: r => some (false, .dropEnd false, r)
  | _ => none

/-- Where a row of parts ends. -/
inductive Ending where
  | word
  | quote
  | brace
  | text
  deriving Repr, DecidableEq

/-- Put a character in front of the parts. -/
def addChar (c : Char) (quoted : Bool) : List Part → List Part
  | .text s q :: rest =>
    if q = quoted then .text (c :: s) q :: rest else .text [c] quoted :: .text s q :: rest
  | parts => .text [c] quoted :: parts

mutual

/-- The parts up to an ending. The closing quote or brace is left in the rest. -/
def parts (p : Position) (fuel : Nat) (ending : Ending) (quoted : Bool) (s : ByteText) :
    Except ReadFault (List Part × ByteText) :=
  match fuel with
  | 0 => fault p s "out of reach"
  | fuel + 1 =>
    let goOn (part : Part) (rest : ByteText) : Except ReadFault (List Part × ByteText) := do
      let (more, rest) ← parts p fuel ending quoted rest
      .ok (part :: more, rest)
    let char (c : Char) (q : Bool) (rest : ByteText) : Except ReadFault (List Part × ByteText) := do
      let (more, rest) ← parts p fuel ending quoted rest
      .ok (addChar c q more, rest)
    match s with
    | [] =>
      match ending with
      | .word | .text => .ok ([], [])
      | .quote => fault p s "Unterminated quoted string"
      | .brace => fault p s "Missing \x27\x7d\x27"
    | '\\' :: '\n' :: r => parts p fuel ending quoted r
    | '\\' :: c :: r =>
      let isSpecial := c = '$' ∨ c = '\x60' ∨ c = '\x22' ∨ c = '\\' ∨ (ending = .brace ∧ c = '\x7d')
      if quoted ∧ !isSpecial then
        char '\\' true (c :: r)
      else char c true r
    | '$' :: r => dollar p fuel quoted r >>= fun (part, rest) => goOn part rest
    | '\x60' :: r =>
      match takeBackquoted quoted r with
      | some (source, rest) => goOn (.command source quoted) rest
      | none => fault p s "EOF in backquote substitution"
    | '\x27' :: r =>
      if quoted then char '\x27' true r
      else
        let (inside, rest) := r.span (· != '\x27')
        match rest with
        | [] => fault p rest "Unterminated quoted string"
        | _ :: rest => goOn (.text inside true) rest
    | '\x22' :: r =>
      if ending = .quote then .ok ([], s)
      else if ending = .text then char '\x22' quoted r
      else if quoted then parts p fuel ending quoted r
      else do
        let (inside, rest) ← parts p fuel .quote true r
        let (more, rest) ← parts p fuel ending quoted (rest.drop 1)
        .ok ((if inside.isEmpty then [.text [] true] else inside) ++ more, rest)
    | '\x7d' :: r => if ending = .brace then .ok ([], s) else char '\x7d' quoted r
    | c :: r => if ending = .word ∧ isMeta c then .ok ([], s) else char c quoted r

/-- What follows a dollar sign. -/
def dollar (p : Position) (fuel : Nat) (quoted : Bool) (s : ByteText) :
    Except ReadFault (Part × ByteText) :=
  match fuel with
  | 0 => fault p s "out of reach"
  | fuel + 1 =>
    match s with
    | '(' :: '(' :: r =>
      match takeParenthesized (r.length + 1) 0 r with
      | some (body, ')' :: rest) => do
        let (inside, _) ← parts p fuel .text true body
        .ok (.arithmetic inside quoted, rest)
      | _ =>
        match takeParenthesized (s.length + 1) 0 ('(' :: r) with
        | some (source, rest) => .ok (.command source quoted, rest)
        | none => fault p [] "end of file unexpected (expecting \x22)\x22)"
    | '(' :: r =>
      match takeParenthesized (r.length + 1) 0 r with
      | some (source, rest) => .ok (.command source quoted, rest)
      | none => fault p [] "end of file unexpected (expecting \x22)\x22)"
    | '\x7b' :: '#' :: r =>
      match takeBracedParameter r with
      | some (name, '\x7d' :: rest) => .ok (.length name quoted, rest)
      | _ => braced p fuel quoted ('#' :: r)
    | '\x7b' :: r => braced p fuel quoted r
    | _ =>
      match takeParameter s with
      | some (name, rest) => .ok (.parameter name quoted, rest)
      | none => .ok (.text ['$'] quoted, s)

/-- What follows `${`. -/
def braced (p : Position) (fuel : Nat) (quoted : Bool) (s : ByteText) :
    Except ReadFault (Part × ByteText) :=
  match fuel with
  | 0 => fault p s "out of reach"
  | fuel + 1 =>
    match takeBracedParameter s with
    | none => .error ⟨p.lineAt s, "Bad substitution"⟩
    | some (name, '\x7d' :: rest) => .ok (.parameter name quoted, rest)
    | some (name, rest) =>
      match takeModifier rest with
      | none => .error ⟨p.lineAt rest, "Bad substitution"⟩
      | some (colon, modifier, rest) => do
        let inner := match modifier with
          | .dropStart _ | .dropEnd _ => false
          | _ => quoted
        let (word, rest) ← parts p fuel .brace inner rest
        .ok (.modified name colon modifier word quoted, rest.drop 1)

end

def word (p : Position) (s : ByteText) : Except ReadFault (Word × ByteText) :=
  parts p (2 * s.length + 2) .word false s

/-- The word at the front if it has no quotes and no expansions. -/
def plainWord (s : ByteText) : ByteText :=
  let (w, rest) := s.span fun c => !isMeta c && !isQuoting c
  match rest with
  | c :: _ => if isQuoting c then [] else w
  | [] => w

/-- Whether a reserved word stands at the front. -/
def startsWord (w : String) (s : ByteText) : Bool := plainWord s == w.toList

/-- How a message names what stands at the front. -/
def tokenName (s : ByteText) : String :=
  let quotedName (t : String) := "\x22" ++ t ++ "\x22"
  match s with
  | [] => "end of file"
  | '\n' :: _ => "newline"
  | ';' :: ';' :: _ => quotedName ";;"
  | ';' :: _ => quotedName ";"
  | '&' :: '&' :: _ => quotedName "&&"
  | '&' :: _ => quotedName "&"
  | '|' :: '|' :: _ => quotedName "||"
  | '|' :: _ => quotedName "|"
  | '(' :: _ => quotedName "("
  | ')' :: _ => quotedName ")"
  | '<' :: _ | '>' :: _ => "redirection"
  | _ =>
    let w := String.ofList (plainWord s)
    if ["!", "case", "do", "done", "elif", "else", "esac", "fi", "for", "if", "in", "then", "until",
        "while", "\x7b", "\x7d"].contains w then quotedName w
    else "word"

def unexpected {α : Type} (p : Position) (s : ByteText) (expecting : String) :
    Except ReadFault α :=
  fault p s (tokenName s ++ " unexpected" ++
    if expecting = "" then "" else " (expecting \x22" ++ expecting ++ "\x22)")

/-- Words that end a list of commands. -/
def closers : List String := ["then", "else", "elif", "fi", "do", "done", "esac", "\x7d"]

/-- Whether a list of commands ends here. -/
def endsList (s : ByteText) : Bool :=
  match s with
  | [] => true
  | ')' :: _ => true
  | ';' :: ';' :: _ => true
  | _ => closers.contains (String.ofList (plainWord s))

/-- The lines of a here-document up to its delimiter, and what follows it. -/
def takeHere (delimiter : ByteText) (stripTabs : Bool) : Nat → ByteText → ByteText × ByteText
  | 0, s => ([], s)
  | fuel + 1, s =>
    if s.isEmpty then ([], [])
    else
      let (line, rest) := s.span (· != '\n')
      let line := if stripTabs then line.dropWhile (· == '\t') else line
      if line = delimiter then ([], rest.drop 1)
      else
        let (more, rest') := takeHere delimiter stripTabs fuel (rest.drop 1)
        (line ++ '\n' :: more, rest')

/-- The characters of a delimiter without its quotes, and whether it had any. -/
def delimiterOf (w : Word) : ByteText × Bool :=
  (w.flatMap fun
    | .text s _ => s
    | _ => [],
   w.any fun
    | .text _ quoted => quoted
    | _ => false)

/-- The operator of a redirection, with its default descriptor. -/
def takeRedirectOperator : ByteText → Option (Nat × RedirectKind × Bool × ByteText)
  | '<' :: '<' :: '-' :: r => some (0, .here, true, r)
  | '<' :: '<' :: r => some (0, .here, false, r)
  | '<' :: '&' :: r => some (0, .duplicate, false, r)
  | '<' :: '>' :: r => some (0, .input, false, r)
  | '<' :: r => some (0, .input, false, r)
  | '>' :: '>' :: r => some (1, .append, false, r)
  | '>' :: '&' :: r => some (1, .duplicate, false, r)
  | '>' :: '|' :: r => some (1, .output, false, r)
  | '>' :: r => some (1, .output, false, r)
  | _ => none

/-- A redirection at the front, if one stands there. The lines of a here-document are taken out of
the rest. -/
def redirect? (p : Position) (s : ByteText) : Except ReadFault (Option (Redirect × ByteText)) :=
  let (number, afterNumber) := s.span isDigit
  let given := if number.isEmpty then none else some (digitsValue 0 number)
  match takeRedirectOperator afterNumber with
  | none => .ok none
  | some (default, kind, stripTabs, rest) => do
    let rest := skipBlanks rest
    let (target, rest) ← word p rest
    if target.isEmpty then unexpected p rest ""
    else if kind = .here then
      let (delimiter, quoted) := delimiterOf target
      let (line, below) := rest.span (· != '\n')
      let (body, below) := takeHere delimiter stripTabs (below.length + 1) (below.drop 1)
      let content ← if quoted then .ok [Part.text body true]
        else (parts p (2 * body.length + 2) .text true body).map Prod.fst
      .ok (some (⟨given.getD default, kind, content⟩, line ++ '\n' :: below))
    else .ok (some (⟨given.getD default, kind, target⟩, rest))

/-- All redirections at the front. -/
def redirects (p : Position) : Nat → ByteText → Except ReadFault (List Redirect × ByteText)
  | 0, s => .ok ([], s)
  | fuel + 1, s => do
    let s := skipBlanks s
    match ← redirect? p s with
    | none => .ok ([], s)
    | some (r, rest) => do
      let (more, rest) ← redirects p fuel rest
      .ok (r :: more, rest)

/-- The name and the beginning of the value if the word at the front is an assignment. -/
def assignmentName? (s : ByteText) : Option (ByteText × ByteText) :=
  match takeName s with
  | (name, '=' :: rest) => if name.isEmpty then none else some (name, rest)
  | _ => none

/-- The parts of a simple command. -/
structure SimpleParts where
  assignments : List (ByteText × Word) := []
  words : List Word := []
  redirects : List Redirect := []

/-- The rest of a simple command; assignments come before the words. -/
def simple (p : Position) : Nat → Bool → ByteText → Except ReadFault (SimpleParts × ByteText)
  | 0, _, s => .ok ({}, s)
  | fuel + 1, onlyAssignments, s => do
    let s := skipBlanks s
    match ← redirect? p s with
    | some (r, rest) => do
      let (more, rest) ← simple p fuel onlyAssignments rest
      .ok ({ more with redirects := r :: more.redirects }, rest)
    | none =>
      match if onlyAssignments then assignmentName? s else none with
      | some (name, value) => do
        let (w, rest) ← word p value
        let (more, rest) ← simple p fuel true rest
        .ok ({ more with assignments := (name, w) :: more.assignments }, rest)
      | none => do
        let (w, rest) ← word p s
        if w.isEmpty then .ok ({}, s)
        else do
          let (more, rest) ← simple p fuel false rest
          .ok ({ more with words := w :: more.words }, rest)

/-- A function name before its parentheses, and what follows them. -/
def functionName? (s : ByteText) : Option (ByteText × ByteText) :=
  let (name, rest) := takeName s
  if name.isEmpty then none
  else
    match skipBlanks rest with
    | '(' :: r =>
      match skipBlanks r with
      | ')' :: r => some (name, r)
      | _ => none
    | _ => none

/-- A reserved word that must stand at the front. -/
def demand (p : Position) (w : String) (s : ByteText) : Except ReadFault ByteText :=
  let s := skipBreaks (s.length + 1) s
  if startsWord w s then .ok (s.drop w.length)
  else unexpected p s w

/-- The words of a `for` loop up to the end of its line. -/
def wordList (p : Position) : Nat → ByteText → Except ReadFault (List Word × ByteText)
  | 0, s => .ok ([], s)
  | fuel + 1, s => do
    let s := skipBlanks s
    let (w, rest) ← word p s
    if w.isEmpty then .ok ([], s)
    else do
      let (more, rest) ← wordList p fuel rest
      .ok (w :: more, rest)

/-- The patterns of an arm of `case`, up to their parenthesis. -/
def patterns (p : Position) : Nat → ByteText → Except ReadFault (List Word × ByteText)
  | 0, s => unexpected p s ")"
  | fuel + 1, s => do
    let (w, rest) ← word p (skipBlanks s)
    match skipBlanks rest with
    | '|' :: r => do
      let (more, rest) ← patterns p fuel r
      .ok (w :: more, rest)
    | ')' :: r => .ok ([w], r)
    | r => unexpected p r ")"

mutual

/-- A list of commands. Only at the top level does a line break end it. -/
def commands (p : Position) (fuel : Nat) (oneLine : Bool) (s : ByteText) :
    Except ReadFault (Command × ByteText) :=
  match fuel with
  | 0 => fault p s "out of reach"
  | fuel + 1 => do
    let s := if oneLine then skipBlanks s else skipBreaks (s.length + 1) s
    if endsList s ∨ (oneLine ∧ s.head? = some '\n') then .ok (.nothing, s)
    else do
      let (c, rest) ← conditional p fuel s
      let goOn (c : Command) (rest : ByteText) : Except ReadFault (Command × ByteText) := do
        let (more, rest) ← commands p fuel oneLine rest
        match more with
        | .nothing => .ok (c, rest)
        | more => .ok (.sequence c more, rest)
      match skipBlanks rest with
      | ';' :: ';' :: r => .ok (c, ';' :: ';' :: r)
      | ';' :: r => goOn c r
      | '&' :: r => goOn (.background c) r
      | '\n' :: r => if oneLine then .ok (c, '\n' :: r) else goOn c r
      | r => .ok (c, r)

/-- Pipelines joined by `&&` and `||`. -/
def conditional (p : Position) (fuel : Nat) (s : ByteText) :
    Except ReadFault (Command × ByteText) :=
  match fuel with
  | 0 => fault p s "out of reach"
  | fuel + 1 => do
    let (c, rest) ← pipeline p fuel s
    conditionalRest p fuel c rest

def conditionalRest (p : Position) (fuel : Nat) (c : Command) (s : ByteText) :
    Except ReadFault (Command × ByteText) :=
  match fuel with
  | 0 => fault p s "out of reach"
  | fuel + 1 =>
    match skipBlanks s with
    | '&' :: '&' :: r => do
      let (d, rest) ← pipeline p fuel (skipBreaks (r.length + 1) r)
      conditionalRest p fuel (.both c d) rest
    | '|' :: '|' :: r => do
      let (d, rest) ← pipeline p fuel (skipBreaks (r.length + 1) r)
      conditionalRest p fuel (.either c d) rest
    | r => .ok (c, r)

def pipeline (p : Position) (fuel : Nat) (s : ByteText) : Except ReadFault (Command × ByteText) :=
  match fuel with
  | 0 => fault p s "out of reach"
  | fuel + 1 => do
    let s := skipBlanks s
    if startsWord "!" s then do
      let (c, rest) ← pipeline p fuel (s.drop 1)
      .ok (.negated c, rest)
    else do
      let (c, rest) ← single p fuel s
      let (more, rest) ← pipelineRest p fuel rest
      .ok (if more.isEmpty then c else .pipeline (c :: more), rest)

def pipelineRest (p : Position) (fuel : Nat) (s : ByteText) :
    Except ReadFault (List Command × ByteText) :=
  match fuel with
  | 0 => fault p s "out of reach"
  | fuel + 1 =>
    match skipBlanks s with
    | '|' :: '|' :: r => .ok ([], '|' :: '|' :: r)
    | '|' :: r => do
      let (c, rest) ← single p fuel (skipBreaks (r.length + 1) r)
      let (more, rest) ← pipelineRest p fuel rest
      .ok (c :: more, rest)
    | r => .ok ([], r)

/-- A simple command or a compound command with its redirections. -/
def single (p : Position) (fuel : Nat) (s : ByteText) : Except ReadFault (Command × ByteText) :=
  match fuel with
  | 0 => fault p s "out of reach"
  | fuel + 1 => do
    let s := skipBlanks s
    let line := p.lineAt s
    let finish (c : Command) (rest : ByteText) : Except ReadFault (Command × ByteText) := do
      let (rs, rest) ← redirects p (rest.length + 1) rest
      .ok (if rs.isEmpty then c else .redirected line c rs, rest)
    let plain := String.ofList (plainWord s)
    match s with
    | '(' :: r => do
      let (c, rest) ← commands p fuel false r
      match rest with
      | ')' :: rest => finish (.subshell c) rest
      | _ => unexpected p rest ")"
    | _ =>
      if plain = "\x7b" then do
        let (c, rest) ← commands p fuel false (s.drop 1)
        finish c (← demand p "\x7d" rest)
      else if plain = "if" then do
        let (c, rest) ← branch p fuel (s.drop 2)
        finish c rest
      else if plain = "while" ∨ plain = "until" then do
        let (condition, rest) ← commands p fuel false (s.drop 5)
        let (body, rest) ← commands p fuel false (← demand p "do" rest)
        finish (.loop (plain = "until") condition body) (← demand p "done" rest)
      else if plain = "for" then do
        let (name, rest) := takeName (skipBlanks (s.drop 3))
        if name.isEmpty then fault p rest "Bad for loop variable"
        let rest := skipBreaks (rest.length + 1) rest
        let (words, rest) ←
          if startsWord "in" rest then wordList p (rest.length + 1) (rest.drop 2)
          else .ok ([[.parameter ['@'] true]], rest)
        let rest := match skipBlanks rest with
          | ';' :: r => r
          | r => r
        let (body, rest) ← commands p fuel false (← demand p "do" rest)
        finish (.each line name words body) (← demand p "done" rest)
      else if plain = "case" then do
        let (w, rest) ← word p (skipBlanks (s.drop 4))
        let (arms, rest) ← caseArms p fuel (← demand p "in" rest)
        finish (.choose line w arms) rest
      else if closers.contains plain then unexpected p s ""
      else
        match functionName? s with
        | some (name, rest) => do
          let (body, rest) ← single p fuel (skipBreaks (rest.length + 1) rest)
          .ok (.define name body, rest)
        | none => do
          let (c, rest) ← simple p (2 * s.length + 2) true s
          match rest with
          | '(' :: r =>
            if c.assignments.isEmpty ∧ c.redirects.isEmpty ∧ c.words.length = 1 then
              unexpected p (skipBlanks r) ")"
          | _ => .ok ()
          if c.assignments.isEmpty ∧ c.words.isEmpty ∧ c.redirects.isEmpty then
            unexpected p rest ""
          else .ok (.simple line c.assignments c.words c.redirects, rest)

/-- What follows `if` or `elif`. -/
def branch (p : Position) (fuel : Nat) (s : ByteText) : Except ReadFault (Command × ByteText) :=
  match fuel with
  | 0 => fault p s "out of reach"
  | fuel + 1 => do
    let (condition, rest) ← commands p fuel false s
    let (thenDo, rest) ← commands p fuel false (← demand p "then" rest)
    let rest := skipBreaks (rest.length + 1) rest
    if startsWord "elif" rest then do
      let (elseDo, rest) ← branch p fuel (rest.drop 4)
      .ok (.branch condition thenDo elseDo, rest)
    else if startsWord "else" rest then do
      let (elseDo, rest) ← commands p fuel false (rest.drop 4)
      .ok (.branch condition thenDo elseDo, ← demand p "fi" rest)
    else .ok (.branch condition thenDo .nothing, ← demand p "fi" rest)

/-- The arms of `case` up to `esac`. -/
def caseArms (p : Position) (fuel : Nat) (s : ByteText) :
    Except ReadFault (List (List Word × Command) × ByteText) :=
  match fuel with
  | 0 => fault p s "out of reach"
  | fuel + 1 => do
    let s := skipBreaks (s.length + 1) s
    if startsWord "esac" s then .ok ([], s.drop 4)
    else if s.isEmpty then unexpected p s ")"
    else do
      let s := match s with
        | '(' :: r => r
        | s => s
      let (ps, rest) ← patterns p (s.length + 1) s
      let (body, rest) ← commands p fuel false rest
      let rest := skipBreaks (rest.length + 1) rest
      match rest with
      | ';' :: ';' :: r => do
        let (more, rest) ← caseArms p fuel r
        .ok ((ps, body) :: more, rest)
      | _ => do
        let rest ← demand p "esac" rest
        .ok ([(ps, body)], rest)

end

/-- The commands on the next line, the rest of the script, and its line number. -/
def nextLine (line : Nat) (s : ByteText) : Except ReadFault (Command × ByteText × Nat) := do
  let p : Position := ⟨line, countBreaks s⟩
  let (c, rest) ← commands p (8 * s.length + 16) true s
  match rest with
  | [] => .ok (c, [], p.lineAt [])
  | '\n' :: r => .ok (c, r, p.lineAt r)
  | r => unexpected p r ""

end Reader

end FirmwareJobs.Shell

import FirmwareJobs.Text.ByteText

/-! # Shell commands

A word is a row of parts, each quoted or not. Commands nest in the usual ways. A command
substitution keeps its source text, which is read when it runs.
-/

namespace FirmwareJobs.Shell

open Text

/-- What `${name…}` does with the value of the parameter. -/
inductive Modifier where
  | orElse
  | assign
  | demand
  | instead
  | dropStart (longest : Bool)
  | dropEnd (longest : Bool)
  deriving Repr, DecidableEq

/-- A part of a word. `colon` says that an empty value counts as missing, too. -/
inductive Part where
  | text (s : ByteText) (quoted : Bool)
  | parameter (name : ByteText) (quoted : Bool)
  | length (name : ByteText) (quoted : Bool)
  | modified (name : ByteText) (colon : Bool) (modifier : Modifier) (word : List Part)
      (quoted : Bool)
  | command (source : ByteText) (quoted : Bool)
  | output (s : ByteText) (quoted : Bool)
  | arithmetic (body : List Part) (quoted : Bool)

abbrev Word := List Part

inductive RedirectKind where
  | input
  | output
  | append
  | duplicate
  | here
  deriving Repr, DecidableEq

structure Redirect where
  descriptor : Nat
  kind : RedirectKind
  target : Word

inductive Command where
  | nothing
  | simple (line : Nat) (assignments : List (ByteText × Word)) (words : List Word)
      (redirects : List Redirect)
  | pipeline (commands : List Command)
  | negated (c : Command)
  | both (a b : Command)
  | either (a b : Command)
  | sequence (a b : Command)
  | background (c : Command)
  | subshell (c : Command)
  | branch (condition thenDo elseDo : Command)
  | loop (isUntil : Bool) (condition body : Command)
  | each (line : Nat) (name : ByteText) (words : List Word) (body : Command)
  | choose (line : Nat) (word : Word) (arms : List (List Word × Command))
  | define (name : ByteText) (body : Command)
  | redirected (line : Nat) (c : Command) (redirects : List Redirect)

instance : Inhabited Part := ⟨.text [] false⟩

instance : Inhabited Command := ⟨.nothing⟩

end FirmwareJobs.Shell

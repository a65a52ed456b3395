/-! # Terminal escape sequences

A sequence is ESC followed by one character of `@` to `Z` or `\` to `_`, or a control sequence:
ESC `[`, parameter characters, intermediate characters and one final character. The three classes
of a control sequence are disjoint, so a sequence at a given place has only one possible end.
-/

namespace FirmwareJobs.Capture.Escape

def esc : Char := '\x1b'

def isSingle (c : Char) : Bool := ('@' ≤ c && c ≤ 'Z') || ('\\' ≤ c && c ≤ '_')

def isParameter (c : Char) : Bool := '0' ≤ c && c ≤ '?'

def isIntermediate (c : Char) : Bool := ' ' ≤ c && c ≤ '/'

def isFinal (c : Char) : Bool := '@' ≤ c && c ≤ '~'

/-- What follows the body of a control sequence that starts here. -/
def afterControl? (s : List Char) : Option (List Char) :=
  match (s.dropWhile isParameter).dropWhile isIntermediate with
  | c :: r => if isFinal c then some r else none
  | [] => none

/-- What follows the escape sequence that starts here, if one does. -/
def after? : List Char → Option (List Char)
  | a :: b :: r =>
    if a = esc then
      if isSingle b then some r
      else if b = '[' then afterControl? r
      else none
    else none
  | _ => none

theorem length_afterControl? {s r : List Char} (h : afterControl? s = some r) :
    r.length < s.length := by
  unfold afterControl? at h
  split at h
  · next c t heq =>
    split at h
    · cases h
      have h1 := ((List.dropWhile_suffix isIntermediate).length_le :
        ((s.dropWhile isParameter).dropWhile isIntermediate).length ≤ _)
      have h2 := (List.dropWhile_suffix (l := s) isParameter).length_le
      rw [heq] at h1
      simp only [List.length_cons] at h1
      omega
    · cases h
  · cases h

theorem length_after? {s r : List Char} (h : after? s = some r) : r.length < s.length := by
  unfold after? at h
  split at h
  · split at h
    · split at h
      · cases h; simp only [List.length_cons]; omega
      · split at h
        · have := length_afterControl? h
          simp only [List.length_cons]; omega
        · cases h
    · cases h
  · cases h

/-- The text without its escape sequences, found from left to right without overlap. -/
def strip : List Char → List Char
  | [] => []
  | c :: s =>
    match _h : after? (c :: s) with
    | some r => strip r
    | none => c :: strip s
termination_by s => s.length
decreasing_by
  · exact length_after? _h
  · simp

@[simp] theorem strip_nil : strip [] = [] := by rw [strip]

theorem strip_of_after? {s r : List Char} (h : after? s = some r) : strip s = strip r := by
  match s with
  | [] => simp [after?] at h
  | c :: t =>
    rw [strip]
    split
    · next r' h' => rw [h] at h'; cases h'; rfl
    · next h' => rw [h] at h'; cases h'

theorem strip_cons_of_none {c : Char} {s : List Char} (h : after? (c :: s) = none) :
    strip (c :: s) = c :: strip s := by
  rw [strip]
  split
  · next r h' => rw [h] at h'; cases h'
  · rfl

end FirmwareJobs.Capture.Escape

import FirmwareJobs.Text.Utf8

/-! # Reading JSON tokens from bytes

A reader takes a value off the front of the bytes or reports the first failure met from left to
right: the text ends too early, it is not JSON, or it is JSON of the wrong type or value.
-/

namespace FirmwareJobs.Json

inductive Failure where
  | truncated
  | malformed
  | mismatched
  deriving Repr, DecidableEq

abbrev Bytes := List UInt8

abbrev Reader (α : Type) := Bytes → Except Failure (α × Bytes)

def quote : UInt8 := 0x22
def backslash : UInt8 := 0x5C
def comma : UInt8 := 0x2C
def colon : UInt8 := 0x3A
def minus : UInt8 := 0x2D
def point : UInt8 := 0x2E
def openList : UInt8 := 0x5B
def closeList : UInt8 := 0x5D
def openObject : UInt8 := 0x7B
def closeObject : UInt8 := 0x7D
def letterU : UInt8 := 0x75
def letterN : UInt8 := 0x6E
def letterT : UInt8 := 0x74
def letterF : UInt8 := 0x66

def isBlank (b : UInt8) : Bool := b == 0x20 || b == 0x0A || b == 0x09 || b == 0x0D

def isDigit (b : UInt8) : Bool := 0x30 ≤ b && b ≤ 0x39

def isExponentMark (b : UInt8) : Bool := b == 0x65 || b == 0x45

def skipBlank (s : Bytes) : Bytes := s.dropWhile isBlank

/-- The rest of a literal name, after its first letter. -/
def word : Bytes → Bytes → Except Failure Bytes
  | [], s => .ok s
  | _ :: _, [] => .error .truncated
  | a :: w, b :: s => if a = b then word w s else .error .malformed

def afterNull (s : Bytes) : Except Failure Bytes := word [0x75, 0x6C, 0x6C] s
def afterTrue (s : Bytes) : Except Failure Bytes := word [0x72, 0x75, 0x65] s
def afterFalse (s : Bytes) : Except Failure Bytes := word [0x61, 0x6C, 0x73, 0x65] s

def hexValue? (b : UInt8) : Option Nat :=
  if isDigit b then some (b.toNat % 16)
  else if (0x41 ≤ b && b ≤ 0x46) || (0x61 ≤ b && b ≤ 0x66) then some (b.toNat % 16 + 9)
  else none

/-- The four hexadecimal digits of a `\u` escape. -/
def hexQuad : Bytes → Except Failure (Nat × Bytes)
  | a :: b :: c :: d :: r =>
    match hexValue? a, hexValue? b, hexValue? c, hexValue? d with
    | some a, some b, some c, some d => .ok (((a * 16 + b) * 16 + c) * 16 + d, r)
    | _, _, _, _ => .error .malformed
  | _ => .error .truncated

def isHighSurrogate (n : Nat) : Bool := 0xD800 ≤ n && n < 0xDC00
def isLowSurrogate (n : Nat) : Bool := 0xDC00 ≤ n && n < 0xE000

/-- The byte that a one-letter escape stands for. -/
def simpleEscape? (b : UInt8) : Option UInt8 :=
  if b = quote ∨ b = backslash ∨ b = 0x2F then some b
  else if b = 0x62 then some 0x08
  else if b = 0x66 then some 0x0C
  else if b = 0x6E then some 0x0A
  else if b = 0x72 then some 0x0D
  else if b = 0x74 then some 0x09
  else none

/-- One expected byte. -/
def expect (b : UInt8) : Bytes → Except Failure Bytes
  | [] => .error .truncated
  | c :: r => if c = b then .ok r else .error .malformed

/-- The bytes that an escape denotes, read after its backslash. Surrogates must come in pairs. -/
def escape : Reader Bytes
  | [] => .error .truncated
  | b :: r =>
    match simpleEscape? b with
    | some c => .ok ([c], r)
    | none =>
      if b ≠ letterU then .error .malformed
      else do
        let (n, r) ← hexQuad r
        if isLowSurrogate n then .error .malformed
        else if isHighSurrogate n then do
          let (m, r) ← hexQuad (← expect letterU (← expect backslash r))
          if isLowSurrogate m then
            .ok (String.utf8EncodeChar
              (Char.ofNat (0x10000 + (n % 1024) * 1024 + m % 1024)), r)
          else .error .malformed
        else .ok (String.utf8EncodeChar (Char.ofNat n), r)

/-- What follows an escape in a string that is not looked at; surrogates may stand alone. -/
def skipEscape : Bytes → Except Failure Bytes
  | [] => .error .truncated
  | b :: r =>
    if (simpleEscape? b).isSome then .ok r
    else if b ≠ letterU then .error .malformed
    else (hexQuad r).map Prod.snd

theorem length_hexQuad {s r : Bytes} {n : Nat} (h : hexQuad s = .ok (n, r)) :
    r.length < s.length := by
  unfold hexQuad at h
  split at h
  · split at h
    · cases h; simp only [List.length_cons]; omega
    · cases h
  · cases h

theorem length_expect {b : UInt8} {s r : Bytes} (h : expect b s = .ok r) :
    r.length < s.length := by
  unfold expect at h
  split at h
  · cases h
  · split at h
    · cases h; simp
    · cases h

theorem length_skipEscape {s r : Bytes} (h : skipEscape s = .ok r) : r.length < s.length := by
  unfold skipEscape at h
  split at h
  · cases h
  · split at h
    · cases h; simp
    · split at h
      · cases h
      · next t _ _ =>
        match hq : hexQuad t with
        | .error e => simp [hq, Except.map] at h
        | .ok (n, q) =>
          have := length_hexQuad hq
          simp only [hq, Except.map, Except.ok.injEq] at h
          subst h
          simp only [List.length_cons]; omega

theorem length_escape {s r x : Bytes} (h : escape s = .ok (x, r)) : r.length < s.length := by
  unfold escape at h
  split at h
  · cases h
  · next b t =>
    split at h
    · cases h; simp
    · split at h
      · cases h
      · match hq : hexQuad t with
        | .error e => simp [hq, bind, Except.bind] at h
        | .ok (n, q) =>
          have h1 := length_hexQuad hq
          simp only [hq, bind, Except.bind] at h
          split at h
          · cases h
          · split at h
            · match hb : expect backslash q with
              | .error e => simp [hb] at h
              | .ok q1 =>
                have h2 := length_expect hb
                simp only [hb] at h
                match hu : expect letterU q1 with
                | .error e => simp [hu] at h
                | .ok q2 =>
                  have h3 := length_expect hu
                  simp only [hu] at h
                  match hm : hexQuad q2 with
                  | .error e => simp [hm] at h
                  | .ok (m, q3) =>
                    have h4 := length_hexQuad hm
                    simp only [hm] at h
                    split at h
                    · cases h; simp only [List.length_cons]; omega
                    · cases h
            · cases h; simp only [List.length_cons]; omega

/-- The content of a string up to its closing quote, escapes resolved. -/
def stringBody : Reader Bytes
  | [] => .error .truncated
  | b :: r =>
    if b = quote then .ok ([], r)
    else if b = backslash then
      match _h : escape r with
      | .error e => .error e
      | .ok (x, r') => (stringBody r').map fun (y, rest) => (x ++ y, rest)
    else if b < 0x20 then .error .malformed
    else (stringBody r).map fun (y, rest) => (b :: y, rest)
termination_by s => s.length
decreasing_by
  · have := length_escape _h
    simp only [List.length_cons]; omega
  · simp

/-- What follows a string that is not looked at. Its bytes need not be UTF-8. -/
def skipString : Bytes → Except Failure Bytes
  | [] => .error .truncated
  | b :: r =>
    if b = quote then .ok r
    else if b = backslash then
      match _h : skipEscape r with
      | .error e => .error e
      | .ok r' => skipString r'
    else if b < 0x20 then .error .malformed
    else skipString r
termination_by s => s.length
decreasing_by
  · have := length_skipEscape _h
    simp only [List.length_cons]; omega
  · simp

/-- A string read after its opening quote. Its bytes must be UTF-8. -/
def stringRest : Reader String := fun s => do
  let (x, r) ← stringBody s
  match Text.Utf8.decode? x with
  | some cs => .ok (String.ofList cs, r)
  | none => .error .malformed

end FirmwareJobs.Json

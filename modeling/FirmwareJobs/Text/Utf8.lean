/-! # UTF-8 in both directions

Decoding runs an automaton over the bytes. Between characters it waits for a lead byte; inside a
character it knows how many continuation bytes are missing, the range allowed for the next one
and the bits read so far. A byte that cannot continue ends the character as malformed and is
looked at again as a lead byte, so each maximal malformed part is reported once.
-/

namespace FirmwareJobs.Text.Utf8

/-- A character begun but not finished. -/
structure Partial where
  missing : Nat
  low : UInt8
  high : UInt8
  bits : Nat
  deriving Repr, DecidableEq

/-- The outcome of one byte: a decoded character, or `none` for a malformed part. -/
abbrev Unit := Option Char

/-- A byte seen between characters. -/
def lead (b : UInt8) : List Unit × Option Partial :=
  if b < 0x80 then ([some (Char.ofNat b.toNat)], none)
  else if b < 0xC2 then ([none], none)
  else if b < 0xE0 then ([], some ⟨1, 0x80, 0xBF, b.toNat % 32⟩)
  else if b == 0xE0 then ([], some ⟨2, 0xA0, 0xBF, 0⟩)
  else if b == 0xED then ([], some ⟨2, 0x80, 0x9F, 13⟩)
  else if b < 0xF0 then ([], some ⟨2, 0x80, 0xBF, b.toNat % 16⟩)
  else if b == 0xF0 then ([], some ⟨3, 0x90, 0xBF, 0⟩)
  else if b < 0xF4 then ([], some ⟨3, 0x80, 0xBF, b.toNat % 8⟩)
  else if b == 0xF4 then ([], some ⟨3, 0x80, 0x8F, 4⟩)
  else ([none], none)

/-- One byte from the state between two bytes. -/
def step (state : Option Partial) (b : UInt8) : List Unit × Option Partial :=
  match state with
  | none => lead b
  | some p =>
    if p.low ≤ b && b ≤ p.high then
      let bits := p.bits * 64 + b.toNat % 64
      if p.missing ≤ 1 then ([some (Char.ofNat bits)], none)
      else ([], some ⟨p.missing - 1, 0x80, 0xBF, bits⟩)
    else
      let (units, next) := lead b
      (none :: units, next)

/-- What an unfinished character leaves behind at the end of the bytes. -/
def flush : Option Partial → List Unit
  | none => []
  | some _ => [none]

/-- All units of the bytes, from a given state to the end. -/
def scanFrom : Option Partial → List UInt8 → List Unit
  | state, [] => flush state
  | state, b :: r => (step state b).1 ++ scanFrom (step state b).2 r

def scan (bytes : List UInt8) : List Unit := scanFrom none bytes

/-- Every malformed part becomes one REPLACEMENT CHARACTER. -/
def decodeLossy (bytes : List UInt8) : List Char := (scan bytes).map (·.getD '\ufffd')

/-- The text of well-formed bytes. -/
def decode? (bytes : List UInt8) : Option (List Char) := (scan bytes).mapM id

def encode (s : List Char) : List UInt8 := s.flatMap String.utf8EncodeChar

def lossyString (bytes : List UInt8) : String := String.ofList (decodeLossy bytes)

def ofString (s : String) : List UInt8 := encode s.toList

@[simp] theorem encode_nil : encode [] = [] := rfl

@[simp] theorem encode_append (s t : List Char) : encode (s ++ t) = encode s ++ encode t := by
  simp [encode]

@[simp] theorem scan_nil : scan [] = [] := rfl

theorem scanFrom_cons (state : Option Partial) (b : UInt8) (r : List UInt8) :
    scanFrom state (b :: r) = (step state b).1 ++ scanFrom (step state b).2 r := rfl

/-- An ASCII byte always stands for itself and leaves no character unfinished. -/
theorem step_ascii (state : Option Partial) {b : UInt8} (h : b < 0x80)
    (hp : ∀ p, state = some p → 0x80 ≤ p.low) :
    step state b = (flush state ++ [some (Char.ofNat b.toNat)], none) := by
  cases state with
  | none => simp [step, lead, flush, h]
  | some p =>
    have hlow : ¬ p.low ≤ b := fun hle => by
      have := hp p rfl
      simp only [UInt8.le_iff_toNat_le, UInt8.lt_iff_toNat_lt] at *
      omega
    simp [step, lead, flush, h, hlow]

end FirmwareJobs.Text.Utf8

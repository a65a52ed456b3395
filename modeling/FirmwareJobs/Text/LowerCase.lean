/-! # Lower case for ASCII searches

`lower` agrees with full Unicode lower-casing wherever the result is ASCII: besides the ASCII
capitals only KELVIN SIGN becomes an ASCII letter, and LATIN CAPITAL LETTER I WITH DOT ABOVE
becomes an ASCII letter followed by a combining dot. Every other character is kept, which is
enough to compare or search text for an ASCII word.
-/

namespace FirmwareJobs.Text

def lowerChar (c : Char) : List Char :=
  if 'A' ≤ c ∧ c ≤ 'Z' then [Char.ofNat (c.toNat + 32)]
  else if c = '\u212a' then ['k']
  else if c = '\u0130' then ['i', '\u0307']
  else [c]

def lower (s : List Char) : List Char := s.flatMap lowerChar

/-- Lower case of ASCII capitals only. -/
def lowerAscii (s : List Char) : List Char := s.map Char.toLower

/-- Whether `word` occurs in `s` as a contiguous block. -/
def occurs (word : List Char) : List Char → Bool
  | [] => word.isEmpty
  | s@(_ :: r) => word.isPrefixOf s || occurs word r

end FirmwareJobs.Text

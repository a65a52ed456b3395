/-! # White space around text

The blank characters are those with the Unicode property `White_Space`. Trimming removes them
from both ends and keeps every blank inside.
-/

namespace FirmwareJobs.Text

/-- Unicode `White_Space`. -/
def isBlank (c : Char) : Bool :=
  let n := c.toNat
  (9 ≤ n && n ≤ 13) || n == 0x20 || n == 0x85 || n == 0xA0 || n == 0x1680 ||
    (0x2000 ≤ n && n ≤ 0x200A) || n == 0x2028 || n == 0x2029 || n == 0x202F || n == 0x205F ||
    n == 0x3000

/-- Drop the longest prefix and the longest suffix whose characters all satisfy `p`. -/
def stripWhile (p : Char → Bool) (s : List Char) : List Char :=
  ((s.dropWhile p).reverse.dropWhile p).reverse

def trimStart (s : List Char) : List Char := s.dropWhile isBlank

def trim (s : List Char) : List Char := stripWhile isBlank s

end FirmwareJobs.Text

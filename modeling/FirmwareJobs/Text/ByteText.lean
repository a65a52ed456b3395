import FirmwareJobs.Text.Utf8

/-! # Text of bytes

Programs work on bytes that need not be UTF-8. In a text of bytes each character stands for the
byte with its code.
-/

namespace FirmwareJobs.Text

abbrev ByteText := List Char

namespace ByteText

def ofBytes (bytes : List UInt8) : ByteText := bytes.map fun b => Char.ofNat b.toNat

def toBytes (s : ByteText) : List UInt8 := s.map fun c => UInt8.ofNat c.toNat

def ofString (s : String) : ByteText := ofBytes (Utf8.ofString s)

/-- The characters that the bytes encode. -/
def toString (s : ByteText) : String := Utf8.lossyString (toBytes s)

end ByteText

end FirmwareJobs.Text

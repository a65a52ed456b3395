import FirmwareJobs.Text.Decimal
import FirmwareJobs.Text.Unprintable

/-! # Text quoted for a message

A quoted text stands between double quotes. The quote and the backslash are escaped, tab, newline,
carriage return and NUL have short forms, and whatever is not printable or would merge with the
character before it is written by its code point.
-/

namespace FirmwareJobs.Text

def quotedChar (c : Char) : List Char :=
  if c = '\x00' then ['\\', '0']
  else if c = '\t' then ['\\', 't']
  else if c = '\r' then ['\\', 'r']
  else if c = '\n' then ['\\', 'n']
  else if c = '\x22' ∨ c = '\\' then ['\\', c]
  else if isExtending c || !isPrintable c then
    ['\\', 'u', '\x7b'] ++ hexDigits c.toNat ++ ['\x7d']
  else [c]

def quoted (s : String) : String :=
  String.ofList ('\x22' :: s.toList.flatMap quotedChar ++ ['\x22'])

end FirmwareJobs.Text

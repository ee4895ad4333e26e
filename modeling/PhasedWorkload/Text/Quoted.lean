import PhasedWorkload.Text.Escaped
import PhasedWorkload.Text.Hex

/-! # Quoted text

Names and texts inside messages are written between double quotes. The quote, the backslash and the
usual control characters have a short escape; every other character that cannot be shown is written
as its hexadecimal code point in braces.
-/
namespace PhasedWorkload.Text

def quotedChar (c : Char) : String :=
  if c = '\x00' then "\\0"
  else if c = '\t' then "\\t"
  else if c = '\r' then "\\r"
  else if c = '\n' then "\\n"
  else if c = '"' then "\\\""
  else if c = '\\' then "\\\\"
  else if isEscaped c then "\\u\x7b" ++ hexDigits c.toNat ++ "\x7d"
  else String.singleton c

def quoted (s : String) : String :=
  "\"" ++ String.join (s.toList.map quotedChar) ++ "\""

/-- Quoted texts in brackets, separated by commas. -/
def quotedList (items : List String) : String :=
  "[" ++ ", ".intercalate (items.map quoted) ++ "]"

end PhasedWorkload.Text

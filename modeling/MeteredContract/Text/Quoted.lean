import MeteredContract.Text.Combining
import MeteredContract.Text.Hex
import MeteredContract.Text.Unprintable

/-!
Quoted text: a string between double quotes, in which the quote, the backslash and every character
that could not be read back by eye are escaped.
-/

set_option autoImplicit false
set_option relaxedAutoImplicit false

namespace MeteredContract.Quoted

/-- Combining and unprintable characters are written by their code point. -/
def escape (c : Char) : String :=
  if c = '\x00' then "\\0"
  else if c = '\t' then "\\t"
  else if c = '\r' then "\\r"
  else if c = '\n' then "\\n"
  else if c = '"' then "\\\""
  else if c = '\\' then "\\\\"
  else if Text.isCombining c || Text.isUnprintable c then "\\u\x7b" ++ Hex.ofNat c.toNat ++ "\x7d"
  else c.toString

def ofString (s : String) : String := "\"" ++ String.join (s.toList.map escape) ++ "\""

end MeteredContract.Quoted

import InDoubt.Text.Hex
import InDoubt.Text.Printable

/-!
Text between double quotes, as messages and descriptions show it. The quote and the backslash are
escaped, four controls have a short form, and any other character that does not print is written by
its code point.
-/

namespace InDoubt.Text

/-- How one character is written inside the quotes. -/
def escape (c : Char) : List Char :=
  if c = '"' then ['\\', '"']
  else if c = '\\' then ['\\', '\\']
  else if c = '\n' then ['\\', 'n']
  else if c = '\r' then ['\\', 'r']
  else if c = '\t' then ['\\', 't']
  else if c = '\x00' then ['\\', '0']
  else if isPrintable c then [c]
  else ['\\', 'u', '{'] ++ Hex.ofNat c.toNat ++ ['}']

def quoted (s : String) : String :=
  String.ofList ('"' :: s.toList.flatMap escape ++ ['"'])

end InDoubt.Text

import Turnstile.Text.Unprintable

/-!
# Quoted text

A string between double quotes. The quote and the backslash carry a backslash,
tab, line feed, carriage return and the null character have short names, and
every other unprintable character is written by its code point in hexadecimal.
-/

namespace Turnstile.Text

/-- One character of a quoted string. -/
def escaped (c : Char) : List Char :=
  if c = '"' then ['\\', '"']
  else if c = '\\' then ['\\', '\\']
  else if c = '\n' then ['\\', 'n']
  else if c = '\t' then ['\\', 't']
  else if c = '\r' then ['\\', 'r']
  else if c.toNat = 0 then ['\\', '0']
  else if isUnprintable c then
    ['\\', 'u', '\x7b'] ++ Nat.toDigits 16 c.toNat ++ ['\x7d']
  else [c]

def quoted (s : String) : String :=
  String.ofList ('"' :: (s.toList.flatMap escaped ++ ['"']))

end Turnstile.Text

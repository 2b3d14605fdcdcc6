import Rill.Text.Unprintable

/-!
# Quoted text

A text in double quotes, on one line and readable back.

* The quote, the backslash, newline, carriage return, tab and the null character have short escapes.
* A character that would not show on its own (`Unprintable`) is written as its hexadecimal number.
* All other characters stand for themselves.
-/

namespace Rill.Text

/-- One character inside quotes. -/
def quotedChar (c : Char) : List Char :=
  if c = '\x00' then ['\\', '0']
  else if c = '\t' then ['\\', 't']
  else if c = '\r' then ['\\', 'r']
  else if c = '\n' then ['\\', 'n']
  else if c = '\\' then ['\\', '\\']
  else if c = '"' then ['\\', '"']
  else if isUnprintable c then
    ['\\', 'u', '\x7b'] ++ Nat.toDigits 16 c.toNat ++ ['\x7d']
  else [c]

/-- The text in double quotes. -/
def quoted (text : String) : String :=
  "\"" ++ String.ofList (text.toList.flatMap quotedChar) ++ "\""

end Rill.Text

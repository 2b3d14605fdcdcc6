import Rill.Text.Decimal

/-!
# JSON text

Values of the JSON format, without fractions and negative numbers, and their text over several lines.

* Every item of a list and every field of an object has a line of its own, two spaces deeper than the
  brackets around it; an empty list or object stays on one line.
* Fields keep the order in which they are given.
* In strings the quote, the backslash and the control characters are escaped, the common ones by a
  letter and the others by four hexadecimal digits; everything else stands for itself.
-/

namespace Rill.Text

/-- A JSON value. -/
inductive Json where
  | bool (value : Bool)
  | number (value : Nat)
  | string (value : String)
  | list (items : List Json)
  | object (fields : List (String × Json))

namespace Json

/-- One character inside a JSON string. -/
def escapeChar (c : Char) : List Char :=
  if c = '"' then ['\\', '"']
  else if c = '\\' then ['\\', '\\']
  else if c = '\x08' then ['\\', 'b']
  else if c = '\x0c' then ['\\', 'f']
  else if c = '\n' then ['\\', 'n']
  else if c = '\r' then ['\\', 'r']
  else if c = '\t' then ['\\', 't']
  else if c.toNat < 0x20 then
    let digits := Nat.toDigits 16 c.toNat
    ['\\', 'u'] ++ List.replicate (4 - digits.length) '0' ++ digits
  else [c]

/-- A JSON string with its quotes. -/
def quote (text : String) : String :=
  "\"" ++ String.ofList (text.toList.flatMap escapeChar) ++ "\""

/-- The start of a line at the given depth. -/
def newLine (depth : Nat) : String :=
  "\n" ++ String.join (List.replicate depth "  ")

mutual

/-- The text of a value whose lines after the first start at the given depth. -/
def renderAt (depth : Nat) : Json → String
  | bool true => "true"
  | bool false => "false"
  | number value => decimal value
  | string value => quote value
  | list [] => "[]"
  | list items => "[" ++ renderItems (depth + 1) items ++ newLine depth ++ "]"
  | object [] => "\x7b\x7d"
  | object fields => "\x7b" ++ renderFields (depth + 1) fields ++ newLine depth ++ "\x7d"

/-- The items of a list, each on a line of its own. -/
def renderItems (depth : Nat) : List Json → String
  | [] => ""
  | [item] => newLine depth ++ renderAt depth item
  | item :: items => newLine depth ++ renderAt depth item ++ "," ++ renderItems depth items

/-- The fields of an object, each on a line of its own. -/
def renderFields (depth : Nat) : List (String × Json) → String
  | [] => ""
  | [(name, value)] => newLine depth ++ quote name ++ ": " ++ renderAt depth value
  | (name, value) :: fields =>
      newLine depth ++ quote name ++ ": " ++ renderAt depth value ++ "," ++
        renderFields depth fields

end

/-- The text of a value. -/
def render (value : Json) : String :=
  value.renderAt 0

end Json

end Rill.Text

import Rill.Text.Decimal

/-!
# Styled text

A style is an emphasis, a colour or both. On a terminal with colours the text stands between an
opening sequence and a reset; without colours it is left as it is.

A reset inside the text would end the style too early, so the opening sequence is repeated after it.
-/

namespace Rill.Text

/-- Colours of text. -/
inductive Color where
  | red
  | green
  | yellow
  | blue
  | cyan
deriving DecidableEq, Repr

/-- Ways to emphasise text. -/
inductive Emphasis where
  | bold
  | dimmed
  | underline
deriving DecidableEq, Repr

/-- How a text is shown. -/
structure Style where
  emphasis : Option Emphasis
  color : Option Color
deriving DecidableEq, Repr

/-- The code of a colour. -/
def Color.code : Color → Nat
  | red => 31
  | green => 32
  | yellow => 33
  | blue => 34
  | cyan => 36

/-- The code of an emphasis. -/
def Emphasis.code : Emphasis → Nat
  | bold => 1
  | dimmed => 2
  | underline => 4

namespace Style

/-- The sequence that ends every style. -/
def reset : List Char := ['\x1b', '[', '0', 'm']

/-- The sequence that begins the style: the emphasis's code, then the colour's. -/
def opening (style : Style) : List Char :=
  let codes := (style.emphasis.map Emphasis.code).toList ++ (style.color.map Color.code).toList
  ['\x1b', '['] ++ (String.intercalate ";" (codes.map decimal)).toList ++ ['m']

/-- Repeats the opening sequence after every reset in a text. -/
def resume (opening : List Char) : List Char → List Char
  | '\x1b' :: '[' :: '0' :: 'm' :: rest => reset ++ opening ++ resume opening rest
  | c :: rest => c :: resume opening rest
  | [] => []

/-- The text in the style, or the text alone when colours are off. -/
def paint (style : Style) (colored : Bool) (text : String) : String :=
  if colored then
    String.ofList (style.opening ++ resume style.opening text.toList ++ reset)
  else text

/-- A colour alone. -/
def ofColor (color : Color) : Style :=
  ⟨none, some color⟩

/-- A bold colour. -/
def ofBold (color : Color) : Style :=
  ⟨some .bold, some color⟩

/-- An emphasis alone. -/
def ofEmphasis (emphasis : Emphasis) : Style :=
  ⟨some emphasis, none⟩

end Style

/-- Puts spaces before a text until it has the given width. -/
def padLeft (width : Nat) (text : String) : String :=
  String.ofList (List.replicate (width - text.length) ' ') ++ text

/-- Puts spaces after a text until it has the given width. -/
def padRight (width : Nat) (text : String) : String :=
  text ++ String.ofList (List.replicate (width - text.length) ' ')

/-- A text of spaces. -/
def spaces (width : Nat) : String :=
  String.ofList (List.replicate width ' ')

end Rill.Text

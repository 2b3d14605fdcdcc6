import Rill.Token

/-!
# From text to lexemes

A source is cut from left to right into lexemes and lexical errors.

* Blanks (space, tab, carriage return, newline, form feed) and comments from `//` to the end of the
  line separate lexemes and are dropped.
* A word is a letter or underscore followed by letters, digits and underscores, as long as possible;
  four words are reserved, every other one is an identifier.
* A number is a digit followed by digits and underscores, as long as possible. It must stay below
  2^64; a larger one is an error that covers the whole number.
* `::` and `->` are taken whole. A character that starts nothing is an error of its own.
* Reading stops after the twentieth error, so nothing behind it is looked at.
-/

namespace Rill

/-! ## Lexical errors -/

/-- Why a piece of text is no lexeme. -/
inductive LexErrorKind where
  | unexpectedChar (found : Char)
  | invalidNumber
deriving DecidableEq, Repr

/-- A lexical error and the bytes it covers. -/
structure LexError where
  kind : LexErrorKind
  span : Span
deriving DecidableEq, Repr

namespace LexError

/-- What went wrong. -/
def message (error : LexError) : String :=
  match error.kind with
  | .unexpectedChar found => "unexpected character '" ++ String.singleton found ++ "'"
  | .invalidNumber => "integer literal does not fit in u64"

/-- How to mend it, when there is something to say. -/
def hint? (error : LexError) : Option String :=
  match error.kind with
  | .unexpectedChar _ => none
  | .invalidNumber => some ("the largest u64 is " ++ Text.decimal (UInt64.size - 1))

end LexError

namespace Lexer

/-! ## Character classes -/

/-- What a character can begin. -/
inductive CharClass where
  | blank
  | digit
  | letter
  | slash
  | dash
  | colon
  | symbol (token : Token)
  | other
deriving DecidableEq, Repr

/-- Space, tab, carriage return, newline and form feed. -/
def isBlank (c : Char) : Bool :=
  c == ' ' || c == '\t' || c == '\r' || c == '\n' || c == '\x0c'

/-- An ASCII digit. -/
def isDigit (c : Char) : Bool :=
  '0' ≤ c && c ≤ '9'

/-- An ASCII letter or an underscore. -/
def isLetter (c : Char) : Bool :=
  ('a' ≤ c && c ≤ 'z') || ('A' ≤ c && c ≤ 'Z') || c == '_'

/-- A character that can continue a number. -/
def continuesNumber (c : Char) : Bool :=
  isDigit c || c == '_'

/-- A character that can continue a word. -/
def continuesWord (c : Char) : Bool :=
  isLetter c || isDigit c

/-- The tokens that are one character and begin nothing longer. -/
def symbol? (c : Char) : Option Token :=
  match c with
  | '=' => some .equals
  | '+' => some .plus
  | '(' => some (.opening .paren)
  | ')' => some (.closing .paren)
  | '\x7b' => some (.opening .brace)
  | '\x7d' => some (.closing .brace)
  | ',' => some .comma
  | ';' => some .semicolon
  | _ => none

/-- The class of a character; the classes do not overlap. -/
def classify (c : Char) : CharClass :=
  if isBlank c then .blank
  else if isDigit c then .digit
  else if isLetter c then .letter
  else if c == '/' then .slash
  else if c == '-' then .dash
  else if c == ':' then .colon
  else match symbol? c with
    | some token => .symbol token
    | none => .other

/-! ## Words and numbers -/

/-- The token of a whole word. -/
def wordToken (word : String) : Token :=
  if word = "void" then .void
  else if word = "u64" then .u64
  else if word = "return" then .returnWord
  else if word = "print_u64" then .printWord
  else .ident word

/-- The number denoted by decimal digits; underscores between them say nothing. -/
def numberValue (cs : List Char) : Nat :=
  (cs.filter (· != '_')).foldl (fun value c => 10 * value + (c.toNat - '0'.toNat)) 0

/-- The token of a whole number, when it fits. -/
def numberToken? (cs : List Char) : Option Token :=
  let value := numberValue cs
  if value < UInt64.size then some (.int (UInt64.ofNat value)) else none

/-! ## Scanning -/

/-- A lexeme or an error, as met in the text. -/
abbrev Scanned := Except LexError Lexeme

/-- The lexeme of a token written as `cs` at byte `offset`. -/
def lexemeAt (offset : Nat) (token : Token) (cs : List Char) : Scanned :=
  .ok ⟨token, ⟨offset, offset + Text.byteLength cs⟩⟩

/-- The error of a character that starts nothing. -/
def strayAt (offset : Nat) (c : Char) : Scanned :=
  .error ⟨.unexpectedChar c, ⟨offset, offset + c.utf8Size⟩⟩

/-- The number `cs` at byte `offset`. -/
def numberAt (offset : Nat) (cs : List Char) : Scanned :=
  match numberToken? cs with
  | some token => lexemeAt offset token cs
  | none => .error ⟨.invalidNumber, ⟨offset, offset + Text.byteLength cs⟩⟩

/-- One scanning step at byte `offset`: what the first characters are, if they are not dropped, and
how many characters follow the first one in the same piece. -/
def step (offset : Nat) (c : Char) (rest : List Char) : Option Scanned × Nat :=
  match classify c with
  | .blank => (none, 0)
  | .digit =>
      let tail := rest.takeWhile continuesNumber
      (some (numberAt offset (c :: tail)), tail.length)
  | .letter =>
      let tail := rest.takeWhile continuesWord
      (some (lexemeAt offset (wordToken (String.ofList (c :: tail))) (c :: tail)), tail.length)
  | .slash =>
      match rest with
      | '/' :: more => (none, 1 + (more.takeWhile (· != '\n')).length)
      | _ => (some (strayAt offset c), 0)
  | .dash =>
      match rest with
      | '>' :: _ => (some (lexemeAt offset .arrow [c, '>']), 1)
      | _ => (some (strayAt offset c), 0)
  | .colon =>
      match rest with
      | ':' :: _ => (some (lexemeAt offset .doubleColon [c, ':']), 1)
      | _ => (some (lexemeAt offset .colon [c]), 0)
  | .symbol token => (some (lexemeAt offset token [c]), 0)
  | .other => (some (strayAt offset c), 0)

/-- Everything met in the text that begins at byte `offset`. -/
def scan (offset : Nat) (cs : List Char) : List Scanned :=
  match cs with
  | [] => []
  | c :: rest =>
      let (found, more) := step offset c rest
      let later := scan (offset + Text.byteLength (c :: rest.take more)) (rest.drop more)
      match found with
      | some piece => piece :: later
      | none => later
termination_by cs.length
decreasing_by
  simp only [List.length_drop, List.length_cons]
  omega

/-- The pieces up to and including the `limit`-th error. -/
def untilErrors : Nat → List Scanned → List Scanned
  | 0, _ => []
  | _ + 1, [] => []
  | limit + 1, .ok lexeme :: rest => .ok lexeme :: untilErrors (limit + 1) rest
  | limit + 1, .error error :: rest => .error error :: untilErrors limit rest

/-- The number of errors after which reading stops. -/
def maxErrors : Nat := 20

end Lexer

/-- The lexemes and the lexical errors of a source, each in order. -/
structure LexResult where
  lexemes : List Lexeme
  errors : List LexError
deriving DecidableEq, Repr

namespace LexResult

/-- Splits what a scan met into lexemes and errors. -/
def ofScanned : List Lexer.Scanned → LexResult
  | [] => ⟨[], []⟩
  | .ok lexeme :: rest =>
      let later := ofScanned rest
      { later with lexemes := lexeme :: later.lexemes }
  | .error error :: rest =>
      let later := ofScanned rest
      { later with errors := error :: later.errors }

/-- Whether the source has no lexical error. -/
def isOk (result : LexResult) : Bool :=
  result.errors.isEmpty

end LexResult

/-- Cuts a source into lexemes. -/
def tokenize (source : String) : LexResult :=
  .ofScanned (Lexer.untilErrors Lexer.maxErrors (Lexer.scan 0 source.toList))

end Rill

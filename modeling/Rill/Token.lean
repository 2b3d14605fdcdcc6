import Rill.Span
import Rill.Text.Decimal
import Rill.Text.Quoted

/-!
# Tokens

A token is a word of the language; a lexeme is a token with the place where it stands.

Three texts belong to a token. `text` is how it is written in a source. `displayName` names it in a
message: fixed tokens in single quotes, the two open classes by their class. `listing` is the form
used when the tokens of a file are listed.
-/

namespace Rill

/-- The two kinds of bracket. -/
inductive Bracket where
  | paren
  | brace
deriving DecidableEq, Repr

/-- The words of the language. -/
inductive Token where
  | int (value : UInt64)
  | ident (name : String)
  | void
  | u64
  | returnWord
  | printWord
  | colon
  | doubleColon
  | equals
  | arrow
  | plus
  | opening (bracket : Bracket)
  | closing (bracket : Bracket)
  | comma
  | semicolon
deriving DecidableEq, Repr

namespace Token

/-- The token as written in a source; an integer in plain decimal digits. -/
def text : Token → String
  | int value => Text.decimal value.toNat
  | ident name => name
  | void => "void"
  | u64 => "u64"
  | returnWord => "return"
  | printWord => "print_u64"
  | colon => ":"
  | doubleColon => "::"
  | equals => "="
  | arrow => "->"
  | plus => "+"
  | opening .paren => "("
  | closing .paren => ")"
  | opening .brace => "\x7b"
  | closing .brace => "\x7d"
  | comma => ","
  | semicolon => ";"

/-- The name of the token in messages. -/
def displayName : Token → String
  | int _ => "integer"
  | ident _ => "identifier"
  | token => "'" ++ token.text ++ "'"

/-- The token as it appears in a listing. -/
def listing : Token → String
  | int value => "Int(" ++ Text.decimal value.toNat ++ ")"
  | ident name => "Ident(" ++ Text.quoted name ++ ")"
  | void => "Void"
  | u64 => "U64"
  | returnWord => "Return"
  | printWord => "PrintU64"
  | colon => "Colon"
  | doubleColon => "ColonColon"
  | equals => "Eq"
  | arrow => "Arrow"
  | plus => "Plus"
  | opening .paren => "LParen"
  | closing .paren => "RParen"
  | opening .brace => "LBrace"
  | closing .brace => "RBrace"
  | comma => "Comma"
  | semicolon => "Semi"

/-- The closing token that an opening one waits for. -/
def closer? : Token → Option Token
  | opening bracket => some (closing bracket)
  | _ => none

/-- The opening token that a closing one answers. -/
def opener? : Token → Option Token
  | closing bracket => some (opening bracket)
  | _ => none

end Token

/-- A token and the bytes it covers. -/
structure Lexeme where
  token : Token
  span : Span
deriving DecidableEq, Repr

end Rill

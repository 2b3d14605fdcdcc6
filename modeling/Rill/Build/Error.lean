import Rill.Span
import Rill.Text.Decimal

/-!
# Build errors

Why a parse tree is no program: a name without a declaration, a type that does not fit, or a phrase
in a place where it means nothing. The first error ends the build.
-/

namespace Rill

/-- Where a value of type `u64` is needed. -/
inductive U64Place where
  | sumOperand
  | printOperand
deriving DecidableEq, Repr

/-- The place in the words of a message. -/
def U64Place.text : U64Place → String
  | sumOperand => "operand of '+'"
  | printOperand => "print_u64 operand"

/-- What is wrong. Types are given by their text, phrases by the name of their construct. -/
inductive BuildErrorKind where
  | undefinedName (name : String)
  | mismatch (name expected found : String)
  | returnMismatch (expected found : String)
  | bareReturn (expected : String)
  | notU64 (place : U64Place) (found : String)
  | notCallable (name type : String)
  | arityMismatch (expected found : Nat)
  | notAType (found : String)
  | notAValue (found : String)
  | topLevelNotBinding (found : String)
  | missingValue (name : String)
  | invalidArgument
  | defaultedArgument (name : String)
  | notAStatement (found : String)
  | unsupportedStatement (found : String)
  | unsupportedCallee
  | callArguments
deriving DecidableEq, Repr

/-- A build error and the source it points at. -/
structure BuildError where
  kind : BuildErrorKind
  span : Span
deriving DecidableEq, Repr

namespace BuildErrorKind

/-- What went wrong. -/
def message : BuildErrorKind → String
  | undefinedName name => "undefined name: " ++ name
  | mismatch name expected found =>
      "type mismatch for `" ++ name ++ "`: expected " ++ expected ++ ", found " ++ found
  | returnMismatch expected found =>
      "return type mismatch: expected " ++ expected ++ ", found " ++ found
  | bareReturn expected => "bare return in a function returning " ++ expected
  | notU64 place found => place.text ++ " must be u64, found " ++ found
  | notCallable name type => "`" ++ name ++ "` of type " ++ type ++ " is not callable"
  | arityMismatch expected found =>
      "arity mismatch: expected " ++ Text.decimal expected ++ " arguments, found " ++
        Text.decimal found
  | notAType found => "expected a type, found " ++ found
  | notAValue found => "expected a value, found " ++ found
  | topLevelNotBinding found => "top-level items must be bindings ending in ';', found " ++ found
  | missingValue name => "binding `" ++ name ++ "` has no value"
  | invalidArgument => "function arguments must be written `name : Type`"
  | defaultedArgument name =>
      "argument `" ++ name ++ "` has a default value; defaulted arguments are unsupported"
  | notAStatement found => "function bodies hold statements ending in ';', found " ++ found
  | unsupportedStatement found => found ++ " cannot be used as a statement"
  | unsupportedCallee => "only named functions can be called"
  | callArguments => "call arguments are unsupported"

/-- How to mend it, when there is something to say. -/
def hint? : BuildErrorKind → Option String
  | undefinedName _ => some "names must be declared in this function or at the top level"
  | bareReturn _ => some "return a value of the declared return type"
  | notCallable .. => some "only bindings holding functions can be called"
  | missingValue _ => some "syntax: name :: value"
  | defaultedArgument _ | invalidArgument => some "syntax: (name : Type, ...)"
  | unsupportedStatement _ =>
      some "statements are print_u64, return, assignments, calls and bindings"
  | arityMismatch .. | callArguments => some "only functions without arguments can be called"
  | mismatch .. | returnMismatch .. | notU64 .. | notAType _ | notAValue _ | topLevelNotBinding _
  | notAStatement _ | unsupportedCallee => none

end BuildErrorKind

end Rill

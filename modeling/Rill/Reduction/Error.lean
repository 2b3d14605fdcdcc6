import Rill.Token

/-!
# Reduction errors

Why a list of lexemes forms no parse tree. The first error ends the reduction.
-/

namespace Rill

/-- What is wrong, with the token it concerns where the message names one. -/
inductive ReduceErrorKind where
  | unmatchedClose (close : Token)
  | unclosedBracket (opener : Token)
  | unexpectedToken (found : Token)
  | missingParameters
  | missingReturnType
  | missingBody
  | missingOperand (operator : Token)
  | bindingName
  | missingType
  | missingValue
  | invalidAssignTarget
  | badTerminator (terminator : Token)
deriving DecidableEq, Repr

/-- A reduction error and the source it points at. -/
structure ReduceError where
  kind : ReduceErrorKind
  span : Span
deriving DecidableEq, Repr

namespace ReduceErrorKind

/-- What went wrong. -/
def message : ReduceErrorKind → String
  | unmatchedClose close => "unmatched closing " ++ close.displayName
  | unclosedBracket opener => "unclosed " ++ opener.displayName
  | unexpectedToken found => "unexpected " ++ found.displayName
  | missingParameters => "function is missing its parameter list"
  | missingReturnType => "function is missing its return type"
  | missingBody => "function is missing its body"
  | missingOperand operator => operator.displayName ++ " is missing an operand"
  | bindingName => "binding name must be a plain identifier"
  | missingType => "binding is missing its type"
  | missingValue => "binding is missing its value"
  | invalidAssignTarget => "only a plain identifier can be assigned to"
  | badTerminator terminator => terminator.displayName ++ " does not follow an expression"

/-- How to mend it, when there is something to say. -/
def hint? : ReduceErrorKind → Option String
  | unmatchedClose (.closing .brace) => some "every '\x7d' needs an earlier '\x7b'"
  | unmatchedClose _ => some "every ')' needs an earlier '('"
  | unclosedBracket _ => some "add the matching closing bracket"
  | unexpectedToken .colon => some "syntax: name : Type : value"
  | unexpectedToken _ => some "statements end with ';'"
  | missingParameters => some "syntax: (args) -> Type \x7b ... \x7d"
  | missingReturnType => some "try a type like 'void' or 'u64'"
  | missingBody => some "function bodies are written in '\x7b ... \x7d'"
  | missingOperand .plus => some "'+' needs a value on both sides"
  | missingOperand _ => some "try a value, variable, or function call"
  | bindingName => some "names start with a letter or '_'"
  | missingType => some "use '::' to let the type be inferred"
  | missingValue => some "put the value after the ':' or '::'"
  | invalidAssignTarget => some "syntax: name = value"
  | badTerminator _ => none

end ReduceErrorKind

end Rill

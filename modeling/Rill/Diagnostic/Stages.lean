import Rill.Assembly.Lower
import Rill.Build.Error
import Rill.Diagnostic
import Rill.Reduction.Error
import Rill.Run.Program
import Rill.Token.Lexer

/-!
# The diagnostics of each stage

How the errors of each stage are told to the user: the code, the label at the error's place, and the
stage's own hint as the help text.
-/

namespace Rill

/-- The diagnostic of a lexical error. -/
def LexError.diagnostic (error : LexError) : Diagnostic :=
  let (code, label) := match error.kind with
    | .unexpectedChar _ => ("E0001", "unexpected character")
    | .invalidNumber => ("E0002", "invalid integer literal")
  (((Diagnostic.error error.message).withCode code).withPrimary error.span label).withHelp?
    error.hint?

/-- The code and the label of a reduction error. -/
def ReduceErrorKind.codeAndLabel : ReduceErrorKind → String × String
  | unmatchedClose _ => ("E0100", "no matching opener")
  | unclosedBracket _ => ("E0101", "opened here")
  | unexpectedToken _ => ("E0102", "not part of any construct")
  | missingParameters => ("E0103", "expected `(...)` before `->`")
  | missingReturnType => ("E0103", "expected a type after `->`")
  | missingBody => ("E0103", "expected `\x7b ... \x7d` here")
  | missingOperand _ => ("E0104", "operand missing")
  | bindingName => ("E0105", "expected an identifier")
  | missingType => ("E0105", "expected a type")
  | missingValue => ("E0105", "expected a value")
  | invalidAssignTarget => ("E0106", "cannot assign here")
  | badTerminator _ => ("E0107", "nothing to terminate")

/-- The diagnostic of a reduction error. -/
def ReduceError.diagnostic (error : ReduceError) : Diagnostic :=
  let (code, label) := error.kind.codeAndLabel
  (((Diagnostic.error error.kind.message).withCode code).withPrimary error.span label).withHelp?
    error.kind.hint?

/-- The code and the label of a build error. -/
def BuildErrorKind.codeAndLabel : BuildErrorKind → String × String
  | undefinedName _ => ("E0200", "not found in this scope")
  | mismatch _ expected found => ("E0300", "expected " ++ expected ++ ", found " ++ found)
  | returnMismatch _ found => ("E0301", "this is " ++ found)
  | bareReturn _ => ("E0302", "returns nothing")
  | notU64 _ found => ("E0303", "this is " ++ found)
  | notCallable .. => ("E0304", "called here")
  | arityMismatch .. => ("E0305", "called here")
  | notAType _ => ("E0306", "expected a type")
  | notAValue _ => ("E0307", "expected a value")
  | topLevelNotBinding _ => ("E0400", "not a binding")
  | missingValue _ => ("E0401", "no value")
  | invalidArgument => ("E0402", "invalid argument")
  | defaultedArgument _ => ("E0403", "default value")
  | notAStatement _ => ("E0404", "missing ';'")
  | unsupportedStatement _ => ("E0405", "not a statement")
  | unsupportedCallee => ("E0406", "not a name")
  | callArguments => ("E0407", "arguments given here")

/-- What else there is to know about a build error. -/
def BuildErrorKind.notes : BuildErrorKind → List String
  | topLevelNotBinding _ => ["a file is a sequence of `name :: value;` bindings"]
  | _ => []

/-- The diagnostic of a build error. -/
def BuildError.diagnostic (error : BuildError) : Diagnostic :=
  let (code, label) := error.kind.codeAndLabel
  let diagnostic :=
    ((Diagnostic.error error.kind.message).withCode code).withPrimary error.span label
  { diagnostic with notes := error.kind.notes }.withHelp? error.kind.hint?

/-- The diagnostic of an error that keeps a program from running. -/
def RunError.diagnostic (error : RunError) : Diagnostic :=
  let diagnostic := Diagnostic.error error.message
  match error with
  | .noEntryPoint =>
      (diagnostic.withCode "E0500").withHelp?
        (some "add `main :: () -> void \x7b ... \x7d;` at the top level")
  | .entryArity _ =>
      (diagnostic.withCode "E0501").withHelp?
        (some "declare main as `main :: () -> void \x7b ... \x7d;`")
  | .output _ => diagnostic.withCode "E0502"

/-- The diagnostic of an error that keeps a program from being assembled. -/
def AsmError.diagnostic (error : AsmError) : Diagnostic :=
  let diagnostic := Diagnostic.error error.message
  match error with
  | .noEntryPoint => diagnostic.withCode "E0600"
  | .unsupported _ span =>
      ((diagnostic.withCode "E0601").withPrimary span "cannot be compiled to assembly").withNote
        "`brook run` supports the whole language"
  | .tool _ =>
      (diagnostic.withCode "E0602").withHelp?
        (some "install nasm or run `brook asm` without `--assemble`")

end Rill

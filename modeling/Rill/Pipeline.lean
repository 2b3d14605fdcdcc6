import Rill.Assembly.Image
import Rill.Build.TopLevel
import Rill.Diagnostic.Stages
import Rill.Reduction.Reduce

/-!
# The stages of a source

Each function takes a source through the stages up to the one it names. The first stage that finds
errors ends the work, and its errors are given as diagnostics.

A run succeeds only when `main` ends without a value.
-/

namespace Rill

/-- The stages, in order; the last two are alternatives. -/
inductive Phase where
  | lex
  | parse
  | build
  | run
  | asm
deriving DecidableEq, Repr

/-- The name of a phase. -/
def Phase.name : Phase → String
  | lex => "lex"
  | parse => "parse"
  | build => "build"
  | run => "run"
  | asm => "asm"

/-- The phase that failed and what it has to say. -/
structure Failure where
  phase : Phase
  diagnostics : List Diagnostic
deriving DecidableEq, Repr

namespace Failure

/-- The failure of a phase with one error. -/
def ofDiagnostic (phase : Phase) (diagnostic : Diagnostic) : Failure :=
  ⟨phase, [diagnostic]⟩

/-- A number of errors in words. -/
def countText (count : Nat) : String :=
  if count = 1 then "1 error" else Text.decimal count ++ " errors"

/-- The failure in one line. -/
def message (failure : Failure) : String :=
  failure.phase.name ++ " failed: " ++ countText (errorCount failure.diagnostics)

end Failure

namespace Pipeline

/-- The lexemes of a source; all lexical errors are reported together. -/
def lex (source : String) : Except Failure (List Lexeme) :=
  let result := tokenize source
  if result.isOk then .ok result.lexemes
  else .error ⟨.lex, result.errors.map LexError.diagnostic⟩

/-- The parse tree of a list of lexemes. -/
def parseLexemes (lexemes : List Lexeme) : Except Failure ParseTree :=
  (reduce lexemes).mapError fun error => .ofDiagnostic .parse error.diagnostic

/-- The parse tree of a source. -/
def parse (source : String) : Except Failure ParseTree := do
  parseLexemes (← lex source)

/-- The program of a parse tree. -/
def buildTree (tree : ParseTree) : Except (Abort Failure) Program :=
  (build tree).mapError fun
    | .reported error => .reported (.ofDiagnostic .build error.diagnostic)
    | .broken fault => .broken fault

/-- The program of a source. -/
def check (source : String) : Except (Abort Failure) Program := do
  buildTree (← (parse source).mapError .reported)

/-- The instructions of a program. -/
def lower (program : Program) : Except (Abort Failure) (List Instr) :=
  (Assembly.generate program).mapError fun
    | .reported error => .reported (.ofDiagnostic .asm error.diagnostic)
    | .broken fault => .broken fault

/-- The instructions of a source. -/
def assembly (source : String) : Except (Abort Failure) (List Instr) := do
  lower (← check source)

/-- How deep evaluations may nest when a program is run. -/
def fuel : Nat := 1000000

/-- How deep evaluations may nest when a source is run. A sum nests as deep as it is long, so a long
source gets more. -/
def fuelFor (source : String) : Nat :=
  fuel + source.length

/-- The diagnostic of a `main` that returned a value. -/
def valueReturned (program : Program) (result : Term) : Except Fault Diagnostic := do
  let value := match result.shape with
    | .int value => Text.decimal value.toNat
    | _ => "a value"
  let type ← program.typeNameOf result.type?
  return (((Diagnostic.error
      ("`main` returned " ++ value ++ " instead of finishing without a value")).withCode
      "E0503").withPrimary result.span ("this is " ++ type)).withHelp?
      (some "declare main as `main :: () -> void \x7b ... \x7d;`")

/-- Why a run of a source did not succeed. -/
def haltOf : Halt RunError → Halt Failure
  | .reported error => .reported (.ofDiagnostic .run error.diagnostic)
  | .broken fault => .broken fault
  | .outOfFuel => .outOfFuel

/-- Judges the outcome of a run: it must have ended without a value. -/
def judge (outcome : RunOutcome) : Except (Halt Failure) Unit := do
  let result ← outcome.result.mapError haltOf
  if result.shape.isVoid then return ()
  else
    let diagnostic ← (valueReturned outcome.program result).mapError .broken
    throw (.reported (.ofDiagnostic .run diagnostic))

/-- Runs a source: how it ended, and what it printed before. -/
def run (source : String) : Except (Halt Failure) Unit × String :=
  match check source with
  | .error (.reported failure) => (.error (.reported failure), "")
  | .error (.broken fault) => (.error (.broken fault), "")
  | .ok program =>
      let outcome := program.run (fuelFor source) ""
      (judge outcome, outcome.output)

end Pipeline

end Rill

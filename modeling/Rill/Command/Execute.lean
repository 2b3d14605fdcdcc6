import Rill.Command.Config
import Rill.Command.Help
import Rill.Command.Host
import Rill.Command.PathName
import Rill.Diagnostic.Report
import Rill.Diagnostic.Terminal
import Rill.Pipeline

/-!
# Executing commands

A command reads its file, takes it through the stages it needs and replies with text for the two
output channels and an exit code.

* Results go to the first channel, diagnostics and reports to the second.
* In the human format a success ends with a banner, a failure shows its diagnostics and a banner. In
  the JSON format both write a report.
* The exit code is 0 for success, 1 for a failure and 101 for a fault.
* Assembling writes the instructions next to the executable, calls the assembler, and removes them
  again whatever the assembler did.
-/

namespace Rill

/-- What a command replies. -/
structure Reply where
  exitCode : Nat
  stdout : String
  stderr : String
deriving DecidableEq, Repr

/-- How a command writes: its format and whether it uses colours. -/
structure Manner where
  format : Format
  colored : Bool
deriving DecidableEq, Repr

namespace Reply

/-- The exit code of a fault. -/
def faultCode : Nat := 101

/-- A success with its result. -/
def success (stdout stderr : String) : Reply :=
  ⟨0, stdout, stderr⟩

/-- A failure with its diagnostics. -/
def failure (stdout stderr : String) : Reply :=
  ⟨1, stdout, stderr⟩

/-- A fault, after what was printed before it. -/
def ofFault (stdout : String) (fault : Fault) : Reply :=
  ⟨faultCode, stdout, fault.message ++ "\n"⟩

/-- A run given up because it nests too deep. -/
def ofExhaustion (stdout : String) : Reply :=
  ⟨faultCode, stdout, "evaluation is nested too deeply\n"⟩

end Reply

namespace Manner

open Text (Style)

/-- The word that opens an error message. -/
def errorWord (manner : Manner) : String :=
  (Style.ofBold .red).paint manner.colored "error"

/-- The path of a file in a message. -/
def path (manner : Manner) (path : String) : String :=
  (Style.ofEmphasis .underline).paint manner.colored path

/-- A line between two rules. -/
def banner (manner : Manner) (color : Text.Color) (text : String) : String :=
  let rule := (Style.ofEmphasis .dimmed).paint manner.colored "==="
  rule ++ " " ++ (Style.ofBold color).paint manner.colored text ++ " " ++ rule

/-- The banner of a success. -/
def successBanner (manner : Manner) (what : String) : String :=
  manner.banner .green (what ++ " OK")

/-- A word with a capital first letter. -/
def capitalize (word : String) : String :=
  match word.toList with
  | [] => ""
  | c :: cs => String.ofList (c.toUpper :: cs)

/-- The banner of a failure. -/
def failureBanner (manner : Manner) (failure : Failure) : String :=
  manner.banner .red
    (capitalize failure.phase.name ++ " FAILED: " ++
      Failure.countText (errorCount failure.diagnostics))

/-- The report on a file, as a line of output. -/
def report (diagnostics : List Diagnostic) (source file phase : String) : String :=
  reportText diagnostics source file phase ++ "\n"

/-- What a failure writes. -/
def failureText (manner : Manner) (failure : Failure) (source file : String) : String :=
  match manner.format with
  | .human =>
      String.join (failure.diagnostics.map fun diagnostic =>
        Terminal.render manner.colored source (some file) diagnostic ++ "\n") ++
        manner.failureBanner failure ++ "\n"
  | .json => report failure.diagnostics source file failure.phase.name

/-- What a success writes beside its result. -/
def successText (manner : Manner) (source file phase : String) : String :=
  match manner.format with
  | .human => ""
  | .json => report [] source file phase

/-- Text that only people are shown. -/
def forPeople (manner : Manner) (text : String) : String :=
  match manner.format with
  | .human => text
  | .json => ""

/-- What an unreadable file writes. -/
def unreadable (manner : Manner) (file : String) (error : FileError) : String :=
  match manner.format with
  | .human =>
      manner.errorWord ++ ": reading " ++ manner.path file ++ ": " ++ error.message ++ "\n"
  | .json =>
      report [Diagnostic.error ("reading " ++ file ++ ": " ++ error.message)] "" file "read"

/-! ## Replies for a source -/

/-- The reply when a stage did not succeed. -/
def aborted (manner : Manner) (source file : String) : Abort Failure → Reply
  | .reported failure => .failure "" (manner.failureText failure source file)
  | .broken fault => .ofFault "" fault

/-- One line of a token listing. -/
def tokenLine (lexeme : Lexeme) : String :=
  Text.padLeft 4 (Text.decimal lexeme.span.start) ++ ":" ++
    Text.padRight 4 (Text.decimal lexeme.span.stop) ++ " " ++ lexeme.token.listing ++ "\n"

/-- Lists the tokens of a source. -/
def lex (manner : Manner) (source file : String) : Reply :=
  match Pipeline.lex source with
  | .error failure => .failure "" (manner.failureText failure source file)
  | .ok lexemes =>
      let count := Text.decimal lexemes.length
      .success
        (String.join (lexemes.map tokenLine) ++
          manner.forPeople ("\n" ++ manner.successBanner ("Lex (" ++ count ++ " tokens)") ++ "\n"))
        (manner.successText source file Phase.lex.name)

/-- Shows the parse tree of a source. -/
def parse (manner : Manner) (source file : String) : Reply :=
  match Pipeline.parse source with
  | .error failure => .failure "" (manner.failureText failure source file)
  | .ok tree =>
      match tree.outline with
      | .error fault => .ofFault "" fault
      | .ok outline =>
          .success (outline ++ manner.forPeople ("\n" ++ manner.successBanner "Parse" ++ "\n"))
            (manner.successText source file Phase.parse.name)

/-- Checks a source and counts what it declares. -/
def check (manner : Manner) (source file : String) : Reply :=
  match Pipeline.check source with
  | .error abort => manner.aborted source file abort
  | .ok program =>
      match program.globalVars with
      | .error fault => .ofFault "" fault
      | .ok globals =>
          .success
            (manner.forPeople
              (Text.decimal globals.size ++ " globals, " ++ Text.decimal program.functions.size ++
                " functions in " ++ manner.path file ++ "\n" ++ manner.successBanner "Check" ++
                "\n"))
            (manner.successText source file Phase.build.name)

/-- Runs a source. -/
def run (manner : Manner) (source file : String) : Reply :=
  match Pipeline.run source with
  | (.ok (), output) => .success output (manner.successText source file Phase.run.name)
  | (.error (.reported failure), output) =>
      .failure output (manner.failureText failure source file)
  | (.error (.broken fault), output) => .ofFault output fault
  | (.error .outOfFuel, output) => .ofExhaustion output

end Manner

/-! ## Assembling -/

variable {m : Type → Type} [Monad m]

/-- Assembles instructions into an executable. The source written for the assembler is removed
afterwards. -/
def Host.assembleText (host : Host m) (text executable : String) : m (Except AsmError Unit) := do
  let source := PathName.withExtension executable "asm"
  match ← host.write source text with
  | .error error =>
      return .error (.tool ("failed to write " ++ source ++ ": " ++ error.message))
  | .ok () =>
      let result ← host.assemble source executable
      host.remove source
      return result.mapError .tool

/-- Lowers a source and writes, assembles or shows the instructions. -/
def Host.asm (host : Host m) (manner : Manner) (config : Config) (source file : String) :
    m Reply := do
  match Pipeline.assembly source with
  | .error abort => return manner.aborted source file abort
  | .ok instrs =>
      let text := Assembly.imageText instrs
      let report := manner.successText source file Phase.asm.name
      if config.assemble then
        let executable := config.output.getD (PathName.defaultExecutable file)
        match ← host.assembleText text executable with
        | .error error =>
            let failure := Failure.ofDiagnostic .asm error.diagnostic
            return .failure "" (manner.failureText failure source file)
        | .ok () =>
            let banner := manner.successBanner ("Assembled " ++ executable)
            return .success (manner.forPeople (banner ++ "\n")) report
      else
        match config.output with
        | none => return .success text report
        | some path =>
            match ← host.write path text with
            | .ok () => return .success "" report
            | .error error =>
                return .failure ""
                  (manner.errorWord ++ ": writing " ++ path ++ ": " ++ error.message ++ "\n")

/-- Executes a command on a file. -/
def Host.onFile (host : Host m) (manner : Manner) (config : Config) (command : FileCommand)
    (file : String) : m Reply := do
  match ← host.read file with
  | .error error => return .failure "" (manner.unreadable file error)
  | .ok source =>
      match command with
      | .run => return manner.run source file
      | .lex => return manner.lex source file
      | .parse => return manner.parse source file
      | .check => return manner.check source file
      | .asm => host.asm manner config source file

/-! ## The whole program -/

/-- Whether colours are used: as the settings say, or else when they are forced on every program or
the output is a terminal that wants them. -/
def usesColor (config : Config) (environment : String → Option String) (terminal : Bool) : Bool :=
  match config.color with
  | some color => color
  | none =>
      (environment "CLICOLOR_FORCE").any (· != "0") ||
        (terminal && (environment "CLICOLOR").all (· != "0"))

/-- Executes the program: reads its environment and its arguments, and does what they ask for. -/
def Host.main (host : Host m) (environment : String → Option String) (terminal : Bool)
    (arguments : List String) : m Reply := do
  let start := Config.ofEnvironment environment
  let colored := usesColor start environment terminal
  match start.parseArguments arguments with
  | .error error =>
      let manner : Manner := ⟨.human, colored⟩
      return .failure ""
        (manner.errorWord ++ ": " ++ error.message ++ "\nRun `brook --help` for usage.\n")
  | .ok (.help, _) => return .success (Help.text colored) ""
  | .ok (.version, _) => return .success ("brook " ++ version ++ "\n") ""
  | .ok (.file command path, config) =>
      host.onFile ⟨config.format, colored⟩ config command path

end Rill

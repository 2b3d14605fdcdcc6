import Rill.Text.Style

/-!
# The help text

What the program says about itself: how it is called, its commands, options and environment.
-/

namespace Rill

/-- The version of the program. -/
def version : String := "0.1.0"

namespace Help

open Text (Style)

/-- Text in the style of section headings. -/
def heading (colored : Bool) (text : String) : String :=
  (Style.ofBold .yellow).paint colored text

/-- Text in the style of commands. -/
def command (colored : Bool) (text : String) : String :=
  (Style.ofColor .green).paint colored text

/-- Text in the style of arguments. -/
def argument (colored : Bool) (text : String) : String :=
  (Style.ofColor .cyan).paint colored text

/-- A command with its file and what it does. -/
def commandLine (colored : Bool) (name gap description : String) : String :=
  "  " ++ command colored name ++ " " ++ argument colored "<file>" ++ gap ++ description

/-- An option or a variable with what it does. -/
def optionLine (colored : Bool) (name gap description : String) : String :=
  "  " ++ argument colored name ++ gap ++ description

/-- The lines of the help text. -/
def lines (colored : Bool) : List String :=
  [(Style.ofEmphasis .bold).paint colored "Brook" ++ " " ++
     (Style.ofEmphasis .dimmed).paint colored version ++
     " - a tiny language with u64s and functions",
   "",
   heading colored "Usage" ++ ": " ++ command colored "brook" ++ " " ++
     argument colored "[command]" ++ " " ++ argument colored "<file.bk>",
   "",
   heading colored "Commands:",
   commandLine colored "run" "     " "Run a program (default)",
   commandLine colored "lex" "     " "Print tokens",
   commandLine colored "parse" "   " "Print the parse tree",
   commandLine colored "check" "   " "Build and type-check without running",
   commandLine colored "asm" "     " "Emit NASM assembly",
   "",
   heading colored "Options:",
   optionLine colored "--format human|json" "   " "Diagnostic format (default: human)",
   optionLine colored "-o <path>" "            " "Write `asm` output to a file",
   optionLine colored "--assemble" "          " "Run nasm on the `asm` output",
   optionLine colored "--verbose" "           " "Debug logging (same as BROOK_LOG=debug)",
   optionLine colored "-h, --help" "         " "Show this help",
   optionLine colored "-V, --version" "      " "Show version",
   "",
   heading colored "Environment:",
   optionLine colored "BROOK_LOG" "   " "Log filter, e.g. `brook_sema=trace` (default: warn)",
   optionLine colored "NO_COLOR" "    " "Disable colors",
   optionLine colored "FORCE_COLOR" " " "Force colors"]

/-- The help text. -/
def text (colored : Bool) : String :=
  String.join ((lines colored).map (· ++ "\n"))

end Help

end Rill

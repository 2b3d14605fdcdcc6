/-!
# Arguments and settings

The environment gives the settings their first values and the arguments change them.

* Options and words may be mixed. An option that takes a value takes the next argument, whatever it is.
* `--help` and `--version` end the reading at once; so does the first argument that is wrong.
* One word alone is a file to run, unless it is the name of a command; two words are a command and its
  file.
* The two options of `asm` are refused for every other command.
-/

namespace Rill

/-- How diagnostics are written. -/
inductive Format where
  | human
  | json
deriving DecidableEq, Repr

/-- The name of a format. -/
def Format.name : Format → String
  | human => "human"
  | json => "json"

/-- What can be done with a file. -/
inductive FileCommand where
  | run
  | lex
  | parse
  | check
  | asm
deriving DecidableEq, Repr

namespace FileCommand

/-- The name of a command. -/
def name : FileCommand → String
  | run => "run"
  | lex => "lex"
  | parse => "parse"
  | check => "check"
  | asm => "asm"

/-- The command with a name. -/
def ofName? (name : String) : Option FileCommand :=
  [run, lex, parse, check, asm].find? fun command => command.name == name

end FileCommand

/-- What the program is asked to do. -/
inductive Command where
  | file (command : FileCommand) (path : String)
  | help
  | version
deriving DecidableEq, Repr

/-- Settings. -/
structure Config where
  format : Format
  /-- Colours on or off; `none` leaves the choice to the terminal. -/
  color : Option Bool
  logFilter : String
  /-- Where `asm` writes its result. -/
  output : Option String
  /-- Whether `asm` calls the assembler. -/
  assemble : Bool
deriving DecidableEq, Repr

/-- Why the arguments make no command. -/
inductive UsageError where
  | formatValueMissing
  | outputPathMissing
  | unknownFormat (name : String)
  | unknownOption (option : String)
  | unknownCommand (name : String)
  | fileMissing (command : FileCommand)
  | unexpectedArgument (argument : String)
  | asmOnly
deriving DecidableEq, Repr

/-- What is wrong with the arguments. -/
def UsageError.message : UsageError → String
  | formatValueMissing => "--format needs a value"
  | outputPathMissing => "-o needs a path"
  | unknownFormat name => "unknown format `" ++ name ++ "` (expected human or json)"
  | unknownOption option => "unknown option `" ++ option ++ "`"
  | unknownCommand name => "unknown command `" ++ name ++ "`"
  | fileMissing command => "`" ++ command.name ++ "` needs a file"
  | unexpectedArgument argument => "unexpected argument `" ++ argument ++ "`"
  | asmOnly => "-o and --assemble only apply to `asm`"

/-- The format with a name. -/
def Format.ofName (name : String) : Except UsageError Format :=
  if name = "human" then .ok human
  else if name = "json" then .ok json
  else .error (.unknownFormat name)

namespace Config

/-- The settings without any environment. -/
def default : Config :=
  { format := .human, color := none, logFilter := "warn", output := none, assemble := false }

/-- The settings that an environment gives. Switching colours off wins over forcing them. -/
def ofEnvironment (environment : String → Option String) : Config :=
  let color :=
    if (environment "NO_COLOR").isSome then some false
    else if (environment "FORCE_COLOR").isSome then some true
    else none
  let logFilter := ((environment "BROOK_LOG").filter (· != "")).getD default.logFilter
  { default with color, logFilter }

end Config

namespace Arguments

/-- What an argument is by itself. -/
inductive Kind where
  | help
  | version
  | verbose
  | assemble
  | format
  | formatIs (name : String)
  | output
  | unknownOption
  | word
deriving DecidableEq, Repr

/-- Whether an argument looks like an option: a dash with something behind it. -/
def looksLikeOption (argument : String) : Bool :=
  match argument.toList with
  | '-' :: _ :: _ => true
  | _ => false

/-- The kind of an argument. -/
def classify (argument : String) : Kind :=
  if argument = "-h" ∨ argument = "--help" then .help
  else if argument = "-V" ∨ argument = "--version" then .version
  else if argument = "--verbose" then .verbose
  else if argument = "--assemble" then .assemble
  else if argument = "--format" then .format
  else if argument = "-o" then .output
  else match "--format=".toList.isPrefixOf? argument.toList with
    | some name => .formatIs (String.ofList name)
    | none => if looksLikeOption argument then .unknownOption else .word

/-- The command that the words make. -/
def commandOf : List String → Except UsageError Command
  | [] => .ok .help
  | [word] =>
      if word = "help" then .ok .help
      else if word = "version" then .ok .version
      else match FileCommand.ofName? word with
        | some command => .error (.fileMissing command)
        | none => .ok (.file .run word)
  | [name, path] =>
      match FileCommand.ofName? name with
      | some command => .ok (.file command path)
      | none => .error (.unknownCommand name)
  | _ :: _ :: extra :: _ => .error (.unexpectedArgument extra)

/-- Whether the settings fit the command. -/
def fits (config : Config) : Command → Bool
  | .file .asm _ => true
  | _ => config.output.isNone && !config.assemble

/-- Ends the reading of arguments with the words met on the way. -/
def finish (config : Config) (words : List String) : Except UsageError (Command × Config) := do
  let command ← commandOf words
  if fits config command then return (command, config) else throw .asmOnly

/-- Reads the arguments from left to right; `words` are the words met so far. -/
def readAll (config : Config) (words : List String) :
    List String → Except UsageError (Command × Config)
  | [] => finish config words
  | argument :: rest =>
      match classify argument with
      | .help => .ok (.help, config)
      | .version => .ok (.version, config)
      | .verbose => readAll { config with logFilter := "debug" } words rest
      | .assemble => readAll { config with assemble := true } words rest
      | .format =>
          match rest with
          | [] => .error .formatValueMissing
          | name :: rest => do
              let format ← Format.ofName name
              readAll { config with format } words rest
      | .formatIs name => do
          let format ← Format.ofName name
          readAll { config with format } words rest
      | .output =>
          match rest with
          | [] => .error .outputPathMissing
          | path :: rest => readAll { config with output := some path } words rest
      | .unknownOption => .error (.unknownOption argument)
      | .word => readAll config (words ++ [argument]) rest

end Arguments

/-- The command and the settings that the arguments make of given settings. -/
def Config.parseArguments (config : Config) (arguments : List String) :
    Except UsageError (Command × Config) :=
  Arguments.readAll config [] arguments

end Rill

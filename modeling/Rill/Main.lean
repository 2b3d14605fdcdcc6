import Rill.Command.Execute

/-!
# The command line

Connects the commands with the files, the environment and the output of the machine.
-/

namespace Rill

/-- The number of an error of the operating system, which some calls report with its sign changed. -/
def errorNumber (code : UInt32) : UInt32 :=
  min code (0 - code)

/-- A file error of the machine in the words of this library. -/
def fileError (error : IO.Error) : FileError :=
  match error with
  | .noFileOrDirectory .. => .notFound
  | .inappropriateType _ code _ => if errorNumber code = 20 then .notDirectory else .isDirectory
  | .invalidArgument _ code _ =>
      if errorNumber code = 36 then .nameTooLong else .other (toString error)
  | error => .other (toString error)

/-- The machine as a host. No assembler is called from here. -/
def machine : Host IO where
  read path := do
    try
      let bytes ← IO.FS.readBinFile path
      return (String.fromUTF8? bytes).elim (.error .invalidText) .ok
    catch error => return .error (fileError error)
  write path text := do
    try
      IO.FS.writeFile path text
      return .ok ()
    catch error => return .error (fileError error)
  remove path := do
    try IO.FS.removeFile path catch _ => return ()
  assemble _ _ := return .error ("failed to run nasm: " ++ FileError.notFound.message)

/-- The environment variables that the commands look at. -/
def readEnvironment : IO (List (String × String)) := do
  let names := ["NO_COLOR", "FORCE_COLOR", "BROOK_LOG", "CLICOLOR", "CLICOLOR_FORCE"]
  names.filterMapM fun name => do return (← IO.getEnv name).map fun value => (name, value)

end Rill

/-- Runs the command line. -/
def main (arguments : List String) : IO UInt32 := do
  let environment ← Rill.readEnvironment
  let terminal ← (← IO.getStdout).isTty
  let reply ← Rill.machine.main (fun name => List.lookup name environment) terminal arguments
  IO.print reply.stdout
  IO.eprint reply.stderr
  return reply.exitCode.toUInt32

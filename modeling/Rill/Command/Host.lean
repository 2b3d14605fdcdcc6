/-!
# Files

A host is what a command needs of the machine it runs on: reading, writing and removing files, and
calling the assembler.

The reasons for a failure are those of the operating system, with its wording and its numbers.
-/

namespace Rill

/-- Why a file cannot be read or written. -/
inductive FileError where
  | notFound
  | notDirectory
  | isDirectory
  | nameTooLong
  | invalidText
  | other (reason : String)
deriving DecidableEq, Repr

/-- The reason in words. -/
def FileError.message : FileError → String
  | notFound => "No such file or directory (os error 2)"
  | notDirectory => "Not a directory (os error 20)"
  | isDirectory => "Is a directory (os error 21)"
  | nameTooLong => "File name too long (os error 36)"
  | invalidText => "stream did not contain valid UTF-8"
  | other reason => reason

/-- What a command needs of its machine. -/
structure Host (m : Type → Type) where
  /-- The text of a file. -/
  read : (path : String) → m (Except FileError String)
  /-- Writes a file; what it held before is lost. -/
  write : (path text : String) → m (Except FileError Unit)
  /-- Removes a file, if it is there. -/
  remove : (path : String) → m Unit
  /-- Assembles a source file into an executable. -/
  assemble : (source executable : String) → m (Except String Unit)

end Rill

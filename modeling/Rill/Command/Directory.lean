import Rill.Command.Host
import Rill.Command.PathName
import Rill.Text.Bytes

/-!
# A directory of files

A directory is a host by itself: named files in a machine without an assembler.

A path is followed component by component, from the directory or, when it begins with a slash, from
the root of the machine.

* `.` stays where it is and `..` goes up; above the root there is only the root.
* A component may take 255 bytes and a path 4095; longer ones are refused, a path before anything else
  is looked at.
* Going on behind a file fails, and so does going on behind nothing.
* A slash at the end asks for a directory. Reading what is none fails as going on would; writing
  always fails, because a directory cannot be written.

The directory lies in `/tmp`, so every path that goes up far enough reaches the root. Of the machine
around it only what every machine has is known: the directories of the root, and the empty file
`/dev/null`. What is written elsewhere outside leaves no trace in the directory.
-/

namespace Rill

/-- Named files and their bytes. Names of files in directories below hold slashes. -/
structure Directory where
  files : List (String × ByteArray)

namespace Directory

/-- The bytes of a file. -/
def find? (directory : Directory) (name : String) : Option ByteArray :=
  directory.files.lookup name

/-- Whether a name is that of a directory below: some file lies in it. -/
def hasDirectory (directory : Directory) (name : String) : Bool :=
  directory.files.any fun file => (name ++ "/").toList.isPrefixOf file.1.toList

/-! ## Following a path -/

/-- The bytes that a component of a path may take. -/
def maxComponent : Nat := 255

/-- The bytes that a path may take. -/
def maxPath : Nat := 4095

/-- A directory that a path has reached. -/
inductive Place where
  /-- The directory itself or one below, by the components of its name. -/
  | inside (path : List String)
  /-- A directory around it, by the components of its path from the root. -/
  | system (path : List String)
deriving DecidableEq, Repr

/-- The directory above. -/
def Place.up : Place → Place
  | inside [] => system ["tmp"]
  | inside path => inside path.dropLast
  | system path => system path.dropLast

/-- The directories that the root of a machine holds. -/
def rootDirectories : List String :=
  ["bin", "boot", "dev", "etc", "home", "lib", "media", "mnt", "opt", "proc", "root", "run", "sbin",
   "srv", "sys", "tmp", "usr", "var"]

/-- What a path from the root leads to: a directory, the empty file, or nothing known. -/
inductive SystemEntry where
  | directory
  | null
  | unknown
deriving DecidableEq, Repr

/-- What is known of a path from the root. -/
def systemEntry : List String → SystemEntry
  | [] => .directory
  | [name] => if rootDirectories.contains name then .directory else .unknown
  | ["dev", "null"] => .null
  | _ => .unknown

/-- What a path names. -/
inductive Entry where
  | file (name : String)
  /-- The file that is always empty. -/
  | null
  | directory
  /-- Nothing yet, but a file could be made there. -/
  | free (name : String)
  /-- Nothing, outside of the directory. -/
  | outside
  /-- No directory, where a slash at the end of the path asks for one. -/
  | noDirectory (error : FileError)
  | failed (error : FileError)
deriving DecidableEq, Repr

/-- Why a path cannot go on behind an entry that is no directory. -/
def Entry.barrier : Entry → FileError
  | file _ | null => .notDirectory
  | noDirectory error | failed error => error
  | directory | free _ | outside => .notFound

/-- The end of a path at an entry that is no directory, when `rest` is still to come. -/
def Entry.beyond (entry : Entry) (rest : List String) : Entry :=
  match rest with
  | [] => entry
  | [""] => .noDirectory entry.barrier
  | _ => .failed entry.barrier

/-- What a name stands for in a place: a directory to go on from, or an entry. -/
def enter (directory : Directory) (place : Place) (component : String) : Place ⊕ Entry :=
  if maxComponent < Text.byteLength component.toList then .inr (.failed .nameTooLong)
  else
    match place with
    | .inside path =>
        let path := path ++ [component]
        let name := String.intercalate "/" path
        if (directory.find? name).isSome then .inr (.file name)
        else if directory.hasDirectory name then .inl (.inside path)
        else .inr (.free name)
    | .system path =>
        let path := path ++ [component]
        match systemEntry path with
        | .directory => .inl (.system path)
        | .null => .inr .null
        | .unknown => .inr .outside

/-- Follows the components of a path from a place. -/
def follow (directory : Directory) (place : Place) : List String → Entry
  | [] => .directory
  | component :: rest =>
      if component = "" ∨ component = "." then directory.follow place rest
      else if component = ".." then directory.follow place.up rest
      else
        match directory.enter place component with
        | .inl place => directory.follow place rest
        | .inr entry => entry.beyond rest

/-- What a path names, seen from the directory. -/
def resolve (directory : Directory) (path : String) : Entry :=
  if path = "" then .failed .notFound
  else if maxPath < Text.byteLength path.toList then .failed .nameTooLong
  else
    let start := if path.toList.head? == some '/' then Place.system [] else .inside []
    directory.follow start (PathName.components path)

/-! ## Reading and writing -/

/-- Sets the bytes of a file: in its old place, or at the end when it is new. -/
def store (directory : Directory) (name : String) (bytes : ByteArray) : Directory :=
  if (directory.find? name).isSome then
    ⟨directory.files.map fun file => if file.1 == name then (name, bytes) else file⟩
  else ⟨directory.files ++ [(name, bytes)]⟩

/-- Removes a file. -/
def erase (directory : Directory) (name : String) : Directory :=
  ⟨directory.files.filter fun file => file.1 != name⟩

/-- The text of the file at a path. -/
def readText (directory : Directory) (path : String) : Except FileError String :=
  match directory.resolve path with
  | .file name =>
      match (directory.find? name).bind String.fromUTF8? with
      | some text => .ok text
      | none => .error .invalidText
  | .null => .ok ""
  | .directory => .error .isDirectory
  | .free _ | .outside => .error .notFound
  | .noDirectory error | .failed error => .error error

/-- The directory after writing a file. -/
def writeText (directory : Directory) (path text : String) : Except FileError Directory :=
  match directory.resolve path with
  | .file name | .free name => .ok (directory.store name text.toUTF8)
  | .null | .outside => .ok directory
  | .directory | .noDirectory _ => .error .isDirectory
  | .failed error => .error error

/-- The directory after removing a file. -/
def remove (directory : Directory) (path : String) : Directory :=
  match directory.resolve path with
  | .file name => directory.erase name
  | _ => directory

/-- A directory as a host; there is no assembler in it. -/
def host : Host (StateM Directory) where
  read path := return (← get).readText path
  write path text := do
    match (← get).writeText path text with
    | .ok directory =>
        set directory
        return .ok ()
    | .error error => return .error error
  remove path := modify (·.remove path)
  assemble _ _ := return .error ("failed to run nasm: " ++ FileError.notFound.message)

end Directory

end Rill

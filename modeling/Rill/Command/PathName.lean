/-!
# File paths

A path is a text of components separated by slashes. Its file name is the last component; slashes
and components `.` behind it do not count, and `.` and `..` are no file names.

The extension of a file name begins at its last dot, unless that dot is its first character.
-/

namespace Rill.PathName

/-- Removes slashes and components `.` from the front of a reversed path. -/
def dropTrailing : List Char → List Char
  | '/' :: rest => dropTrailing rest
  | '.' :: '/' :: rest => dropTrailing rest
  | path => path

/-- The part of a path before its file name, and the file name. -/
def split (path : String) : List Char × List Char :=
  let reversed := dropTrailing path.toList.reverse
  ((reversed.dropWhile (· != '/')).reverse, (reversed.takeWhile (· != '/')).reverse)

/-- Whether a last component names a file. -/
def isFileName (name : List Char) : Bool :=
  name != [] && name != ['.'] && name != ['.', '.']

/-- A file name without its extension. -/
def stem (name : List Char) : List Char :=
  match name.reverse.dropWhile (· != '.') with
  | [] => name
  | [_] => name
  | _ :: before => before.reverse

/-- The extension of a file name, without its dot; empty when there is none. -/
def extensionOf (name : List Char) : List Char :=
  name.drop ((stem name).length + 1)

/-- Puts an extension behind the stem of a path's file name, or nothing when the extension is empty. A
path without a file name stays as it is. -/
def setExtension (path extension : String) : String :=
  let (parent, name) := split path
  if isFileName name then
    String.ofList (parent ++ stem name) ++ (if extension = "" then "" else "." ++ extension)
  else path

/-- The path with another extension, or without one when it is empty. The old extension is first taken
off the end of the path. What is left may be no file name any more: of `..x` it is `..`, which then
stays as it is. -/
def withExtension (path extension : String) : String :=
  let kept := path.toList.take (path.length - (extensionOf (split path).2).length)
  setExtension (String.ofList kept) extension

/-- The default name of an executable: the source without its extension, or with the extension `out`
when it has none, so that the source is not overwritten. -/
def defaultExecutable (source : String) : String :=
  let (_, name) := split source
  if stem name = name then withExtension source "out" else withExtension source ""

/-- The components of a path. Slashes that follow each other count as one; a slash at the end leaves an
empty last component. -/
def components (path : String) : List String :=
  let pieces := path.toList.splitBy fun a b => a != '/' && b != '/'
  let names := (pieces.map String.ofList).filter (· != "/")
  if path.toList.getLast? == some '/' then names ++ [""] else names

end Rill.PathName

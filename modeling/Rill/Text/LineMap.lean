import Rill.Text.Bytes

/-!
# Lines and columns

A line map is the table of line starts of one source text.

* Lines and columns count from one; a column counts bytes.
* A new line starts after every newline, so a text ending in a newline has an empty last line.
* An offset past the end of the text is taken as its end.
* The text of a line stops before its newline and drops the carriage returns at its end.
-/

namespace Rill

/-- A line and a column, both counted from one. -/
structure Position where
  line : Nat
  column : Nat
deriving DecidableEq, Repr

/-- The byte offset at which each line starts, in order, and the size of the text. -/
structure LineMap where
  starts : List Nat
  size : Nat
deriving DecidableEq, Repr

namespace LineMap

/-- The starts of the lines that begin inside `cs`, which itself begins at byte `offset`. -/
def laterStarts : Nat → List Char → List Nat
  | _, [] => []
  | offset, c :: cs =>
      let next := offset + c.utf8Size
      if c = '\n' then next :: laterStarts next cs else laterStarts next cs

/-- The line map of a source text. -/
def ofSource (source : String) : LineMap :=
  { starts := 0 :: laterStarts 0 source.toList, size := Text.byteLength source.toList }

/-- The number of lines; every text has at least one. -/
def lineCount (map : LineMap) : Nat :=
  map.starts.length

/-- The line and column of a byte offset: the line is the last one that starts at or before it. -/
def position (map : LineMap) (offset : Nat) : Position :=
  let place := min offset map.size
  let reached := map.starts.takeWhile (· ≤ place)
  { line := reached.length, column := place - reached.getLast?.getD 0 + 1 }

/-- Removes the carriage returns at the end. -/
def dropReturns (cs : List Char) : List Char :=
  (cs.reverse.dropWhile (· == '\r')).reverse

/-- The text of a line, read from `text`. The line ends come from the map, so reading from a text
other than the mapped one may find no whole characters there. -/
def lineText? (map : LineMap) (text : String) (line : Nat) : Option String :=
  match line with
  | 0 => none
  | index + 1 => do
      let start ← map.starts[index]?
      let stop := match map.starts[index + 1]? with
        | some next => next - 1
        | none => Text.byteLength text.toList
      let cs ← Text.sliceBytes start stop text.toList
      return String.ofList (dropReturns cs)

end LineMap

end Rill

import Rill.Diagnostic
import Rill.Text.LineMap
import Rill.Text.Style

/-!
# Diagnostics on a terminal

A diagnostic is shown with the source lines it points at. Below each line a row marks the labelled
columns, with `^` for primary and `-` for secondary labels, and the labels' messages follow.

* Columns count bytes. A label that goes on over later lines is marked up to the end of its first line.
* A label marks at least one column, but no column further than two past the end of the line.
* Marks are made for the primary labels first, from left to right, and then for the secondary ones;
  where marks overlap the later one stays.
* A single message stands behind the marks. Several messages stand in rows of their own below the
  marks, the last one first.
* Lines that do not follow each other directly are set apart by dots.
-/

namespace Rill

namespace Terminal

open Text (Style)

/-- The columns of a source line that a label marks, counted from one, up to `stop`. -/
structure Highlight where
  start : Nat
  stop : Nat
  role : LabelRole
  message? : Option String
deriving DecidableEq, Repr

/-- A source line with the labels that start on it. -/
structure AnnotatedLine where
  line : Nat
  text : String
  highlights : List Highlight
deriving DecidableEq, Repr

/-! ## Collecting labels -/

/-- A label as a highlight of the line on which it starts. -/
def annotate (map : LineMap) (source : String) (label : Label) : AnnotatedLine :=
  let start := map.position label.span.start
  let stop := map.position label.span.stop
  let text := (map.lineText? source start.line).getD ""
  let column :=
    if stop.line = start.line then stop.column else Text.byteLength text.toList + 1
  { line := start.line, text,
    highlights := [⟨start.column, max column (start.column + 1), label.role, label.message?⟩] }

/-- Adds a line to lines in order; highlights of the same line are kept together. -/
def insertLine (new : AnnotatedLine) : List AnnotatedLine → List AnnotatedLine
  | [] => [new]
  | old :: rest =>
      if new.line < old.line then new :: old :: rest
      else if new.line = old.line then
        { old with highlights := old.highlights ++ new.highlights } :: rest
      else old :: insertLine new rest

/-- The lines that the labels start on, in order. -/
def annotatedLines (map : LineMap) (source : String) (labels : List Label) : List AnnotatedLine :=
  labels.foldl (fun lines label => insertLine (annotate map source label) lines) []

/-! ## Marks -/

/-- The character that marks a label. -/
def mark : LabelRole → Char
  | .primary => '^'
  | .secondary => '-'

/-- Primary highlights come first; those of one role go from left to right. -/
def precedes (a b : Highlight) : Bool :=
  match a.role, b.role with
  | .primary, .secondary => true
  | .secondary, .primary => false
  | _, _ => a.start ≤ b.start

/-- Highlights in the order in which they are marked. -/
def inOrder (highlights : List Highlight) : List Highlight :=
  highlights.mergeSort precedes

/-- Whether a highlight marks the column at an index counted from zero. -/
def Highlight.covers (highlight : Highlight) (index : Nat) : Bool :=
  highlight.start - 1 ≤ index && index < highlight.stop - 1

/-- What stands at an index of the row of marks. -/
def markAt (ordered : List Highlight) (index : Nat) : Char :=
  ordered.foldl (fun current highlight =>
    if highlight.covers index then mark highlight.role else current) ' '

/-- The row of marks below a line of the given width, without spaces at its end. -/
def marks (ordered : List Highlight) (width : Nat) : List Char :=
  (((List.range (width + 2)).map (markAt ordered)).reverse.dropWhile (· == ' ')).reverse

/-! ## Rendering -/

/-- The style of a label. -/
def roleStyle : LabelRole → Style
  | .primary => .ofBold .red
  | .secondary => .ofColor .blue

/-- The style of a severity. -/
def severityStyle : Severity → Style
  | .error => .ofBold .red
  | .warning => .ofBold .yellow
  | .note => .ofBold .blue

/-- Paints a row of marks run by run. -/
def paintMarks (colored : Bool) (row : List Char) : String :=
  String.join ((row.splitBy (· == ·)).map fun run =>
    let text := String.ofList run
    match run.head? with
    | some '^' => (roleStyle .primary).paint colored text
    | some '-' => (roleStyle .secondary).paint colored text
    | _ => text)

/-- The bar between the line numbers and the source. -/
def bar (colored : Bool) : String :=
  (Style.ofColor .blue).paint colored "|"

/-- The start of a row without a line number. -/
def blankGutter (colored : Bool) (gutter : Nat) : String :=
  Text.spaces (gutter + 1) ++ " " ++ bar colored

/-- The rows below a source line. -/
def markRows (colored : Bool) (gutter : Nat) (line : AnnotatedLine) : String :=
  let ordered := inOrder line.highlights
  let row := marks ordered (Text.byteLength line.text.toList)
  if row.isEmpty then ""
  else
    let start := blankGutter colored gutter ++ " "
    let messages := ordered.filterMap fun highlight =>
      highlight.message?.map fun message => (highlight.start, highlight.role, message)
    match messages with
    | [] => start ++ paintMarks colored row ++ "\n"
    | [(_, role, message)] =>
        start ++ paintMarks colored row ++ " " ++ (roleStyle role).paint colored message ++ "\n"
    | _ =>
        start ++ paintMarks colored row ++ "\n" ++
          String.join (messages.reverse.map fun (column, role, message) =>
            start ++ Text.spaces (column - 1) ++ (roleStyle role).paint colored "|" ++ " " ++
              (roleStyle role).paint colored message ++ "\n")

/-- A source line with its number. -/
def sourceRow (colored : Bool) (gutter : Nat) (line : AnnotatedLine) : String :=
  (Style.ofBold .blue).paint colored (Text.padLeft (gutter + 1) (Text.decimal line.line)) ++ " " ++
    bar colored ++ " " ++ line.text ++ "\n"

/-- What stands before a source line: a bare bar before the first one, dots after a gap. -/
def lead (colored : Bool) (gutter : Nat) (previous? : Option Nat) (line : Nat) : String :=
  match previous? with
  | none => blankGutter colored gutter ++ "\n"
  | some previous =>
      if previous + 1 < line then
        Text.spaces gutter ++ " " ++ (Style.ofColor .blue).paint colored "..." ++ "\n"
      else ""

/-- All source lines with their marks. -/
def sourceRows (colored : Bool) (gutter : Nat) : Option Nat → List AnnotatedLine → String
  | _, [] => ""
  | previous?, line :: rest =>
      lead colored gutter previous? line.line ++ sourceRow colored gutter line ++
        markRows colored gutter line ++ sourceRows colored gutter (some line.line) rest

/-- The first line: severity, code and message. -/
def header (colored : Bool) (d : Diagnostic) : String :=
  (severityStyle d.severity).paint colored d.severity.name ++
    d.code?.elim "" (fun code => (Style.ofBold .red).paint colored ("[" ++ code ++ "]")) ++ ": " ++
    (Style.ofEmphasis .bold).paint colored d.message ++ "\n"

/-- One line of the footer. -/
def footerLine (colored : Bool) (gutter : Nat) (kind text : String) : String :=
  Text.spaces (gutter + 1) ++ " " ++ (Style.ofColor .cyan).paint colored "=" ++ " " ++
    (Style.ofBold .cyan).paint colored kind ++ ": " ++ text ++ "\n"

/-- The notes and the help text. -/
def footer (colored : Bool) (gutter : Nat) (d : Diagnostic) : String :=
  String.join (d.notes.map (footerLine colored gutter "note")) ++
    d.help?.elim "" (footerLine colored gutter "help")

/-- Where the diagnostic points: the first annotated line and the column of the first label. -/
def arrow (colored : Bool) (map : LineMap) (file : String) (label : Label) (line : Nat) : String :=
  "  " ++ (Style.ofColor .blue).paint colored "-->" ++ " " ++ file ++ ":" ++ Text.decimal line ++
    ":" ++ Text.decimal (map.position label.span.start).column ++ "\n"

/-- The width of the line numbers: enough for the last line, and at least two. -/
def gutterWidth (lines : List AnnotatedLine) : Nat :=
  max (Text.decimal (lines.getLast?.elim 1 (·.line))).length 2

/-- A diagnostic as shown on a terminal. -/
def render (colored : Bool) (source : String) (file? : Option String) (d : Diagnostic) : String :=
  let map := LineMap.ofSource source
  let lines := annotatedLines map source d.labels
  match d.labels, lines with
  | label :: _, first :: _ =>
      let gutter := gutterWidth lines
      header colored d ++ arrow colored map (file?.getD "<source>") label first.line ++
        sourceRows colored gutter none lines ++
        (if d.notes.isEmpty && d.help?.isNone then "" else blankGutter colored gutter ++ "\n") ++
        footer colored gutter d
  | _, _ => header colored d ++ footer colored 2 d

/-- Several diagnostics, separated by blank lines. -/
def renderAll (colored : Bool) (source : String) (file? : Option String)
    (diagnostics : List Diagnostic) : String :=
  String.intercalate "\n" (diagnostics.map (render colored source file?))

end Terminal

end Rill

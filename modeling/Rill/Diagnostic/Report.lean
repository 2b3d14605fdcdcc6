import Rill.Diagnostic
import Rill.Diagnostic.Code
import Rill.Text.Json
import Rill.Text.LineMap

/-!
# Reports for machines

A report says which file was handled, up to which phase, whether it succeeded, and lists the
diagnostics with their places as lines and columns. Fields without content are left out: a missing
code, category, location, message or help, and an empty list of notes.
-/

namespace Rill

namespace Report

open Text (Json)

/-- A field that is left out when it has no value. -/
def optional (name : String) (value? : Option String) : List (String × Json) :=
  (value?.map fun value => (name, Json.string value)).toList

/-- The line, column and offset of a byte offset. -/
def place (map : LineMap) (offset : Nat) : List (String × Json) :=
  let position := map.position offset
  [("line", .number position.line), ("column", .number position.column),
   ("byte_offset", .number offset)]

/-- The place of a diagnostic with the text of its line. -/
def location (map : LineMap) (source : String) (span : Span) : Json :=
  let line := (map.lineText? source (map.position span.start).line).getD ""
  .object (place map span.start ++ [("source_line", .string line)])

/-- A label. -/
def label (map : LineMap) (label : Label) : Json :=
  .object ([("role", .string label.role.name)] ++ optional "message" label.message? ++
    [("start", .object (place map label.span.start)), ("end", .object (place map label.span.stop))])

/-- A diagnostic. -/
def diagnostic (map : LineMap) (source : String) (d : Diagnostic) : Json :=
  .object ([("severity", .string d.severity.name)] ++ optional "code" d.code? ++
    optional "category" ((d.code?.bind ErrorCode.find?).map (·.category.name)) ++
    [("message", .string d.message)] ++
    (d.primarySpan?.map fun span => ("location", location map source span)).toList ++
    [("labels", .list (d.labels.map (label map)))] ++
    (if d.notes.isEmpty then [] else [("notes", .list (d.notes.map .string))]) ++
    optional "help" d.help?)

/-- The report on a file. -/
def report (diagnostics : List Diagnostic) (source file phase : String) : Json :=
  let map := LineMap.ofSource source
  let errors := errorCount diagnostics
  .object [("version", .number 1), ("file", .string file), ("success", .bool (errors == 0)),
    ("phase", .string phase),
    ("diagnostics", .list (diagnostics.map (diagnostic map source))),
    ("error_count", .number errors)]

end Report

/-- The text of the report on a file. -/
def reportText (diagnostics : List Diagnostic) (source file phase : String) : String :=
  (Report.report diagnostics source file phase).render

end Rill

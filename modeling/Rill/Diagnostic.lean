import Rill.Span

/-!
# Diagnostics

A diagnostic is a message about a source, with labels that point at places in it, notes, and a help
text. Labels are primary, where the problem is, or secondary, where something related is.
-/

namespace Rill

/-- How serious a diagnostic is. -/
inductive Severity where
  | error
  | warning
  | note
deriving DecidableEq, Repr

/-- The name of a severity. -/
def Severity.name : Severity → String
  | error => "error"
  | warning => "warning"
  | note => "note"

/-- What a label points at. -/
inductive LabelRole where
  | primary
  | secondary
deriving DecidableEq, Repr

/-- The name of a role. -/
def LabelRole.name : LabelRole → String
  | primary => "primary"
  | secondary => "secondary"

/-- A place in the source and what to say about it. -/
structure Label where
  span : Span
  role : LabelRole
  message? : Option String
deriving DecidableEq, Repr

/-- A message about a source. -/
structure Diagnostic where
  severity : Severity
  code? : Option String
  message : String
  labels : List Label
  notes : List String
  help? : Option String
deriving DecidableEq, Repr

namespace Diagnostic

/-- An error with nothing but its message. -/
def error (message : String) : Diagnostic :=
  { severity := .error, code? := none, message, labels := [], notes := [], help? := none }

/-- Sets the code. -/
def withCode (diagnostic : Diagnostic) (code : String) : Diagnostic :=
  { diagnostic with code? := some code }

/-- Adds a primary label. -/
def withPrimary (diagnostic : Diagnostic) (span : Span) (message : String) : Diagnostic :=
  { diagnostic with labels := diagnostic.labels ++ [⟨span, .primary, some message⟩] }

/-- Adds a note. -/
def withNote (diagnostic : Diagnostic) (note : String) : Diagnostic :=
  { diagnostic with notes := diagnostic.notes ++ [note] }

/-- Sets the help text, when there is one. -/
def withHelp? (diagnostic : Diagnostic) (help? : Option String) : Diagnostic :=
  { diagnostic with help? := help?.or diagnostic.help? }

/-- The place of the first primary label, or else of the first label. -/
def primarySpan? (diagnostic : Diagnostic) : Option Span :=
  ((diagnostic.labels.find? fun label => label.role == .primary).or diagnostic.labels.head?).map
    (·.span)

/-- Whether the diagnostic is an error. -/
def isError (diagnostic : Diagnostic) : Bool :=
  diagnostic.severity == .error

end Diagnostic

/-- The number of errors among diagnostics. -/
def errorCount (diagnostics : List Diagnostic) : Nat :=
  diagnostics.countP Diagnostic.isError

end Rill

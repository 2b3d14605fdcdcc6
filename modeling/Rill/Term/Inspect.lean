import Rill.Term
import Rill.Text.Decimal

/-!
# Terms in full

The complete text of a term on one line, with its types and spans, for messages about broken
invariants. Each shape is its name followed by its fields, named ones in braces and the others in
parentheses.
-/

namespace Rill

/-- Named fields in braces, after the name of what they belong to. -/
def inspectFields (name : String) (fields : List (String × String)) : String :=
  name ++ " \x7b " ++ String.intercalate ", " (fields.map fun field => field.1 ++ ": " ++ field.2) ++
    " \x7d"

/-- The full text of a span. -/
def Span.inspect (span : Span) : String :=
  inspectFields "Span" [("start", Text.decimal span.start), ("end", Text.decimal span.stop)]

/-- The full text of a variable's place. -/
def VarRef.inspect (ref : VarRef) : String :=
  inspectFields "VarRef"
    [("table", "TableId(" ++ Text.decimal ref.table ++ ")"), ("index", Text.decimal ref.index)]

mutual

/-- The full text of a term. -/
def Term.inspect : Term → String
  | ⟨shape, type?, span⟩ =>
      inspectFields "AstTree"
        [("kind", shape.inspect), ("ty", Term.inspectOption type?), ("span", span.inspect)]

/-- The full text of a shape. -/
def Term.Shape.inspect : Term.Shape Term → String
  | .void => "Void"
  | .u64 => "U64"
  | .int value => "Int(" ++ Text.decimal value.toNat ++ ")"
  | .functionType args result =>
      inspectFields "TypeFunction" [("args", Term.inspectList args), ("ret", Term.inspect result)]
  | .function id => "Function(FunctionId(" ++ Text.decimal id ++ "))"
  | .variable ref => "Variable(" ++ ref.inspect ++ ")"
  | .call callee params =>
      inspectFields "Call" [("callee", Term.inspect callee), ("params", Term.inspectList params)]
  | .sum left right =>
      inspectFields "Sum" [("left", Term.inspect left), ("right", Term.inspect right)]
  | .printU64 operand => "PrintU64(" ++ Term.inspect operand ++ ")"
  | .assign target value =>
      inspectFields "Assign" [("target", target.inspect), ("value", Term.inspect value)]
  | .define target value =>
      inspectFields "Define" [("target", target.inspect), ("value", Term.inspect value)]
  | .returnWith operand => "Return(" ++ Term.inspectOption operand ++ ")"

/-- The full text of a list of terms, in brackets. -/
def Term.inspectList : List Term → String
  | terms => "[" ++ Term.inspectItems terms ++ "]"

/-- The terms of a list, separated by commas. -/
def Term.inspectItems : List Term → String
  | [] => ""
  | [term] => Term.inspect term
  | term :: terms => Term.inspect term ++ ", " ++ Term.inspectItems terms

/-- The full text of an optional term. -/
def Term.inspectOption : Option Term → String
  | none => "None"
  | some term => "Some(" ++ Term.inspect term ++ ")"

end

end Rill

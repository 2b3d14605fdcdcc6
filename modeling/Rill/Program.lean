import Rill.Fault

/-!
# Programs

A program is a table of variable tables and a table of functions, with one variable table for the
globals. Ids are positions, in order of creation.

* A name may be declared again in the same table; a look-up finds the latest declaration.
* An id that names nothing is a fault, also when only a type's text is asked for.
-/

namespace Rill

/-- A named slot. Arguments hold no value; a binding whose value is a type has no type. -/
structure Variable where
  name : String
  nameSpan : Span
  type? : Option Term
  value? : Option Term

/-- The variables of one scope, in order of declaration. -/
abbrev VariableTable := Array Variable

/-- The position of the last element with a property. -/
def lastIndex? {α : Type} (property : α → Bool) : List α → Option Nat
  | [] => none
  | x :: xs =>
      match lastIndex? property xs with
      | some index => some (index + 1)
      | none => if property x then some 0 else none

/-- The latest variable with a name. -/
def VariableTable.lookup? (table : VariableTable) (name : String) : Option Nat :=
  lastIndex? (fun var => var.name == name) table.toList

/-- A function: where its arguments and local variables are declared, what it returns and what it
does. -/
structure Function where
  span : Span
  args : TableId
  result : Term
  locals : TableId
  body : List Term

/-- All tables and functions of one source. -/
structure Program where
  tables : Array VariableTable
  functions : Array Function
  globals : TableId

namespace Program

/-- The program with nothing but an empty global table. -/
def empty : Program :=
  { tables := #[#[]], functions := #[], globals := 0 }

/-! ## Reading -/

/-- A table by id. -/
def table (program : Program) (id : TableId) : Except Fault VariableTable :=
  fetch program.tables id

/-- A variable by its place. -/
def var (program : Program) (ref : VarRef) : Except Fault Variable := do
  fetch (← program.table ref.table) ref.index

/-- A function by id. -/
def function (program : Program) (id : FunctionId) : Except Fault Function :=
  fetch program.functions id

/-- The global variables. -/
def globalVars (program : Program) : Except Fault VariableTable :=
  program.table program.globals

/-- The latest global with a name. -/
def findGlobal? (program : Program) (name : String) : Except Fault (Option VarRef) := do
  return ((← program.globalVars).lookup? name).map fun index => ⟨program.globals, index⟩

/-! ## Writing -/

/-- Adds an empty table at the end; its id is the number of tables before. -/
def addTable (program : Program) : Program :=
  { program with tables := program.tables.push #[] }

/-- Adds a function at the end; its id is the number of functions before. -/
def addFunction (program : Program) (function : Function) : Program :=
  { program with functions := program.functions.push function }

/-- Declares a variable at the end of a table. -/
def declare (program : Program) (id : TableId) (var : Variable) : Program :=
  { program with tables := program.tables.modify id (·.push var) }

/-- Changes the variable at a place; where there is none, nothing changes. -/
def modifyVar (program : Program) (ref : VarRef) (change : Variable → Variable) : Program :=
  { program with tables := program.tables.modify ref.table (·.modify ref.index change) }

/-! ## The text of a type -/

mutual

/-- A type as written in a source; a variable by its name. A term that is no type is shown in full. -/
def typeName (program : Program) : Term → Except Fault String
  | ⟨.void, _, _⟩ => return "void"
  | ⟨.u64, _, _⟩ => return "u64"
  | ⟨.functionType args result, _, _⟩ => do
      let args ← typeNames program args
      return "(" ++ String.intercalate ", " args ++ ") -> " ++ (← typeName program result)
  | ⟨.variable ref, _, _⟩ => return (← program.var ref).name
  | ⟨shape, _, _⟩ => return "<" ++ shape.inspect ++ ">"

/-- The texts of several types, from left to right. -/
def typeNames (program : Program) : List Term → Except Fault (List String)
  | [] => return []
  | type :: types => return (← typeName program type) :: (← typeNames program types)

end

/-- The text of an optional type. -/
def typeNameOf (program : Program) : Option Term → Except Fault String
  | some type => program.typeName type
  | none => return "untyped"

end Program

end Rill

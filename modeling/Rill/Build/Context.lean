import Rill.Build.Error
import Rill.Phrase
import Rill.Program.Scope
import Rill.Typing

/-!
# The context of a build

While a program is built, four things are kept: the program so far, the tables in scope, the result
types of the functions around the current phrase, and the calls to look at again.

A call of a name that has neither a type nor a value yet cannot be judged on the spot. It is
remembered and judged when every global has its value.
-/

namespace Rill

/-- A call of a name that was not known when the call was built. -/
structure DeferredCall where
  callee : VarRef
  calleeSpan : Span
  span : Span

/-- What is known while a program is built. Scopes and result types are listed innermost first. -/
structure BuildContext where
  program : Program
  scope : ScopeChain
  results : List Term
  deferred : List DeferredCall

/-- Building steps: they read and change the context, and may stop the build. -/
abbrev Build := StateT BuildContext (Except (Abort BuildError))

namespace Build

variable {α : Type}

/-- Stops the build with an error. -/
def refuse (kind : BuildErrorKind) (span : Span) : Build α :=
  throw (.reported ⟨kind, span⟩)

/-- Goes on with a result that may be a fault. -/
def ofFault (result : Except Fault α) : Build α :=
  match result with
  | .ok value => pure value
  | .error fault => throw (.broken fault)

/-- A variable of the program so far. -/
def readVar (ref : VarRef) : Build Variable := do
  ofFault ((← get).program.var ref)

/-- The text of an optional type. -/
def typeText (type? : Option Term) : Build String := do
  ofFault ((← get).program.typeNameOf type?)

/-- Declares a variable at the end of a table and gives its place. -/
def declare (table : TableId) (var : Variable) : Build VarRef := do
  let context ← get
  let index := (← ofFault (context.program.table table)).size
  set { context with program := context.program.declare table var }
  return ⟨table, index⟩

/-- Changes a declared variable. -/
def modifyVar (ref : VarRef) (change : Variable → Variable) : Build Unit :=
  modify fun context => { context with program := context.program.modifyVar ref change }

/-- Adds an empty table and enters its scope. -/
def openScope : Build TableId := do
  let context ← get
  let id := context.program.tables.size
  set { context with program := context.program.addTable, scope := context.scope.push id }
  return id

/-- Leaves the innermost scope. -/
def closeScope : Build Unit :=
  modify fun context => { context with scope := context.scope.pop }

/-- The name that a phrase consists of. -/
def nameOf (phrase : Phrase) : Build String :=
  match phrase.construct with
  | .ident name => pure name
  | construct => refuse (.notAValue construct.name) phrase.span

/-- The variable that a name means here. -/
def resolve (name : String) (span : Span) : Build VarRef := do
  let context ← get
  match ← ofFault (ScopeChain.lookup? context.program name context.scope) with
  | some ref => return ref
  | none => refuse (.undefinedName name) span

/-- Checks a value against the type it has to satisfy. -/
def expect (type value : Term) (mismatch : (expected found : String) → BuildErrorKind) :
    Build Unit := do
  unless ← ofFault (type.satisfies value) do
    refuse (mismatch (← typeText (some type)) (← typeText value.type?)) value.span

/-- Checks that a value is of type `u64`. -/
def expectU64 (place : U64Place) (value : Term) : Build Unit := do
  unless Term.isU64? value.type? do
    refuse (.notU64 place (← typeText value.type?)) value.span

/-- Stores a value in a variable: checked against the variable's type, or giving it its type. -/
def bind (ref : VarRef) (value : Term) : Build Unit := do
  let var ← readVar ref
  match var.type? with
  | some type => expect type value (.mismatch var.name)
  | none => modifyVar ref fun var => { var with type? := value.type? }
  modifyVar ref fun var => { var with value? := some value }

end Build

end Rill

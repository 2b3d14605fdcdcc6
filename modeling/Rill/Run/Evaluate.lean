import Rill.Program

/-!
# Evaluating terms

Evaluation works on a store: the variable tables and the text printed so far. Every result is a value
of its own, so reading a variable twice gives two equal copies.

* An integer or a function is its own value.
* A variable is the value of the term it holds. A global holds the term it was built with until it is
  assigned, so reading it may compute and print.
* A call runs the statements of the function that the callee evaluates to.
* A sum adds modulo 2^64; its value keeps the type and the place of the left operand's value.
* A function that reaches its end, or returns without a value, gives `void`.

Everything else is a fault. A stopped evaluation leaves the store as it was at the stop. Evaluation
need not end, so it takes a bound on how deep evaluations nest, and running out of it is told apart
from a fault.
-/

namespace Rill

/-- The state of a run. -/
structure Store where
  tables : Array VariableTable
  output : String

/-- Why an evaluation stopped. -/
inductive Stop where
  | broken (fault : Fault)
  | outOfFuel

/-- Evaluation steps; the store survives a stop. -/
abbrev Eval := EStateM Stop Store

namespace Eval

variable {α : Type}

/-- Stops with a fault. -/
def fail (fault : Fault) : Eval α :=
  throw (.broken fault)

/-- Goes on with a result that may be a fault. -/
def ofFault (result : Except Fault α) : Eval α :=
  match result with
  | .ok value => pure value
  | .error fault => fail fault

/-- The variable at a place. -/
def readVar (ref : VarRef) : Eval Variable := do
  let table ← ofFault (fetch (← get).tables ref.table)
  ofFault (fetch table ref.index)

/-- Stores a value in the variable at a place. -/
def writeVar (ref : VarRef) (value : Term) : Eval Unit := do
  let _ ← readVar ref
  modify fun store =>
    { store with
      tables := store.tables.modify ref.table
        (·.modify ref.index fun var => { var with value? := some value }) }

/-- Prints text. -/
def print (text : String) : Eval Unit :=
  modify fun store => { store with output := store.output ++ text }

/-! ## Statements -/

/-- Runs statements in order with `evaluate` for their values. The result is the returned value, or
`none` when the end is reached. -/
def runStatements (evaluate : Term → Eval Term) : List Term → Eval (Option Term)
  | [] => return none
  | statement :: rest => do
      match statement.shape with
      | .printU64 operand =>
          match (← evaluate operand).shape with
          | .int value => print (Text.decimal value.toNat)
          | shape => fail (.printedNonInteger shape)
          runStatements evaluate rest
      | .call .. =>
          let _ ← evaluate statement
          runStatements evaluate rest
      | .assign target value | .define target value =>
          writeVar target (← evaluate value)
          runStatements evaluate rest
      | .returnWith none => return some (.voidAt statement.span)
      | .returnWith (some value) => return some (← evaluate value)
      | shape => fail (.strayStatement shape)

/-- Calls a function without arguments, with `evaluate` for the values in its body. -/
def callWith (evaluate : Term → Eval Term) (functions : Array Function) (id : FunctionId) :
    Eval Term := do
  let function ← ofFault (fetch functions id)
  match ← runStatements evaluate function.body with
  | some result => return result
  | none => return .voidAt function.span

/-! ## Terms -/

/-- The value of a term. The first argument bounds how deep evaluations nest. -/
def evaluate (functions : Array Function) : (fuel : Nat) → Term → Eval Term
  | 0, _ => throw .outOfFuel
  | fuel + 1, term => do
      match term.shape with
      | .int _ | .function _ => return term
      | .variable ref =>
          match (← readVar ref).value? with
          | some held => evaluate functions fuel held
          | none => fail (.emptyVariable ref)
      | .call callee [] =>
          match (← evaluate functions fuel callee).shape with
          | .function id => callWith (evaluate functions fuel) functions id
          | shape => fail (.calledNonFunction shape)
      | .call _ _ => fail .callWithArguments
      | .sum left right =>
          let left ← evaluate functions fuel left
          let right ← evaluate functions fuel right
          match left.shape, right.shape with
          | .int a, .int b => return { left with shape := .int (a + b) }
          | a, b => fail (.addedNonIntegers a b)
      | shape => fail (.cannotEvaluate shape)

/-- Calls a function without arguments. -/
def call (functions : Array Function) (fuel : Nat) (id : FunctionId) : Eval Term :=
  callWith (evaluate functions fuel) functions id

end Eval

end Rill

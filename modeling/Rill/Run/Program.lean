import Rill.Run.Evaluate

/-!
# Running a program

A run calls the entry point: the function held by the latest global that is named `main` and holds a
function. It must take no arguments. The variables keep what the run assigned to them, also when the
run stops in the middle.
-/

namespace Rill

/-- The name of the entry point. -/
def entryName : String := "main"

/-- Why a program cannot be run. -/
inductive RunError where
  | noEntryPoint
  | entryArity (found : Nat)
  | output (reason : String)
deriving DecidableEq, Repr

/-- What went wrong. -/
def RunError.message : RunError → String
  | noEntryPoint => "entry point not found: no top-level `main` bound to a function"
  | entryArity found => "`main` must take no arguments, found " ++ Text.decimal found
  | output reason => "failed to write output: " ++ reason

/-- Why a run has no result: an error to report, a fault, or a run that nests too deep. -/
inductive Halt (ε : Type) where
  | reported (error : ε)
  | broken (fault : Fault)
  | outOfFuel

/-- What a run leaves behind: its result, the program with its assignments, and all that was printed. -/
structure RunOutcome where
  result : Except (Halt RunError) Term
  program : Program
  output : String

/-- The function that a variable holds, if it holds one. -/
def Variable.function? (var : Variable) : Option FunctionId :=
  match var.value? with
  | some ⟨.function id, _, _⟩ => some id
  | _ => none

namespace Program

/-- The function of the entry point. -/
def entryPoint? (globals : VariableTable) : Option FunctionId :=
  globals.toList.reverse.findSome? fun var =>
    if var.name == entryName then var.function? else none

/-- The entry point, if it can be called. -/
def entry (program : Program) : Except (Halt RunError) FunctionId := do
  let globals ← program.globalVars.mapError .broken
  match entryPoint? globals with
  | none => throw (.reported .noEntryPoint)
  | some id =>
      let function ← (program.function id).mapError .broken
      let args ← (program.table function.args).mapError .broken
      if args.size = 0 then return id else throw (.reported (.entryArity args.size))

/-- Calls a function after `output` was printed already. -/
def invoke (program : Program) (fuel : Nat) (output : String) (id : FunctionId) : RunOutcome :=
  match Eval.call program.functions fuel id ⟨program.tables, output⟩ with
  | .ok result store => ⟨.ok result, { program with tables := store.tables }, store.output⟩
  | .error (.broken fault) store =>
      ⟨.error (.broken fault), { program with tables := store.tables }, store.output⟩
  | .error .outOfFuel store =>
      ⟨.error .outOfFuel, { program with tables := store.tables }, store.output⟩

/-- Runs a program after `output` was printed already. -/
def run (program : Program) (fuel : Nat) (output : String) : RunOutcome :=
  match program.entry with
  | .error halt => ⟨.error halt, program, output⟩
  | .ok id => program.invoke fuel output id

end Program

end Rill

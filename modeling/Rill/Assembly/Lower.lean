import Rill.Assembly.Instr
import Rill.Run.Program

/-!
# Lowering a program

Every global that holds a function becomes a block: its label, its statements and a return. Blocks
stand in the order in which their names first hold a function; a later function of the same name
takes the place of the earlier one.

Only a part of the language has instructions: printing an integer literal, calling a global function
and returning without a value. A bare return ends its block, so what follows it is not lowered.
-/

namespace Rill

/-- Constructs without instructions. -/
inductive Unsupported where
  | printOfComputed
  | valueReturn
  | assignment
  | localBinding
  | indirectCall
  | otherStatement
deriving DecidableEq, Repr

/-- The construct in the words of a message. -/
def Unsupported.text : Unsupported → String
  | printOfComputed => "print_u64 of anything but an integer literal"
  | valueReturn => "returning a value"
  | assignment => "assignment"
  | localBinding => "local binding"
  | indirectCall => "calls to anything but a global function"
  | otherStatement => "this statement"

/-- Why a program cannot be lowered or assembled. -/
inductive AsmError where
  | noEntryPoint
  | unsupported (what : Unsupported) (span : Span)
  | tool (reason : String)
deriving DecidableEq, Repr

/-- What went wrong. -/
def AsmError.message : AsmError → String
  | noEntryPoint => "no `main` function to use as the entry point"
  | unsupported what _ => "the assembly backend does not support " ++ what.text
  | tool reason => reason

namespace Assembly

/-- Names with the function each stands for, in the order of the blocks. -/
abbrev Labels := List (String × FunctionId)

/-- Gives a name its function: in its old place, or at the end when the name is new. -/
def Labels.insert (labels : Labels) (name : String) (id : FunctionId) : Labels :=
  match labels with
  | [] => [(name, id)]
  | (other, old) :: rest =>
      if other = name then (name, id) :: rest else (other, old) :: Labels.insert rest name id

/-- Whether a name has a function. -/
def Labels.contains (labels : Labels) (name : String) : Bool :=
  labels.any fun entry => entry.1 == name

/-- The labels of the globals that hold functions. -/
def Labels.ofGlobals (globals : VariableTable) : Labels :=
  globals.toList.foldl (fun labels var =>
    match var.function? with
    | some id => Labels.insert labels var.name id
    | none => labels) []

/-- The label that a call goes to. -/
def callTarget (program : Program) (labels : Labels) (callee : Term) :
    Except (Abort AsmError) String := do
  let unsupported := Abort.reported (.unsupported .indirectCall callee.span)
  match callee.shape with
  | .variable ref =>
      if ref.table = program.globals then
        let var ← (program.var ref).mapError .broken
        if Labels.contains labels var.name then return functionLabel var.name
        else throw unsupported
      else throw unsupported
  | _ => throw unsupported

/-- The instructions of a function's statements, with the return that ends them. -/
def lowerStatements (program : Program) (labels : Labels) :
    List Term → Except (Abort AsmError) (List Instr)
  | [] => return [.ret]
  | statement :: rest =>
      let refuse (what : Unsupported) (span : Span) : Except (Abort AsmError) (List Instr) :=
        throw (.reported (.unsupported what span))
      match statement.shape with
      | .printU64 operand =>
          match operand.shape with
          | .int value => do
              return .moveRdi value :: .call printRoutine ::
                (← lowerStatements program labels rest)
          | _ => refuse .printOfComputed operand.span
      | .call callee _ => do
          let target ← callTarget program labels callee
          return .call target :: (← lowerStatements program labels rest)
      | .returnWith none => return [.ret]
      | .returnWith (some _) => refuse .valueReturn statement.span
      | .assign .. => refuse .assignment statement.span
      | .define .. => refuse .localBinding statement.span
      | _ => refuse .otherStatement statement.span

/-- The block of a function. -/
def lowerFunction (program : Program) (labels : Labels) (name : String) (id : FunctionId) :
    Except (Abort AsmError) (List Instr) := do
  let function ← (program.function id).mapError .broken
  return .label (functionLabel name) :: (← lowerStatements program labels function.body)

/-- The instructions of a program. -/
def generate (program : Program) : Except (Abort AsmError) (List Instr) := do
  let globals ← program.globalVars.mapError .broken
  let labels := Labels.ofGlobals globals
  if Labels.contains labels entryName then
    return (← labels.mapM fun entry => lowerFunction program labels entry.1 entry.2).flatten
  else throw (.reported .noEntryPoint)

end Assembly

end Rill

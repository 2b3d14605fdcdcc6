import Rill.Text.Decimal

/-!
# Instructions

The few instructions that a program is lowered to, and their text. Labels of functions carry a prefix
of their own, so no name of a program meets a name of the assembler or of the image around it.
-/

namespace Rill

/-- An instruction or a label. -/
inductive Instr where
  | label (name : String)
  /-- Loads the first argument register. -/
  | moveRdi (value : UInt64)
  | call (target : String)
  | ret
deriving DecidableEq, Repr

/-- The routine of the image that prints the first argument register. -/
def printRoutine : String := "print_u64"

/-- The label of a function. -/
def functionLabel (name : String) : String :=
  "fn_" ++ name

/-- The line of an instruction. -/
def Instr.text : Instr → String
  | label name => name ++ ":"
  | moveRdi value => "    mov rdi, " ++ Text.decimal value.toNat
  | call target => "    call " ++ target
  | ret => "    ret"

end Rill

import Rill.Span

/-!
# Terms

A term is a node of a checked program: its shape, the type it was given, if any, and the source it
stands for. Types are terms too, because a binding may name a type.

* Variables are named by the table that declares them and their position there.
* Functions are named by their position in the program.
* `void` is both the type without values and the result of a function that returns nothing.
-/

namespace Rill

/-- The position of a variable table in a program. -/
abbrev TableId := Nat

/-- The position of a function in a program. -/
abbrev FunctionId := Nat

/-- A variable: its table and its position in the table. -/
structure VarRef where
  table : TableId
  index : Nat
deriving DecidableEq, Repr

/-- One layer of a term, with inner terms of type `α`. -/
inductive Term.Shape (α : Type) where
  | void
  | u64
  | int (value : UInt64)
  | functionType (args : List α) (result : α)
  | function (id : FunctionId)
  | variable (ref : VarRef)
  | call (callee : α) (params : List α)
  | sum (left right : α)
  | printU64 (operand : α)
  | assign (target : VarRef) (value : α)
  /-- A local binding, computed once where it stands. -/
  | define (target : VarRef) (value : α)
  | returnWith (operand : Option α)
deriving DecidableEq, Repr

namespace Term.Shape

variable {α : Type}

/-- Whether the shape denotes a type. A variable does: a binding may name a type. -/
def isType : Shape α → Bool
  | .void | .u64 | .functionType .. | .variable _ => true
  | _ => false

/-- Whether the shape is `void`. -/
def isVoid : Shape α → Bool
  | .void => true
  | _ => false

/-- Whether the shape is `u64`. -/
def isU64 : Shape α → Bool
  | .u64 => true
  | _ => false

end Term.Shape

/-- A shape with its type and its place in the source. -/
structure Term where
  shape : Term.Shape Term
  type? : Option Term
  span : Span

namespace Term

/-- A term without a type. -/
def untyped (shape : Shape Term) (span : Span) : Term :=
  ⟨shape, none, span⟩

/-- A term with a type. -/
def typed (shape : Shape Term) (type : Term) (span : Span) : Term :=
  ⟨shape, some type, span⟩

/-- The `void` type, or the result that carries nothing. -/
def voidAt (span : Span) : Term :=
  untyped .void span

instance : Inhabited Term := ⟨voidAt ⟨0, 0⟩⟩

/-- The `u64` type. -/
def u64At (span : Span) : Term :=
  untyped .u64 span

/-- An integer with its type. -/
def intAt (value : UInt64) (span : Span) : Term :=
  typed (.int value) (u64At span) span

/-! ## Equality

Two terms are the same when shapes, types and spans agree throughout. -/

mutual

/-- Whether two terms are the same. -/
def same : Term → Term → Bool
  | ⟨a, s, i⟩, ⟨b, t, j⟩ => sameShape a b && sameOption s t && i == j

/-- Whether two shapes are the same. -/
def sameShape : Shape Term → Shape Term → Bool
  | .void, .void => true
  | .u64, .u64 => true
  | .int v, .int w => v == w
  | .functionType as a, .functionType bs b => sameList as bs && same a b
  | .function f, .function g => f == g
  | .variable x, .variable y => x == y
  | .call a as, .call b bs => same a b && sameList as bs
  | .sum a c, .sum b d => same a b && same c d
  | .printU64 a, .printU64 b => same a b
  | .assign x a, .assign y b => x == y && same a b
  | .define x a, .define y b => x == y && same a b
  | .returnWith a, .returnWith b => sameOption a b
  | _, _ => false

/-- Whether two lists of terms are the same. -/
def sameList : List Term → List Term → Bool
  | [], [] => true
  | a :: as, b :: bs => same a b && sameList as bs
  | _, _ => false

/-- Whether two optional terms are the same. -/
def sameOption : Option Term → Option Term → Bool
  | none, none => true
  | some a, some b => same a b
  | _, _ => false

end

end Term

end Rill

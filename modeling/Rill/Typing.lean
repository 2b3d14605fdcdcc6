import Rill.Fault

/-!
# Types and values

Function types are compared by structure, named types by the variable that names them. Spans and the
types of types play no part.

* No value satisfies `void`.
* Integers and terms of type `u64` satisfy `u64`.
* A function type or a named type is satisfied by the terms whose type equals it.

Comparing a term that is no type is a fault, as is asking what satisfies one.
-/

namespace Rill

namespace Term

mutual

/-- Whether two types are equal. Arguments are compared from left to right, then the results; the
first difference ends the comparison. -/
def typeEquals : Term → Term → Except Fault Bool
  | ⟨.void, _, _⟩, ⟨.void, _, _⟩ => return true
  | ⟨.u64, _, _⟩, ⟨.u64, _, _⟩ => return true
  | ⟨.functionType args result, _, _⟩, ⟨.functionType args' result', _, _⟩ => do
      if args.length ≠ args'.length then return false
      else if ← typesEqual args args' then typeEquals result result'
      else return false
  | ⟨.variable ref, _, _⟩, ⟨.variable ref', _, _⟩ => return ref == ref'
  | ⟨shape, _, _⟩, ⟨shape', _, _⟩ =>
      if shape.isType && shape'.isType then return false
      else throw (.comparedNonTypes shape shape')

/-- Whether two lists of types are equal as far as both reach. -/
def typesEqual : List Term → List Term → Except Fault Bool
  | type :: types, type' :: types' => do
      if ← typeEquals type type' then typesEqual types types' else return false
  | _, _ => return true

end

/-- Whether an optional type is `u64`. -/
def isU64? (type? : Option Term) : Bool :=
  type?.any fun type => type.shape.isU64

/-- Whether a value may be stored where a type is expected. -/
def satisfies (type value : Term) : Except Fault Bool :=
  match type.shape with
  | .void => return false
  | .u64 =>
      match value.shape with
      | .int _ => return true
      | _ => return isU64? value.type?
  | .functionType .. | .variable _ =>
      match value.type? with
      | some found => typeEquals type found
      | none => return false
  | shape => throw (.satisfiedNonType shape)

end Term

end Rill

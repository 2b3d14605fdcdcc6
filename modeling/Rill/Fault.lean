import Rill.Term
import Rill.Term.Inspect

/-!
# Faults

A fault is a broken invariant: data that the earlier stages never produce was reached. It is no
error of the user's program, so it is kept apart from the reported errors of each stage.

* An id that names nothing: the table, function, variable or node does not exist.
* A type operation reached a term that is no type.
* A run reached a term that cannot be evaluated in its place.
-/

namespace Rill

/-- The invariants that can be found broken. -/
inductive Fault where
  | outOfRange (size index : Nat)
  | comparedNonTypes (left right : Term.Shape Term)
  | satisfiedNonType (type : Term.Shape Term)
  | printedNonInteger (value : Term.Shape Term)
  | strayStatement (statement : Term.Shape Term)
  | emptyVariable (var : VarRef)
  | callWithArguments
  | calledNonFunction (value : Term.Shape Term)
  | addedNonIntegers (left right : Term.Shape Term)
  | cannotEvaluate (term : Term.Shape Term)

namespace Fault

/-- The text that names the broken invariant. -/
def message : Fault → String
  | outOfRange size index =>
      "index out of bounds: the len is " ++ Text.decimal size ++ " but the index is " ++
        Text.decimal index
  | comparedNonTypes left right =>
      "type equality reached non-type nodes " ++ left.inspect ++ " and " ++ right.inspect
  | satisfiedNonType type => "satisfaction check against non-type node " ++ type.inspect
  | printedNonInteger value => "print_u64 operand evaluated to " ++ value.inspect
  | strayStatement statement => "statement " ++ statement.inspect ++ " reached the evaluator"
  | emptyVariable var => "variable " ++ var.inspect ++ " read before it holds a value"
  | callWithArguments => "calls with arguments reached the evaluator"
  | calledNonFunction value => "callee evaluated to " ++ value.inspect
  | addedNonIntegers left right =>
      "sum of " ++ left.inspect ++ " and " ++ right.inspect
  | cannotEvaluate term => "cannot evaluate " ++ term.inspect

end Fault

/-- Why a stage stopped without a result: an error to report, or a fault. -/
inductive Abort (ε : Type) where
  | reported (error : ε)
  | broken (fault : Fault)

/-- The element of `xs` with the given id. -/
def fetch {α : Type} (xs : Array α) (id : Nat) : Except Fault α :=
  match xs[id]? with
  | some x => .ok x
  | none => .error (.outOfRange xs.size id)

end Rill

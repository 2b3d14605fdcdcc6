import Mathlib
import Rill.Proofs.Reduction.Layout
import Rill.Reduction.Reduce

/-!
# Reduction of items

The reduction of a range only depends on the list of its pieces: the tokens that are still bare and
the forms of the nodes made so far. This module says how such a list is reduced, without a table of
nodes, owners or positions.

An action sees the items to the left of its token, nearest first, and those to the right. It answers
how many items of each side it folds into the new form. A pass is a walk over the list with the items
behind and ahead of it.
-/

namespace Rill

/-- A bare token, or a finished form. -/
abbrev Item := Piece Form

namespace Items

/-- What an action makes of a token and its neighbours: the new form takes the place of `before` items
on the left, the token, and `after` items on the right. -/
structure Fold where
  before : Nat
  form : Form
  after : Nat

/-- How the items between two brackets are reduced. -/
abbrev Inner := List Item → Except ReduceErrorKind (List Form)

/-! ## Actions -/

/-- The first item, if it is a form with the property. -/
def first? (property : Construct Form → Bool) (items : List Item) : Option Form :=
  (items.head?.bind Piece.part?).filter fun f => property f.construct

/-- Whether a piece is a bare opening bracket. -/
def isOpener {α : Type} (bracket : Bracket) : Piece α → Bool
  | .token t => t == .opening bracket
  | .part _ => false

/-- The construct of a bracket pair over forms. -/
def groupOf (bracket : Bracket) (children : List Form) : Form :=
  match bracket with
  | .paren => ⟨.paren children⟩
  | .brace => ⟨.curly children⟩

/-- A group of brackets around `inside` items. Right before a parenthesis a name makes a call. -/
def closed (bracket : Bracket) (children : List Form) (inside : Nat) (outside : List Item) : Fold :=
  match bracket, outside with
  | .paren, .token (.ident name) :: _ =>
      ⟨inside + 2, ⟨.call ⟨.ident name⟩ ⟨.paren children⟩⟩, 0⟩
  | bracket, _ => ⟨inside + 1, groupOf bracket children, 0⟩

theorem closed_eq (bracket : Bracket) (children : List Form) (inside : Nat) (outside : List Item) :
    closed bracket children inside outside = { closed bracket children 0 outside with
      before := inside + (closed bracket children 0 outside).before } := by
  unfold closed
  split <;> simp

theorem closed_after (bracket : Bracket) (children : List Form) (inside : Nat) (outside : List Item) :
    (closed bracket children inside outside).after = 0 := by
  unfold closed
  split <;> rfl

theorem closed_of_no_name {bracket : Bracket} {children : List Form} {inside : Nat} {outside : List Item}
    (noName : ∀ name rest, outside ≠ .token (.ident name) :: rest) :
    closed bracket children inside outside = ⟨inside + 1, groupOf bracket children, 0⟩ := by
  unfold closed
  split
  · next name rest => exact absurd rfl (noName name rest)
  · rfl

/-- Ends a bracket pair. -/
def close (inner : Inner) (bracket : Bracket) (left : List Item) : Except ReduceErrorKind Fold :=
  match left.findIdx? (isOpener bracket) with
  | none => .error (.unmatchedClose (.closing bracket))
  | some inside => do
      let children ← inner (left.take inside).reverse
      return closed bracket children inside (left.drop (inside + 1))

/-- Makes a function or a function type. -/
def arrow (left right : List Item) : Except ReduceErrorKind Fold := do
  let some params := first? Construct.isParen left | throw .missingParameters
  let some result := first? Construct.isType right | throw .missingReturnType
  match right.tail.head?.bind Piece.part? with
  | some body =>
      if body.construct.isCurly then return ⟨1, ⟨.function params result body⟩, 2⟩
      else throw .missingBody
  | none => return ⟨1, ⟨.functionType params result⟩, 1⟩

/-- Makes a sum. -/
def sum (left right : List Item) : Except ReduceErrorKind Fold := do
  let some leftOperand := first? Construct.isValue left | throw (.missingOperand .plus)
  let some rightOperand := first? Construct.isValue right | throw (.missingOperand .plus)
  return ⟨1, ⟨.sum leftOperand rightOperand⟩, 1⟩

/-- Makes a print. -/
def print (right : List Item) : Except ReduceErrorKind Fold := do
  let some operand := first? Construct.isValue right | throw (.missingOperand .printWord)
  return ⟨0, ⟨.printU64 operand⟩, 1⟩

/-- Makes a return. -/
def returnWith (right : List Item) : Fold :=
  match first? Construct.isValue right with
  | some operand => ⟨0, ⟨.returnWith (some operand)⟩, 1⟩
  | none => ⟨0, ⟨.returnWith none⟩, 0⟩

/-- Makes a binding whose type is left to its value. -/
def inferred (left right : List Item) : Except ReduceErrorKind Fold := do
  let some name := first? Construct.isIdent left | throw .bindingName
  let some value := first? Construct.isValue right | throw .missingValue
  return ⟨1, ⟨.binding name none (some value)⟩, 1⟩

/-- The items behind a colon, if the first item is one. -/
def behindColon? : List Item → Option (List Item)
  | .token .colon :: more => some more
  | _ => none

/-- Makes a binding with a type, and with a value behind a second colon. -/
def annotated (left right : List Item) : Except ReduceErrorKind Fold := do
  let some name := first? Construct.isIdent left | throw .bindingName
  let some type := first? Construct.isType right | throw .missingType
  match behindColon? right.tail with
  | some more =>
      let some value := first? Construct.isValue more | throw .missingValue
      return ⟨1, ⟨.binding name (some type) (some value)⟩, 3⟩
  | none => return ⟨1, ⟨.binding name (some type) none⟩, 1⟩

/-- Makes an assignment. -/
def assign (left right : List Item) : Except ReduceErrorKind Fold := do
  let some name := first? Construct.isIdent left | throw .invalidAssignTarget
  let some value := first? Construct.isValue right | throw (.missingOperand .equals)
  return ⟨1, ⟨.assign name value⟩, 1⟩

/-- Closes the expression before a terminator. -/
def terminated (terminator : Token) (wrap : Form → Construct Form) (left : List Item) :
    Except ReduceErrorKind Fold := do
  let some operand := first? Construct.isExpression left | throw (.badTerminator terminator)
  return ⟨1, ⟨wrap operand⟩, 0⟩

/-- The action for a bare token. An opening bracket waits for its closing one. -/
def act (inner : Inner) (left : List Item) (t : Token) (right : List Item) :
    Except ReduceErrorKind Fold :=
  match t with
  | .closing bracket => close inner bracket left
  | .ident name => .ok ⟨0, ⟨.ident name⟩, 0⟩
  | .int value => .ok ⟨0, ⟨.int value⟩, 0⟩
  | .void => .ok ⟨0, ⟨.void⟩, 0⟩
  | .u64 => .ok ⟨0, ⟨.u64⟩, 0⟩
  | .arrow => arrow left right
  | .plus => sum left right
  | .printWord => print right
  | .returnWord => .ok (returnWith right)
  | .doubleColon => inferred left right
  | .colon => annotated left right
  | .equals => assign left right
  | .semicolon => terminated .semicolon .statement left
  | .comma => terminated .comma .separator left
  | .opening bracket => .error (.unclosedBracket (.opening bracket))

/-! ## Passes -/

section Pass

variable (inner : Inner) (group : Group)

/-- A pass from left to right: `left` holds the items behind the walk, nearest first. -/
def scanRight (left : List Item) : (right : List Item) → Except ReduceErrorKind (List Item)
  | [] => .ok left.reverse
  | .part f :: right => scanRight (.part f :: left) right
  | .token t :: right =>
      if group.accepts t then do
        let fold ← act inner left t right
        scanRight (.part fold.form :: left.drop fold.before) (right.drop fold.after)
      else scanRight (.token t :: left) right
termination_by right => right.length

/-- A pass from right to left: `right` holds the items behind the walk, nearest first. -/
def scanLeft (right : List Item) : (left : List Item) → Except ReduceErrorKind (List Item)
  | [] => .ok right
  | .part f :: left => scanLeft (.part f :: right) left
  | .token t :: left =>
      if group.accepts t then do
        let fold ← act inner left t right
        scanLeft (.part fold.form :: right.drop fold.after) (left.drop fold.before)
      else scanLeft (.token t :: right) left
termination_by left => left.length

/-- The pass of one group. -/
def pass (items : List Item) (group : Group) : Except ReduceErrorKind (List Item) :=
  match group.direction with
  | .leftToRight => scanRight inner group [] items
  | .rightToLeft => scanLeft inner group [] items.reverse

end Pass

/-- What is wrong with a token that no group has claimed. -/
def leftover (t : Token) : ReduceErrorKind :=
  match t with
  | .opening bracket => .unclosedBracket (.opening bracket)
  | t => .unexpectedToken t

/-- Ends the reduction: the forms, if no token is bare. -/
def finish : List Item → Except ReduceErrorKind (List Form)
  | [] => .ok []
  | .part f :: items => return f :: (← finish items)
  | .token t :: _ => .error (leftover t)

/-- Reduces a list of items, going at most `depth` bracket pairs deep. -/
def reduce : (depth : Nat) → Inner
  | 0, items => finish items
  | depth + 1, items => do
      let items ← Group.byPriority.foldlM (pass (reduce depth)) items
      finish items

end Items

end Rill

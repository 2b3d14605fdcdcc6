import Rill.ParseTree
import Rill.Token

/-!
# Priorities

The reduction of a range goes through eight groups of tokens, in order: an earlier group binds
tighter. Each group is scanned in its own direction, which decides how equal operators associate.
-/

namespace Rill

/-- What the tokens of a group are turned into. -/
inductive Group where
  /-- A closing bracket ends a bracket group, and a call when a name stands before it. -/
  | bracket
  /-- A name, an integer, `void` or `u64`. -/
  | leaf
  /-- A function or a function type. -/
  | arrow
  | sum
  /-- A print or a return. -/
  | word
  | binding
  | assign
  /-- A statement or a separated item. -/
  | terminator
deriving DecidableEq, Repr

/-- The order in which a range is scanned. -/
inductive Direction where
  | leftToRight
  | rightToLeft
deriving DecidableEq, Repr

/-- The positions of a range in scanning order. -/
def Direction.order (direction : Direction) (range : TokenRange) : List Nat :=
  match direction with
  | leftToRight => range.indices
  | rightToLeft => range.indices.reverse

namespace Group

/-- Whether a token belongs to the group. -/
def accepts : Group → Token → Bool
  | bracket, .closing _ => true
  | leaf, .ident _ | leaf, .int _ | leaf, .void | leaf, .u64 => true
  | arrow, .arrow => true
  | sum, .plus => true
  | word, .printWord | word, .returnWord => true
  | binding, .doubleColon | binding, .colon => true
  | assign, .equals => true
  | terminator, .semicolon | terminator, .comma => true
  | _, _ => false

/-- The direction in which the group is scanned. -/
def direction : Group → Direction
  | arrow | word | assign => .rightToLeft
  | bracket | leaf | sum | binding | terminator => .leftToRight

/-- All groups, tightest first. -/
def byPriority : List Group :=
  [bracket, leaf, arrow, sum, word, binding, assign, terminator]

end Group

end Rill

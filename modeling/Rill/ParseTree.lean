import Rill.Fault
import Rill.Phrase

/-!
# Parse trees

A parse tree is a table of nodes that name each other by their position, in the order in which they
were made. Every node knows the node that owns it; only the root has no owner.

Reading a tree follows the ids from the root and gives a nested phrase. A tree written by hand may
name nodes that do not exist: reading it then ends in a fault, at the first such node in the order
of the outline.
-/

namespace Rill

/-- The position of a node in its tree. -/
abbrev NodeId := Nat

/-- The tokens from `start` up to `stop`, by position. -/
structure TokenRange where
  start : Nat
  stop : Nat
deriving DecidableEq, Repr

/-- The positions in a range, from left to right. -/
def TokenRange.indices (range : TokenRange) : List Nat :=
  List.range' range.start (range.stop - range.start)

/-- Whether a position lies in a range. -/
def TokenRange.contains (range : TokenRange) (index : Nat) : Bool :=
  range.start ≤ index && index < range.stop

/-- A construct over node ids, with what it covers and the node that owns it. -/
structure Node where
  construct : Construct NodeId
  span : Span
  tokens : TokenRange
  parent : Option NodeId
deriving DecidableEq, Repr

/-- Nodes in order of creation, with the root once the tree is finished. -/
structure ParseTree where
  nodes : Array Node
  root : Option NodeId
deriving DecidableEq, Repr

namespace ParseTree

/-- The phrase at a node. A path without repetition is no longer than the table of nodes, so a
`depth` of its size reads every tree in which no node is inside itself. -/
def readAt (nodes : Array Node) : (depth : Nat) → NodeId → Except Fault Phrase
  | 0, id => .error (.outOfRange nodes.size id)
  | depth + 1, id => do
      let node ← fetch nodes id
      return ⟨← node.construct.mapM (readAt nodes depth), node.span⟩

/-- The phrase at the root, if the tree has one. -/
def phrase? (tree : ParseTree) : Except Fault (Option Phrase) :=
  match tree.root with
  | none => .ok none
  | some root => return some (← readAt tree.nodes tree.nodes.size root)

/-- The top-level phrases; none when the tree is unfinished. -/
def topLevel (tree : ParseTree) : Except Fault (List Phrase) := do
  match ← tree.phrase? with
  | some ⟨.root children, _⟩ => return children
  | _ => return []

/-- The ids of the top-level nodes. -/
def rootChildren (tree : ParseTree) : List NodeId :=
  match tree.root.bind (tree.nodes[·]?) with
  | some ⟨.root children, _, _, _⟩ => children
  | _ => []

/-- The outline of the whole tree. -/
def outline (tree : ParseTree) : Except Fault String := do
  match ← tree.phrase? with
  | some phrase => return phrase.outline
  | none => return "<empty>"

end ParseTree

end Rill

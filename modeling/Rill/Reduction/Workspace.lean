import Rill.ParseTree
import Rill.Token

/-!
# The workspace of a reduction

While a list of lexemes is being reduced, every token has an owner slot that names the node it was
claimed for, and the nodes made so far stand in a table with parent links.

A claimed token stands for the outermost node that contains it and still belongs to the range being
reduced. That node is found by hoisting: follow the parents of the owner until the next parent is
the target of the range.
-/

namespace Rill

/-- Lexemes, the owner of each, and the nodes made so far. -/
structure Workspace where
  lexemes : Array Lexeme
  owners : Array (Option NodeId)
  nodes : Array Node
deriving DecidableEq, Repr

namespace Workspace

/-- No token is claimed and there is no node. -/
def ofLexemes (lexemes : Array Lexeme) : Workspace :=
  { lexemes, owners := Array.replicate lexemes.size none, nodes := #[] }

/-- The node that a token was claimed for. -/
def owner? (w : Workspace) (index : Nat) : Option NodeId :=
  (w.owners[index]?).join

/-- Whether a token has an owner. -/
def isClaimed (w : Workspace) (index : Nat) : Bool :=
  (w.owner? index).isSome

/-- The token at a position. -/
def token? (w : Workspace) (index : Nat) : Option Token :=
  (w.lexemes[index]?).map (·.token)

/-- The node that owns a node. -/
def parent? (w : Workspace) (id : NodeId) : Option NodeId :=
  if h : id < w.nodes.size then w.nodes[id].parent else none

/-- Whether the construct of a node has a property; a missing node has none. -/
def has (w : Workspace) (id : NodeId) (property : Construct NodeId → Bool) : Bool :=
  (w.nodes[id]?).any fun node => property node.construct

/-- The tokens of a node. -/
def tokensOf (w : Workspace) (id : NodeId) : TokenRange :=
  (w.nodes[id]?).elim ⟨0, 0⟩ (·.tokens)

/-- The source from the first to the last token of a range. -/
def spanOf (w : Workspace) (range : TokenRange) : Span :=
  match w.lexemes[range.start]?, w.lexemes[range.stop - 1]? with
  | some first, some last => first.span.join last.span
  | _, _ => ⟨0, 0⟩

/-! ## Finding nodes -/

/-- The outermost node around `id` below `target`, looked for within `steps` parents. -/
def hoistWithin (w : Workspace) (target : NodeId) : (steps : Nat) → NodeId → NodeId
  | 0, id => id
  | steps + 1, id =>
      match w.parent? id with
      | none => id
      | some parent => if parent = target then id else w.hoistWithin target steps parent

/-- The outermost node around `id` below `target`. A chain of parents is no longer than the table
of nodes. -/
def hoist (w : Workspace) (target : NodeId) (id : NodeId) : NodeId :=
  w.hoistWithin target w.nodes.size id

/-- The hoisted node at a position inside the range, if its token is claimed. -/
def nodeAt? (w : Workspace) (range : TokenRange) (target : NodeId) (index : Nat) : Option NodeId :=
  if range.contains index then (w.owner? index).map (w.hoist target) else none

/-- The hoisted node just before a position. -/
def before? (w : Workspace) (range : TokenRange) (target : NodeId) : (index : Nat) → Option NodeId
  | 0 => none
  | index + 1 => w.nodeAt? range target index

/-- The hoisted node just after a position. -/
def after? (w : Workspace) (range : TokenRange) (target : NodeId) (index : Nat) : Option NodeId :=
  w.nodeAt? range target (index + 1)

/-- Drops every element that repeats the one before it. -/
def dropRepeats : List NodeId → List NodeId
  | [] => []
  | id :: rest =>
      match dropRepeats rest with
      | [] => [id]
      | next :: more => if id = next then next :: more else id :: next :: more

/-- The hoisted nodes of the claimed tokens in a range, each once, in source order. -/
def tops (w : Workspace) (range : TokenRange) (target : NodeId) : List NodeId :=
  dropRepeats (range.indices.filterMap fun index => (w.owner? index).map (w.hoist target))

/-! ## Changing the workspace -/

/-- Makes `parent` the owner of a node. -/
def adopt (w : Workspace) (parent : NodeId) (id : NodeId) : Workspace :=
  { w with nodes := w.nodes.modify id fun node => { node with parent := some parent } }

/-- Adds a node over a token range, owned by `parent`, and makes it the owner of `parts`. The new
node stands at the end of the table. -/
def addNode (w : Workspace) (construct : Construct NodeId) (tokens : TokenRange)
    (parent : Option NodeId) (parts : List NodeId) : Workspace :=
  let id := w.nodes.size
  let node := { construct, span := w.spanOf tokens, tokens, parent }
  parts.foldl (fun w part => w.adopt id part) { w with nodes := w.nodes.push node }

/-- Claims a token for a node. -/
def claim (w : Workspace) (index : Nat) (id : NodeId) : Workspace :=
  { w with owners := w.owners.setIfInBounds index (some id) }

/-- Replaces the construct of a node. -/
def setConstruct (w : Workspace) (id : NodeId) (construct : Construct NodeId) : Workspace :=
  { w with nodes := w.nodes.modify id fun node => { node with construct } }

end Workspace

end Rill

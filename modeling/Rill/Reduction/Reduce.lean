import Rill.Reduction.Actions

/-!
# Reducing lexemes to a parse tree

A range is reduced by going through all groups, tightest first. Afterwards every token of the range
must be claimed, and the nodes left directly under the target are its children.

The inside of a bracket pair is a range of its own, reduced when the pair is closed. It is shorter
than the range around it, so the depth of nested reductions is bounded by the number of lexemes.
-/

namespace Rill

namespace Workspace

/-- Visits one position in the pass of a group: a token that is claimed or belongs to another group
is left alone. -/
def visit (nested : Nested) (group : Group) (range : TokenRange) (target : NodeId) (w : Workspace)
    (index : Nat) : Except ReduceError Workspace :=
  match w.lexemes[index]? with
  | some lexeme =>
      if !w.isClaimed index && group.accepts lexeme.token then
        w.act nested range target index lexeme
      else .ok w
  | none => .ok w

/-- The pass of one group over a range. -/
def pass (nested : Nested) (range : TokenRange) (target : NodeId) (w : Workspace) (group : Group) :
    Except ReduceError Workspace :=
  (group.direction.order range).foldlM (visit nested group range target) w

/-- The error of a token that no group has claimed. -/
def leftover (lexeme : Lexeme) : ReduceError :=
  match lexeme.token with
  | .opening bracket => ⟨.unclosedBracket (.opening bracket), lexeme.span⟩
  | token => ⟨.unexpectedToken token, lexeme.span⟩

/-- Ends the reduction of a range: the nodes directly under the target, if all tokens are claimed. -/
def finish (w : Workspace) (range : TokenRange) (target : NodeId) :
    Except ReduceError (Workspace × List NodeId) :=
  match (range.indices.find? fun index => !w.isClaimed index).bind (w.lexemes[·]?) with
  | some lexeme => .error (leftover lexeme)
  | none => .ok (w, w.tops range target)

/-- Reduces a range, going at most `depth` bracket pairs deep. At depth zero no group is applied. -/
def reduceRange : (depth : Nat) → Nested
  | 0, w, range, target => w.finish range target
  | depth + 1, w, range, target => do
      let w ← Group.byPriority.foldlM (pass (reduceRange depth) range target) w
      w.finish range target

end Workspace

/-- The parse tree of a list of lexemes. -/
def reduce (lexemes : List Lexeme) : Except ReduceError ParseTree := do
  let range : TokenRange := ⟨0, lexemes.length⟩
  let w := (Workspace.ofLexemes lexemes.toArray).addNode (.root []) range none []
  let (w, children) ← Workspace.reduceRange (lexemes.length + 1) w range 0
  return { nodes := (w.setConstruct 0 (.root children)).nodes, root := some 0 }

end Rill

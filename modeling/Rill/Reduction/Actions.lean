import Rill.Reduction.Error
import Rill.Reduction.Priority
import Rill.Reduction.Workspace

/-!
# Reduction actions

Each group of tokens has an action. It looks at the nodes next to the token, folds them into a new
node and claims the token for it.

* A closing bracket pairs with the nearest unclaimed opener of its kind. The nodes already made
  between the two move into the new bracket node, and what lies between them is reduced. A name right
  before a parenthesis makes a call.
* An arrow needs parentheses before it and a type after it. Braces after the type make a function;
  any other node there is an error; nothing there makes a function type.
* A sum, an assignment and a print need values; a return may go without one.
* A binding needs a name before it. After `::` comes a value; after `:` comes a type and then, behind
  a second `:`, a value.
* A terminator needs an expression before it.
-/

namespace Rill

namespace Workspace

/-- How the inside of a bracket pair is reduced: the workspace, the range and the bracket node give
the new workspace and the nodes left directly under the bracket node. -/
abbrev Nested := Workspace → TokenRange → NodeId → Except ReduceError (Workspace × List NodeId)

/-- The construct of a bracket pair. -/
def groupOf (bracket : Bracket) (children : List NodeId) : Construct NodeId :=
  match bracket with
  | .paren => .paren children
  | .brace => .curly children

/-- The nearest unclaimed opener to the left of a closing bracket, within the range. -/
def opener? (w : Workspace) (range : TokenRange) (bracket : Bracket) (close : Nat) : Option Nat :=
  (TokenRange.indices ⟨range.start, close⟩).reverse.find? fun index =>
    !w.isClaimed index && w.token? index == some (.opening bracket)

/-- Turns a parenthesis node into the arguments of a call when an unclaimed name of the range stands
right before it. -/
def formCall (w : Workspace) (range : TokenRange) (target group : NodeId) (opener close : Nat) :
    Workspace :=
  if range.start < opener && !w.isClaimed (opener - 1) then
    match w.token? (opener - 1) with
    | some (.ident name) =>
        let callee := w.nodes.size
        let w := w.addNode (.ident name) ⟨opener - 1, opener⟩ (some target) []
        let w := w.claim (opener - 1) callee
        w.addNode (.call callee group) ⟨opener - 1, close + 1⟩ (some target) [callee, group]
    | _ => w
  else w

/-- Ends a bracket pair. -/
def closeBracket (nested : Nested) (w : Workspace) (range : TokenRange) (target : NodeId)
    (close : Nat) (bracket : Bracket) (span : Span) : Except ReduceError Workspace := do
  let some opener := w.opener? range bracket close
    | throw ⟨.unmatchedClose (.closing bracket), span⟩
  let inner : TokenRange := ⟨opener + 1, close⟩
  let group := w.nodes.size
  let w := w.addNode (groupOf bracket []) ⟨opener, close + 1⟩ (some target) (w.tops inner target)
  let w := (w.claim opener group).claim close group
  let (w, children) ← nested w inner group
  let w := w.setConstruct group (groupOf bracket children)
  match bracket with
  | .paren => return w.formCall range target group opener close
  | .brace => return w

/-- Makes a node of a single token. -/
def makeLeaf (w : Workspace) (target : NodeId) (index : Nat) (construct : Construct NodeId) :
    Workspace :=
  let id := w.nodes.size
  (w.addNode construct ⟨index, index + 1⟩ (some target) []).claim index id

/-- Makes a node over `tokens` with the given parts and claims one token for it. -/
def fold (w : Workspace) (target : NodeId) (index : Nat) (construct : Construct NodeId)
    (tokens : TokenRange) : Workspace :=
  let id := w.nodes.size
  (w.addNode construct tokens (some target) construct.parts).claim index id

/-- Makes a function or a function type. -/
def makeArrow (w : Workspace) (range : TokenRange) (target : NodeId) (index : Nat) (span : Span) :
    Except ReduceError Workspace := do
  let some params := (w.before? range target index).filter (w.has · Construct.isParen)
    | throw ⟨.missingParameters, span⟩
  let some result := (w.after? range target index).filter (w.has · Construct.isType)
    | throw ⟨.missingReturnType, span⟩
  let start := (w.tokensOf params).start
  let stop := (w.tokensOf result).stop
  match w.nodeAt? range target stop with
  | some body =>
      if w.has body Construct.isCurly then
        return w.fold target index (.function params result body) ⟨start, (w.tokensOf body).stop⟩
      else throw ⟨.missingBody, (w.nodes[body]?).elim span (·.span)⟩
  | none => return w.fold target index (.functionType params result) ⟨start, stop⟩

/-- Makes a sum. -/
def makeSum (w : Workspace) (range : TokenRange) (target : NodeId) (index : Nat) (span : Span) :
    Except ReduceError Workspace := do
  let some left := (w.before? range target index).filter (w.has · Construct.isValue)
    | throw ⟨.missingOperand .plus, span⟩
  let some right := (w.after? range target index).filter (w.has · Construct.isValue)
    | throw ⟨.missingOperand .plus, span⟩
  return w.fold target index (.sum left right) ⟨(w.tokensOf left).start, (w.tokensOf right).stop⟩

/-- Makes a print. -/
def makePrint (w : Workspace) (range : TokenRange) (target : NodeId) (index : Nat) (span : Span) :
    Except ReduceError Workspace := do
  let some operand := (w.after? range target index).filter (w.has · Construct.isValue)
    | throw ⟨.missingOperand .printWord, span⟩
  return w.fold target index (.printU64 operand) ⟨index, (w.tokensOf operand).stop⟩

/-- Makes a return, with the value after it if there is one. -/
def makeReturn (w : Workspace) (range : TokenRange) (target : NodeId) (index : Nat) : Workspace :=
  let operand := (w.after? range target index).filter (w.has · Construct.isValue)
  let stop := operand.elim (index + 1) fun id => (w.tokensOf id).stop
  w.fold target index (.returnWith operand) ⟨index, stop⟩

/-- Makes a binding whose type is left to its value. -/
def makeInferred (w : Workspace) (range : TokenRange) (target : NodeId) (index : Nat) (span : Span) :
    Except ReduceError Workspace := do
  let some name := (w.before? range target index).filter (w.has · Construct.isIdent)
    | throw ⟨.bindingName, span⟩
  let some value := (w.after? range target index).filter (w.has · Construct.isValue)
    | throw ⟨.missingValue, span⟩
  return w.fold target index (.binding name none (some value))
    ⟨(w.tokensOf name).start, (w.tokensOf value).stop⟩

/-- Makes a binding with a type, and with a value when a second colon follows the type. -/
def makeAnnotated (w : Workspace) (range : TokenRange) (target : NodeId) (index : Nat)
    (span : Span) : Except ReduceError Workspace := do
  let some name := (w.before? range target index).filter (w.has · Construct.isIdent)
    | throw ⟨.bindingName, span⟩
  let some type := (w.after? range target index).filter (w.has · Construct.isType)
    | throw ⟨.missingType, span⟩
  let start := (w.tokensOf name).start
  let next := (w.tokensOf type).stop
  if range.contains next && !w.isClaimed next && w.token? next == some .colon then
    let some value := (w.after? range target next).filter (w.has · Construct.isValue)
      | throw ⟨.missingValue, w.spanOf ⟨next, next + 1⟩⟩
    let id := w.nodes.size
    let w := w.fold target index (.binding name (some type) (some value))
      ⟨start, (w.tokensOf value).stop⟩
    return w.claim next id
  else
    return w.fold target index (.binding name (some type) none) ⟨start, next⟩

/-- Makes an assignment. -/
def makeAssign (w : Workspace) (range : TokenRange) (target : NodeId) (index : Nat) (span : Span) :
    Except ReduceError Workspace := do
  let some name := (w.before? range target index).filter (w.has · Construct.isIdent)
    | throw ⟨.invalidAssignTarget, span⟩
  let some value := (w.after? range target index).filter (w.has · Construct.isValue)
    | throw ⟨.missingOperand .equals, span⟩
  return w.fold target index (.assign name value) ⟨(w.tokensOf name).start, (w.tokensOf value).stop⟩

/-- Closes the expression before a terminator. -/
def makeTerminated (w : Workspace) (range : TokenRange) (target : NodeId) (index : Nat)
    (lexeme : Lexeme) (wrap : NodeId → Construct NodeId) : Except ReduceError Workspace := do
  let some operand := (w.before? range target index).filter (w.has · Construct.isExpression)
    | throw ⟨.badTerminator lexeme.token, lexeme.span⟩
  return w.fold target index (wrap operand) ⟨(w.tokensOf operand).start, index + 1⟩

/-- The action for an unclaimed token, in the pass of the group that accepts it. -/
def act (nested : Nested) (w : Workspace) (range : TokenRange) (target : NodeId) (index : Nat)
    (lexeme : Lexeme) : Except ReduceError Workspace :=
  match lexeme.token with
  | .closing bracket => w.closeBracket nested range target index bracket lexeme.span
  | .ident name => .ok (w.makeLeaf target index (.ident name))
  | .int value => .ok (w.makeLeaf target index (.int value))
  | .void => .ok (w.makeLeaf target index .void)
  | .u64 => .ok (w.makeLeaf target index .u64)
  | .arrow => w.makeArrow range target index lexeme.span
  | .plus => w.makeSum range target index lexeme.span
  | .printWord => w.makePrint range target index lexeme.span
  | .returnWord => .ok (w.makeReturn range target index)
  | .doubleColon => w.makeInferred range target index lexeme.span
  | .colon => w.makeAnnotated range target index lexeme.span
  | .equals => w.makeAssign range target index lexeme.span
  | .semicolon => w.makeTerminated range target index lexeme .statement
  | .comma => w.makeTerminated range target index lexeme .separator
  | .opening _ => .ok w

end Workspace

end Rill

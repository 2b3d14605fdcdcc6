import Mathlib
import Rill.Proofs.Reduction.Calls

/-!
# Hoisting

Hoisting goes from the owner of a token to its parent and on, until the next parent is the target of the range under
reduction. Ids say nothing about when it ends: a bracket node is made before what it contains, a sum after its operands,
and parents change all the time.

It ends because parents are wider. Every claimed token of the range lies in a node directly under the target, and the
way up from its owner to that node is a `Climbs`. So it takes fewer steps than there are nodes
(`Ready.climbs_to_target`), the loop ends (`Hoists`), and the tokens that lead to one node are those it covers
(`Ready.hoist_eq_iff`).
-/

namespace Rill

namespace Workspace

variable {w : Workspace} {range : TokenRange} {target id n owner : NodeId} {lo hi k : Nat}
  {forms : NodeId → Form} {opens : List NodeId} {pieces : List (Piece NodeId)} {lexemes : List Lexeme}

/-! ## Following parents -/

/-- The node that many parents further up. -/
def ancestor? (w : Workspace) : (steps : Nat) → NodeId → Option NodeId
  | 0, id => some id
  | steps + 1, id => (w.parent? id).bind (w.ancestor? steps)

/-- How hoisting runs without a bound on its steps: it goes up until there is no parent, or the parent is the
target. -/
inductive Hoists (w : Workspace) (target : NodeId) : NodeId → NodeId → Prop
  | outermost {id : NodeId} : w.parent? id = none → Hoists w target id id
  | landed {id : NodeId} : w.parent? id = some target → Hoists w target id id
  | up {id parent top : NodeId} : w.parent? id = some parent → parent ≠ target → Hoists w target parent top →
      Hoists w target id top

theorem Hoists.unique {top top' : NodeId} (hoists : w.Hoists target id top) (other : w.Hoists target id top') :
    top = top' := by
  induction hoists with
  | outermost noParent =>
      cases other with
      | outermost => rfl
      | landed isParent => rfl
      | up isParent => cases noParent.symm.trans isParent
  | landed isParent =>
      cases other with
      | outermost => rfl
      | landed => rfl
      | up isParent' different =>
          cases isParent.symm.trans isParent'
          exact absurd rfl different
  | up isParent different _ ih =>
      cases other with
      | outermost noParent => cases noParent.symm.trans isParent
      | landed isParent' =>
          cases isParent.symm.trans isParent'
          exact absurd rfl different
      | up isParent' _ hoists =>
          cases isParent.symm.trans isParent'
          exact ih hoists

theorem Climbs.ancestor? {top : NodeId} (climbs : w.Climbs opens top id k) : w.ancestor? k id = some top := by
  induction climbs with
  | here => rfl
  | up isParent _ _ _ ih => rw [Workspace.ancestor?, isParent, Option.bind_some, ih]

theorem ancestor?_succ {top parent : NodeId} (found : w.ancestor? k id = some top)
    (isParent : w.parent? top = some parent) : w.ancestor? (k + 1) id = some parent := by
  induction k generalizing id with
  | zero =>
      cases found
      rw [ancestor?, isParent, Option.bind_some, ancestor?]
  | succ k ih =>
      obtain ⟨next, isNext, rest⟩ := Option.bind_eq_some_iff.mp found
      rw [ancestor?, isNext, Option.bind_some, ih rest]

theorem Climbs.hoists {top : NodeId} (climbs : w.Climbs opens top id k) (isOpen : target ∈ opens)
    (isParent : w.parent? top = some target) : w.Hoists target id top := by
  induction climbs with
  | here => exact .landed isParent
  | up isParent' closed _ _ ih => exact .up isParent' (fun same => closed (same ▸ isOpen)) ih

/-! ## Hoisting in a range under reduction -/

/-- From the owner of a claimed token up to the node of the range that covers it. -/
theorem Ready.climbs_to_target (ready : w.Ready forms opens target lo pieces hi) (low : lo ≤ k) (high : k < hi)
    (owned : w.owner? k = some owner) :
    ∃ n node steps, .part n ∈ pieces ∧ w.nodes[n]? = some node ∧ node.tokens.start ≤ k ∧ k < node.tokens.stop ∧
      w.parent? n = some target ∧ w.Climbs opens n owner steps ∧ steps < w.nodes.size := by
  rcases ready.tiles.cover low high with ⟨_, _, _, bare⟩ | ⟨n, node, member, found, isParent, start, stop⟩
  · cases bare.symm.trans owned
  · obtain ⟨owner', steps, owned', climbs⟩ :=
      ready.valid.climbs _ n node k rfl found (ready.closed n member) start stop
    cases owned.symm.trans owned'
    have bounded := climbs.le_rank
    have small := rank_lt_size (lt_size found)
    exact ⟨n, node, steps, member, found, start, stop, (parent?_eq found).trans isParent, climbs, by omega⟩

/-- The positions that lead to a node of the range are those it covers. -/
theorem Ready.hoist_eq_iff (ready : w.Ready forms opens target lo pieces hi) (member : .part n ∈ pieces) (j : Nat) :
    (lo ≤ j ∧ j < hi ∧ (w.owner? j).map (w.hoist target) = some n) ↔
      (w.tokensOf n).start ≤ j ∧ j < (w.tokensOf n).stop := by
  obtain ⟨node, found, _, low, _, high⟩ := ready.tiles.part_bounds member
  have covers : w.tokensOf n = node.tokens := by rw [tokensOf, found, Option.elim_some]
  rw [covers]
  constructor
  · rintro ⟨inLow, inHigh, hoisted⟩
    obtain ⟨owner, owned, _⟩ := Option.map_eq_some_iff.mp hoisted
    -- The position lies in some node of the range and leads there, so this node is `n`.
    obtain ⟨m, other, _, isPart, found', start, stop, _⟩ := ready.climbs_to_target inLow inHigh owned
    cases (ready.hoisted isPart found' start stop).symm.trans hoisted
    cases found.symm.trans found'
    exact ⟨start, stop⟩
  · rintro ⟨start, stop⟩
    exact ⟨low.trans start, Nat.lt_of_lt_of_le stop high, ready.hoisted member found start stop⟩

theorem contains_iff {j : Nat} : range.contains j = true ↔ range.start ≤ j ∧ j < range.stop := by
  rw [TokenRange.contains, Bool.and_eq_true, decide_eq_true_eq, decide_eq_true_eq]

/-- Hoisting lands right under the target. At any time of a reduction, for every claimed token of the range under
reduction:

* the parents of its owner lead to the target, in no more steps than there are nodes;
* so hoisting ends, with a node whose parent is the target;
* and the tokens of the range that lead to this node are exactly those it covers. -/
theorem hoisting_lands (underway : Underway lexemes w range target) (inRange : range.contains k = true)
    (owned : w.owner? k = some owner) :
    (∃ steps ≤ w.nodes.size, w.ancestor? steps owner = some target) ∧
    (∀ top, w.Hoists target owner top ↔ top = w.hoist target owner) ∧
    w.parent? (w.hoist target owner) = some target ∧
    ∀ j, (range.contains j = true ∧ (w.owner? j).map (w.hoist target) = some (w.hoist target owner)) ↔
      (w.tokensOf (w.hoist target owner)).contains j = true := by
  obtain ⟨forms, opens, pieces, ready⟩ := underway.ready
  obtain ⟨low, high⟩ := contains_iff.mp inRange
  obtain ⟨n, node, steps, member, found, start, stop, isParent, climbs, short⟩ :=
    ready.climbs_to_target low high owned
  have lands : w.hoist target owner = n := by
    have hoisted := ready.hoisted member found start stop
    rwa [owned, Option.map_some, Option.some.injEq] at hoisted
  have hoists := climbs.hoists ready.isOpen isParent
  rw [lands]
  refine ⟨⟨steps + 1, short, ancestor?_succ climbs.ancestor? isParent⟩, fun top => ⟨?_, ?_⟩, isParent, fun j => ?_⟩
  · exact fun other => other.unique hoists
  · rintro rfl
    exact hoists
  · rw [contains_iff, contains_iff, ← ready.hoist_eq_iff member j, and_assoc]

theorem hoisting_lands_nestedSum :
    Underway nestedSum (innerClosed.openPair 0 .paren 0 6) ⟨1, 6⟩ 5 ∧
    (innerClosed.openPair 0 .paren 0 6).owner? 2 = some 2 ∧
    (innerClosed.openPair 0 .paren 0 6).hoist 5 2 = 1 ∧
    (innerClosed.openPair 0 .paren 0 6).parent? 1 = some 5 ∧
    (∃ steps ≤ 6, (innerClosed.openPair 0 .paren 0 6).ancestor? steps 2 = some 5) ∧
    ∀ j, (TokenRange.contains ⟨1, 6⟩ j = true ∧
        ((innerClosed.openPair 0 .paren 0 6).owner? j).map ((innerClosed.openPair 0 .paren 0 6).hoist 5) = some 1) ↔
      TokenRange.contains ⟨1, 6⟩ j = true := by
  have underway : Underway nestedSum (innerClosed.openPair 0 .paren 0 6) ⟨1, 6⟩ 5 := .called nestedSum_calls
  have owned : (innerClosed.openPair 0 .paren 0 6).owner? 2 = some 2 := by decide
  have lands : (innerClosed.openPair 0 .paren 0 6).hoist 5 2 = 1 := by decide
  obtain ⟨leads, _, isParent, covered⟩ := hoisting_lands underway (by decide) owned
  rw [lands] at isParent covered
  exact ⟨underway, owned, lands, isParent, leads, covered⟩

end Workspace

end Rill

import Mathlib
import Rill.Proofs.Reduction.Sites

/-!
# Closing a bracket pair

A closing bracket makes a node of everything back to its opener. The node is open while its inside is
reduced, under it and not under the target; then its children are known and it is finished. A bare
name right before a parenthesis is folded with it into a call.

The inside is reduced by some `nested`; `Simulates` says that it does to a workspace what `inner` does
to items, and `closeBracket_agrees` carries that over to the pair.
-/

namespace Rill

namespace Workspace

variable {w w' w'' : Workspace} {target id n : NodeId} {lo hi p : Nat} {forms forms' : NodeId → Form}
  {opens : List NodeId} {pieces rest left right : List (Piece NodeId)} {t : Token}

/-! ## Reducing the inside -/

/-- A range has been reduced to the nodes `ids`, whose forms are `children`. -/
def Reduced (w : Workspace) (forms : NodeId → Form) (opens : List NodeId) (target : NodeId) (lo hi : Nat)
    (children : List Form) (result : Workspace × List NodeId) : Prop :=
  ∃ forms', result.1.Ready forms' opens target lo (result.2.map .part) hi ∧
    w.Advances forms result.1 forms' target lo hi ∧ children = result.2.map forms'

/-- Reducing a range does to the workspace what reducing its items does to them. -/
def Simulates (inner : Items.Inner) (nested : Nested) : Prop :=
  ∀ {w : Workspace} {forms : NodeId → Form} {opens : List NodeId} {target : NodeId} {lo hi : Nat}
    {pieces : List (Piece NodeId)}, w.Ready forms opens target lo pieces hi →
    Agrees (w.Reduced forms opens target lo hi) (inner (itemsOf forms pieces)) (nested w ⟨lo, hi⟩ target)

/-! ## Finding the opener -/

theorem isOpener_map (bracket : Bracket) (piece : Piece NodeId) :
    Items.isOpener bracket (piece.map forms) = Items.isOpener bracket piece := by
  cases piece <;> rfl

theorem findIdx?_itemsOf (bracket : Bracket) :
    (itemsOf forms left).findIdx? (Items.isOpener bracket) = left.findIdx? (Items.isOpener bracket) := by
  rw [itemsOf, List.findIdx?_map]
  congr 1
  exact funext (isOpener_map bracket)

/-- Looking to the left for an opener: there is none, or it splits the pieces there. -/
theorem Ready.opener_cases (ready : w.Ready forms opens target lo pieces hi) (bracket : Bracket)
    (tiles : w.Tiles target none lo left.reverse p) (inside : ∀ n, .part n ∈ left → .part n ∈ pieces) :
    (w.opener? ⟨lo, hi⟩ bracket p = none ∧ left.findIdx? (Items.isOpener bracket) = none) ∨
    ∃ within outside o, left = within ++ .token (.opening bracket) :: outside ∧
      w.opener? ⟨lo, hi⟩ bracket p = some o ∧
      left.findIdx? (Items.isOpener bracket) = some within.length ∧
      w.Tiles target none lo outside.reverse o ∧ w.token? o = some (.opening bracket) ∧
      w.owner? o = none ∧ w.Tiles target none (o + 1) within.reverse p := by
  simp only [opener?, TokenRange.indices]
  induction left generalizing p with
  | nil =>
      cases tiles
      exact Or.inl ⟨by simp, rfl⟩
  | cons piece left ih =>
      rw [List.reverse_cons, Tiles.append_iff] at tiles
      obtain ⟨m, first, last⟩ := tiles
      have low := first.le
      have rest := ih first fun n member => inside n (List.mem_cons_of_mem _ member)
      cases last with
      | @token _ _ t _ isToken bare none =>
          cases none
          rw [range'_reverse_succ low, List.findIdx?_cons]
          by_cases isOpener : t = .opening bracket
          · subst isOpener
            refine Or.inr ⟨[], left, m, rfl, ?_, ?_, first, isToken, bare, .nil⟩
            · simp [isClaimed, bare, isToken]
            · simp [Items.isOpener]
          · have skip : Items.isOpener bracket (.token t : Piece NodeId) = false := by
              simp [Items.isOpener, isOpener]
            rw [List.find?_cons_of_neg (by simp [isToken, isOpener]), skip]
            rcases rest with ⟨noOpener, noIndex⟩ | ⟨within, outside, o, rfl, found, index, before, rest⟩
            · exact Or.inl ⟨noOpener, by simp [noIndex]⟩
            · obtain ⟨isOpening, bareOpener, between⟩ := rest
              refine Or.inr ⟨.token t :: within, outside, o, rfl, found, by simp [index], before,
                isOpening, bareOpener, ?_⟩
              rw [List.reverse_cons]
              exact between.append (.token isToken bare .nil)
      | @part _ _ _ n node _ found isParent range shorter none =>
          cases none
          have claimed : ∀ i ∈ (List.range' m (p - m)).reverse,
              (!w.isClaimed i && w.token? i == some (.opening bracket)) ≠ true := by
            intro i member
            have bounds := List.mem_range'_1.mp (List.mem_reverse.mp member)
            have hoisted := ready.hoisted (inside n (by simp)) found (i := i)
              (by rw [range]; exact bounds.1) (by rw [range]; simp only; omega)
            obtain ⟨owner, owned, _⟩ := Option.map_eq_some_iff.mp hoisted
            simp [isClaimed, owned]
          rw [range'_cut low (Nat.le_of_lt shorter), List.reverse_append, List.find?_append,
            List.find?_eq_none.mpr claimed, Option.none_or, List.findIdx?_cons]
          rcases rest with ⟨noOpener, noIndex⟩ | ⟨within, outside, o, rfl, found', index, before, rest⟩
          · exact Or.inl ⟨noOpener, by simp [noIndex, Items.isOpener]⟩
          · obtain ⟨isOpening, bareOpener, between⟩ := rest
            refine Or.inr ⟨.part n :: within, outside, o, rfl, found', by simp [index, Items.isOpener],
              before, isOpening, bareOpener, ?_⟩
            rw [List.reverse_cons]
            exact between.append (.part found isParent range shorter .nil)

/-! ## Finishing an open node -/

theorem setConstruct_node {construct : Construct NodeId} {node' : Node} :
    (w.setConstruct id construct).nodes[n]? = some node' ↔ ∃ node, w.nodes[n]? = some node ∧
      node' = if n = id then { node with construct } else node := by
  simp only [setConstruct, Array.getElem?_modify]
  by_cases same : id = n
  · subst same
    cases w.nodes[id]? <;> simp [eq_comm]
  · simp [same, Ne.symm same, eq_comm]

theorem setConstruct_kept (id : NodeId) (construct : Construct NodeId) {node : Node}
    (found : w.nodes[n]? = some node) :
    ∃ node', (w.setConstruct id construct).nodes[n]? = some node' ∧ node'.parent = node.parent ∧
      node'.tokens = node.tokens ∧ node'.span = node.span ∧
      (n ≠ id → node'.construct = node.construct) ∧ (n = id → node'.construct = construct) := by
  refine ⟨_, setConstruct_node.mpr ⟨node, found, rfl⟩, ?_⟩
  split <;> simp_all

theorem Tiles.setConstruct {parent : NodeId} {owner : Option NodeId} {a b : Nat}
    (tiles : w.Tiles parent owner a pieces b) (construct : Construct NodeId) :
    (w.setConstruct id construct).Tiles parent owner a pieces b := by
  refine tiles.transfer rfl (fun n node _ found isParent => ?_) fun _ _ _ owned => owned
  obtain ⟨node', found', parent', tokens', _⟩ := setConstruct_kept id construct found
  exact ⟨node', found', parent'.trans isParent, tokens'⟩

/-- The construct of an open node is free. -/
theorem Valid.setConstruct (valid : w.Valid forms opens) (isOpen : id ∈ opens)
    (construct : Construct NodeId) : (w.setConstruct id construct).Valid forms opens := by
  have size : (w.setConstruct id construct).nodes.size = w.nodes.size := Array.size_modify ..
  refine ⟨valid.sizes, fun n isOpen => size ▸ valid.openIn n isOpen,
    fun n isOpen node' found' p isParent => ?_, fun n node' found' noParent => ?_,
    fun n node' p found' isParent => ?_, fun n node' found' => ?_, fun n node' found' closed => ?_,
    fun n node' m found' closed hasParent => ?_, fun n node' found' closed => ?_⟩
  all_goals
    obtain ⟨node, found, rfl⟩ := setConstruct_node.mp found'
  · refine valid.openParent n isOpen node found p ?_
    split at isParent <;> exact isParent
  · refine valid.root n node found ?_
    split at noParent <;> exact noParent
  · have isParent' : node.parent = some p := by
      split at isParent <;> exact isParent
    rcases valid.listed n node p found isParent' with isOpen' | ⟨parentNode, foundParent, member⟩
    · exact Or.inl isOpen'
    · by_cases same : p = id
      · exact Or.inl (same ▸ isOpen)
      · obtain ⟨parentNode', foundParent', _, _, _, kept, _⟩ :=
          setConstruct_kept id construct foundParent
        exact Or.inr ⟨parentNode', foundParent', kept same ▸ member⟩
  · have sameSpan := valid.span n node found
    split <;> exact sameSpan
  all_goals
    have other : n ≠ id := fun same => closed (same ▸ isOpen)
    rw [if_neg other] at *
  · exact (valid.tiles n node found closed).setConstruct construct
  · exact valid.proper n node m found closed hasParent
  · exact valid.form n node found closed

/-- The construct of a node that a step has made is part of the step. -/
theorem Step.setConstruct (step : w.Step w' target lo hi) (isNew : w.nodes.size ≤ id)
    (construct : Construct NodeId) : w.Step (w'.setConstruct id construct) target lo hi where
  lexemes := step.lexemes
  size := step.size.trans_eq (Array.size_modify ..).symm
  kept n node found := by
    obtain ⟨node', found', sameConstruct, sameTokens, sameSpan, moved⟩ := step.kept n node found
    obtain ⟨node'', found'', parent', tokens', span', kept, _⟩ := setConstruct_kept id construct found'
    have other : n ≠ id := Nat.ne_of_lt (Nat.lt_of_lt_of_le (lt_size found) isNew)
    refine ⟨node'', found'', (kept other).trans sameConstruct, tokens'.trans sameTokens,
      span'.trans sameSpan, ?_⟩
    rw [parent']
    exact moved
  made n node'' found'' isNew' := by
    obtain ⟨node', found', rfl⟩ := setConstruct_node.mp found''
    have made := step.made n node' found' isNew'
    split <;> exact made
  owners := step.owners

/-! ## The node of a pair -/

section Pair

variable {bracket : Bracket} {s : Nat} {inside within outside : List (Piece NodeId)}

/-- Pieces between two brackets. -/
def bracketed (bracket : Bracket) (inside : List (Piece NodeId)) : List (Piece NodeId) :=
  .token (.opening bracket) :: (inside ++ [.token (.closing bracket)])

theorem layout_groupOf (bracket : Bracket) (ids : List NodeId) :
    (groupOf bracket ids).layout = bracketed bracket (ids.map .part) := by
  cases bracket <;> rfl

theorem parts_groupOf (bracket : Bracket) (ids : List NodeId) : (groupOf bracket ids).parts = ids := by
  cases bracket <;> rfl

theorem map_groupOf (bracket : Bracket) (ids : List NodeId) :
    (⟨(groupOf bracket ids).map forms⟩ : Form) = Items.groupOf bracket (ids.map forms) := by
  cases bracket <;> rfl

theorem part_mem_bracketed : .part n ∈ bracketed bracket inside ↔ .part n ∈ inside := by
  simp [bracketed]

/-- The workspace in which the node of a pair has just been made. -/
def openPair (w : Workspace) (target : NodeId) (bracket : Bracket) (s p : Nat) : Workspace :=
  ((w.addNode (groupOf bracket []) ⟨s, p + 1⟩ (some target) (w.tops ⟨s + 1, p⟩ target)).claim s
    w.nodes.size).claim p w.nodes.size

theorem Site.opening
    (site : w.Site forms opens target lo hi p (within ++ .token (.opening bracket) :: outside)
      (.closing bracket) right)
    (before : w.Tiles target none lo outside.reverse s)
    (isOpening : w.token? s = some (.opening bracket))
    (bare : w.owner? s = none) (between : w.Tiles target none (s + 1) within.reverse p) :
    w.Opening (w.openPair target bracket s p) forms opens target lo hi s (p + 1) outside.reverse
      (bracketed bracket within.reverse) right (groupOf bracket []) [p, s] := by
  have low := between.le
  have inLeft' : ∀ n, .part n ∈ within.reverse →
      .part n ∈ (within ++ .token (.opening bracket) :: outside).reverse ++
        .token (.closing bracket) :: right :=
    fun n member => inLeft (List.mem_append_left _ (List.mem_reverse.mp member))
  have tops : w.tops ⟨s + 1, p⟩ target = (bracketed bracket within.reverse).filterMap Piece.part? := by
    rw [tops_eq between fun n node i member found => site.ready.hoisted (inLeft' n member) found,
      bracketed, List.filterMap_cons_none (Piece.part?_token _), List.filterMap_append,
      List.filterMap_cons_none (Piece.part?_token _), List.filterMap_nil, List.append_nil]
  have covered : w.Tiles target none s (bracketed bracket within.reverse) (p + 1) := by
    exact .token isOpening bare (between.append (.token site.isToken site.bare .nil))
  refine ⟨?_, before, covered, site.after, by omega, ?_, fun i member => ?_⟩
  · simpa [bracketed] using site.ready
  · unfold openPair
    rw [tops]
    refine ((merged_addNode fun n member => ?_).claim
      (site.ready.valid.inBounds isOpening)).claim site.inBounds
    obtain ⟨node, found, _⟩ := covered.part_bounds (Piece.mem_parts.mp member)
    exact lt_size found
  · simp only [List.mem_cons, List.not_mem_nil, or_false] at member
    rcases member with rfl | rfl
    · exact ⟨by omega, by omega, site.bare⟩
    · exact ⟨by omega, by omega, bare⟩

section

variable (opening : w.Opening w' forms opens target lo hi s (p + 1) left (bracketed bracket inside) right
    (groupOf bracket []) [p, s])

include opening

/-- The inside of an open pair is a range of its own. -/
theorem Opening.ready_inside (between : w.Tiles target none (s + 1) inside p) :
    w'.Ready forms (w.nodes.size :: opens) w.nodes.size (s + 1) inside p := by
  refine ⟨opening.valid, List.mem_cons_self, ?_, fun n node found isParent => ?_, fun n member => ?_⟩
  · refine opening.tiles_new between (fun n => part_mem_bracketed.mpr) fun i low high bare => ?_
    rw [opening.merged.owners, if_neg ?_, bare]
    simp only [List.mem_cons, List.not_mem_nil, or_false]
    omega
  · exact part_mem_bracketed.mp (opening.complete_new found isParent)
  · obtain ⟨node, found, _⟩ := between.part_bounds member
    rw [List.mem_cons, not_or]
    refine ⟨Nat.ne_of_lt (lt_size found), opening.ready.closed n ?_⟩
    simp [part_mem_bracketed.mpr member]

theorem Opening.claims_pair (step : w'.Step w'' w.nodes.size (s + 1) p) {i : Nat}
    (isBracket : i ∈ [p, s]) : w''.owner? i = some w.nodes.size := by
  have owned : w'.owner? i = some w.nodes.size := by rw [opening.merged.owners, if_pos isBracket]
  rcases step.owners i with same | ⟨bare, _⟩
  · exact same.trans owned
  · exact absurd (bare.symm.trans owned) (by simp)

/-- The node of the pair is tiled by its brackets and what its inside was reduced to. -/
theorem Opening.tiles_pair {forms'' : NodeId → Form} {ids : List NodeId}
    (step : w'.Step w'' w.nodes.size (s + 1) p)
    (ready : w''.Ready forms'' (w.nodes.size :: opens) w.nodes.size (s + 1) (ids.map .part) p) :
    w''.Tiles w.nodes.size (some w.nodes.size) s (bracketed bracket (ids.map .part)) (p + 1) := by
  have sameToken : ∀ i, w''.token? i = w.token? i := fun i => by
    rw [token?, token?, step.lexemes, opening.merged.lexemes]
  have inner : w''.Tiles w.nodes.size (some w.nodes.size) (s + 1) (ids.map .part) p := by
    refine ready.tiles.transfer rfl (fun n node _ found isParent => ⟨node, found, isParent, rfl⟩)
      fun i low high bare => ?_
    exact absurd bare (ready.claimed ready.tiles (fun _ member => member) (by simp) low high)
  have covered := opening.covered
  cases covered with
  | token isOpening _ rest =>
      obtain ⟨m, _, last⟩ := Tiles.append_iff.mp rest
      cases last with
      | token isClosing _ none =>
          cases none
          refine .token ((sameToken s).trans isOpening) (opening.claims_pair step (by simp))
            (inner.append ?_)
          exact .token ((sameToken p).trans isClosing) (opening.claims_pair step (by simp)) .nil

/-- The range around the pair is not touched while the inside is reduced. -/
theorem Opening.tiles_around (step : w'.Step w'' w.nodes.size (s + 1) p) :
    w''.Tiles target none lo (left ++ .part w.nodes.size :: right) hi := by
  obtain ⟨m, before, rest⟩ := Tiles.append_iff.mp opening.tiles
  cases rest with
  | part found isParent range shorter after =>
      cases opening.new_node.symm.trans found
      cases range
      obtain ⟨node', found', _, tokens', _, sameParent | ⟨isOwn, _⟩⟩ := step.kept _ _ found
      · refine (step.tiles before opening.target_ne (by omega)).append ?_
        refine .part found' (sameParent.trans isParent) tokens' shorter ?_
        exact step.tiles after opening.target_ne (by omega)
      · exact absurd (Option.some.inj isOwn) opening.target_ne

theorem Opening.complete_around (step : w'.Step w'' w.nodes.size (s + 1) p) {node : Node}
    (found : w''.nodes[n]? = some node) (isParent : node.parent = some target) :
    .part n ∈ left ++ .part w.nodes.size :: right := by
  have older : target < w'.nodes.size := opening.valid.openIn target (by simp [opening.ready.isOpen])
  by_cases isOld : n < w'.nodes.size
  · obtain ⟨node', found', _, _, _, sameParent | ⟨_, p', isParent', isNew⟩⟩ :=
      step.kept n _ (Array.getElem?_eq_getElem isOld)
    · cases found.symm.trans found'
      exact opening.complete (Array.getElem?_eq_getElem isOld) (sameParent.symm.trans isParent)
    · cases found.symm.trans found'
      cases isParent.symm.trans isParent'
      exact absurd older (Nat.not_lt.mpr isNew)
  · obtain ⟨p', isParent', isNode | isNew⟩ := step.made n node found (Nat.not_lt.mp isOld)
    · cases isParent.symm.trans isParent'
      exact absurd isNode opening.target_ne
    · cases isParent.symm.trans isParent'
      exact absurd older (Nat.not_lt.mpr isNew)

/-- Finishing a pair once its inside is reduced. -/
theorem Opening.close_pair {children : List Form} {ids : List NodeId}
    (reduced : w'.Reduced forms (w.nodes.size :: opens) w.nodes.size (s + 1) p children (w'', ids)) :
    ∃ forms', w.Folded (w''.setConstruct w.nodes.size (groupOf bracket ids)) forms forms' opens target lo
      hi s (p + 1) left right (Items.groupOf bracket children) := by
  obtain ⟨forms'', ready, advances, rfl⟩ := reduced
  have step := advances.step
  have size := opening.merged.size
  obtain ⟨node, found, _, tokens, _, _⟩ := step.kept _ _ opening.new_node
  obtain ⟨node', found', _, tokens', _, _, construct'⟩ :=
    setConstruct_kept w.nodes.size (groupOf bracket ids) found
  replace construct' := construct' rfl
  replace tokens' : node'.tokens = ⟨s, p + 1⟩ := tokens'.trans tokens
  have around : w.Step w'' target lo hi := by
    have lower := opening.lo_le
    have higher := opening.le_hi
    exact opening.step.trans step (Or.inr (Nat.le_refl _))
      (fun _ _ _ found isParent => opening.ready.valid.parent_lt found isParent) (by omega) (by omega)
  have valid := (ready.valid.setConstruct List.mem_cons_self (groupOf bracket ids)).close
    opening.new_notOpen found'
  rw [construct', tokens', parts_groupOf, layout_groupOf] at valid
  replace valid := valid ((opening.tiles_pair step ready).setConstruct _)
    (fun n other foundOther isParent => ?_) (fun n member => ready.closed n (by simp [member])) ?_
  · refine ⟨_, ⟨valid, opening.ready.isOpen, (opening.tiles_around step).setConstruct _, ?_,
      fun n => opening.closed⟩, ⟨around.setConstruct (Nat.le_refl _) _, fun n old => ?_⟩, ?_, ?_⟩
    · intro n node found isParent
      obtain ⟨before, foundBefore, rfl⟩ := setConstruct_node.mp found
      refine opening.complete_around step foundBefore ?_
      split at isParent <;> exact isParent
    · rw [Function.update_of_ne (Nat.ne_of_lt old)]
      exact advances.agree n (by omega)
    · rw [Function.update_self, map_groupOf]
    · rw [tokensOf, found']
      exact tokens'
  · obtain ⟨before, foundBefore, rfl⟩ := setConstruct_node.mp foundOther
    have member := ready.complete n before foundBefore (by split at isParent <;> exact isParent)
    simpa using member
  · intro _ n
    simp [bracketed]

end

/-! ## Calls -/

variable {group : NodeId} {children : List Form}

/-- The pieces of a range that start with a node over known tokens. -/
theorem Tiles.part_split {a b e : Nat} (tiles : w.Tiles target none a (left ++ .part n :: right) b)
    (range : w.tokensOf n = ⟨s, e⟩) :
    w.Tiles target none a left s ∧ w.Tiles target none s [.part n] e ∧
      w.Tiles target none e right b := by
  obtain ⟨m, before, rest⟩ := append_iff.mp tiles
  cases rest with
  | part found isParent covers shorter after =>
      rw [tokensOf, found] at range
      cases covers.symm.trans range
      exact ⟨before, .part found isParent covers shorter .nil, after⟩

theorem Step.tokensOf_eq (step : w.Step w' target lo hi) (old : n < w.nodes.size) :
    w'.tokensOf n = w.tokensOf n := by
  obtain ⟨node', found', _, tokens', _⟩ := step.kept n _ (Array.getElem?_eq_getElem old)
  rw [tokensOf, tokensOf, found', Array.getElem?_eq_getElem old]
  exact tokens'

theorem Acted.after {form : Form} {forms'' : NodeId → Form} (valid : w.Valid forms opens)
    (first : w.Advances forms w' forms' target lo hi)
    (second : w'.Acted w'' forms' forms'' opens target lo hi p left right n form) :
    w.Acted w'' forms forms'' opens target lo hi p left right n form :=
  ⟨second.ready, first.trans valid second.advances, second.form_eq, second.low, second.high⟩

/-- A bare name right before a parenthesis is folded with it into a call. -/
theorem Ready.formCall_acted {name : String} (ready : w.Ready forms opens target lo
      ((.token (.ident name) :: outside).reverse ++ .part group :: right) hi)
    (range : w.tokensOf group = ⟨s, p + 1⟩) :
    ∃ forms' n, w.Acted (w.formCall ⟨lo, hi⟩ target group s p) forms forms' opens target lo hi p outside
      right n ⟨.call ⟨.ident name⟩ (forms group)⟩ := by
  obtain ⟨before, isGroup, after⟩ := ready.tiles.part_split range
  have oldGroup : group < w.nodes.size := by
    obtain ⟨node, found, _⟩ := isGroup.part_bounds (List.mem_singleton_self _)
    exact lt_size found
  have proper := isGroup.lt (by simp)
  rw [List.reverse_cons, Tiles.append_iff] at before
  obtain ⟨m, before, isName⟩ := before
  cases isName with
  | token isToken bare none =>
    cases none
    have site : w.Site forms opens target lo hi m outside (.ident name) (.part group :: right) := by
      refine ⟨by simpa using ready, before, isToken, bare, ?_⟩
      exact isGroup.append after
    obtain ⟨forms', folded⟩ := Site.makeLeaf_folded (.ident name) site rfl rfl
    generalize callee : w.makeLeaf target m (.ident name) = w₁ at folded
    have formed : w.formCall ⟨lo, hi⟩ target group (m + 1) p =
        w₁.addNode (.call w.nodes.size group) ⟨m, p + 1⟩ (some target) [w.nodes.size, group] := by
      have guard : (decide (lo < m + 1) && !w.isClaimed (m + 1 - 1)) = true := by
        have low := site.lo_le
        simp [isClaimed, bare]
        omega
      unfold formCall
      rw [if_pos guard]
      simp only [Nat.add_sub_cancel, isToken, ← callee]
      rfl
    obtain ⟨before', isCallee, rest⟩ := folded.ready.tiles.part_split folded.tokens_eq
    obtain ⟨_, isGroup', after'⟩ := Tiles.part_split
      (show w₁.Tiles target none (m + 1) ([] ++ .part group :: right) hi from rest)
      ((folded.advances.step.tokensOf_eq oldGroup).trans range)
    have covered : w₁.Tiles target none m [.part w.nodes.size, .part group] (p + 1) :=
      isCallee.append isGroup'
    have opening : w₁.Opening (w.formCall ⟨lo, hi⟩ target group (m + 1) p) forms' opens target lo hi m
        (p + 1) outside.reverse (Construct.call w.nodes.size group).layout right
        (.call w.nodes.size group) [] := by
      refine ⟨by simpa [Construct.layout] using folded.ready, before', covered, after', by omega,
        ?_, by simp⟩
      rw [formed]
      refine merged_addNode fun n member => ?_
      obtain ⟨node, found, _⟩ := covered.part_bounds (n := n) (by simpa using member)
      exact lt_size found
    have noneBare : ∀ i, m ≤ i → i < p + 1 → w₁.owner? i = none → i ∈ ([] : List Nat) :=
      fun i low high bare => absurd bare (folded.ready.claimed covered (by simp) (by simp) low high)
    have called := opening.fold noneBare (by simp [Construct.layout])
    rw [Construct.map, folded.form_eq, folded.advances.agree group oldGroup] at called
    exact ⟨_, _, Acted.after ready.valid folded.advances (called.acted (by omega) (by omega))⟩

/-- Without a bare name before it, a parenthesis stays as it is. -/
theorem Ready.formCall_eq
    (ready : w.Ready forms opens target lo (outside.reverse ++ .part group :: right) hi)
    (range : w.tokensOf group = ⟨s, p + 1⟩)
    (noName : ∀ name rest, outside ≠ .token (.ident name) :: rest) :
    w.formCall ⟨lo, hi⟩ target group s p = w := by
  obtain ⟨before, _, _⟩ := ready.tiles.part_split range
  unfold formCall
  cases outside with
  | nil =>
      cases before
      simp
  | cons piece outside =>
      rw [List.reverse_cons, Tiles.append_iff] at before
      obtain ⟨m, before, last⟩ := before
      cases last with
      | @token _ _ t _ isToken bare none =>
          cases none
          split
          · rw [Nat.add_sub_cancel, isToken]
            split
            · next name same =>
              cases same
              exact absurd rfl (noName name outside)
            · rfl
          · rfl
      | @part _ _ _ n node _ found _ covers shorter none =>
          cases none
          have hoisted := ready.hoisted (by simp) found (i := s - 1)
            (by rw [covers]; simp only; omega) (by rw [covers]; simp only; omega)
          obtain ⟨owner, owned, _⟩ := Option.map_eq_some_iff.mp hoisted
          simp [isClaimed, owned]

end Pair

/-! ## The action -/

theorem Site.closeBracket_agrees {inner : Items.Inner} {nested : Nested} {bracket : Bracket}
    {span : Span}
    (simulates : Simulates inner nested)
    (site : w.Site forms opens target lo hi p left (.closing bracket) right) :
    Agrees (w.Performed forms opens target lo hi p left right)
      (Items.close inner bracket (itemsOf forms left))
      (w.closeBracket nested ⟨lo, hi⟩ target p bracket span) := by
  unfold closeBracket Items.close
  rw [findIdx?_itemsOf]
  rcases site.ready.opener_cases bracket site.before (fun n => Site.inLeft) with
    ⟨noOpener, noIndex⟩ | ⟨within, outside, s, rfl, found, index, before, isOpening, bare, between⟩
  · rw [noOpener, noIndex]
    rfl
  rw [found, index]
  have opening := site.opening before isOpening bare between
  have items :
      ((itemsOf forms (within ++ .token (.opening bracket) :: outside)).take within.length).reverse =
      itemsOf forms within.reverse := by
    simp [itemsOf]
  have behind : (within ++ .token (.opening bracket) :: outside).drop (within.length + 1) = outside :=
    List.drop_length_add_append 1
  have beyond :
      (itemsOf forms (within ++ .token (.opening bracket) :: outside)).drop (within.length + 1) =
      itemsOf forms outside := by
    rw [itemsOf, ← List.map_drop, behind]
  simp only [items, beyond]
  refine (simulates (opening.ready_inside between)).bind fun children result reduced => ?_
  obtain ⟨w₁, ids⟩ := result
  obtain ⟨forms', folded⟩ := opening.close_pair reduced
  have proper := opening.proper
  have group : w.Performed forms opens target lo hi p
      (within ++ .token (.opening bracket) :: outside) right
      ⟨within.length + 1, Items.groupOf bracket children, 0⟩
      (w₁.setConstruct w.nodes.size (groupOf bracket ids)) := by
    have acted := folded.acted (p := p) (by omega) (by omega)
    rw [← behind] at acted
    exact ⟨forms', _, acted⟩
  cases bracket with
  | brace => exact group
  | paren =>
      by_cases named : ∃ name rest, outside = .token (.ident name) :: rest
      · obtain ⟨name, outside, rfl⟩ := named
        obtain ⟨forms'', n, acted⟩ := folded.ready.formCall_acted folded.tokens_eq
        replace acted := acted.after site.ready.valid folded.advances
        have beyondName : (within ++ .token (.opening .paren) :: .token (.ident name) :: outside).drop
            (within.length + 2) = outside :=
          List.drop_length_add_append 2
        rw [folded.form_eq, ← beyondName] at acted
        exact ⟨forms'', n, acted⟩
      · have noName : ∀ name rest, outside ≠ .token (.ident name) :: rest :=
          fun name rest same => named ⟨name, rest, same⟩
        have noNameItem : ∀ name rest, itemsOf forms outside ≠ .token (.ident name) :: rest := by
          intro name rest same
          cases outside with
          | nil => cases same
          | cons piece outside =>
              cases piece with
              | token t =>
                  cases same
                  exact noName name outside rfl
              | part n => cases same
        rw [Items.closed_of_no_name noNameItem]
        exact (congrArg _ (folded.ready.formCall_eq folded.tokens_eq noName)).mpr group

end Workspace

end Rill

import Mathlib
import Rill.Proofs.Reduction.Brackets

/-!
# Reducing a workspace reduces its items

The passes over a range, with their positions, owners and parents, do to the workspace what the passes
over its items do to them. `reduceRange_simulates` is the whole range, by induction on the depth of
brackets; `reduce_agrees` is the list of lexemes.

A pass walks over positions, and over many of them for one node. The positions of a node are claimed
and skipped (`skip`), so the walk goes from piece to piece.
-/

namespace Rill

namespace Workspace

variable {w w' w'' : Workspace} {target n : NodeId} {lo hi p : Nat} {forms forms' : NodeId → Form}
  {opens : List NodeId} {pieces left right : List (Piece NodeId)} {t : Token}
  {inner : Items.Inner} {nested : Nested} {group : Group} {range : TokenRange}

/-! ## Visits -/

theorem Site.act_agrees {lexeme : Lexeme} (simulates : Simulates inner nested)
    (site : w.Site forms opens target lo hi p left t right) (isToken : lexeme.token = t)
    (accepted : group.accepts t = true) :
    Agrees (w.Performed forms opens target lo hi p left right)
      (Items.act inner (itemsOf forms left) t (itemsOf forms right))
      (w.act nested ⟨lo, hi⟩ target p lexeme) := by
  unfold act
  subst isToken
  obtain ⟨token, span⟩ := lexeme
  cases token with
  | closing bracket => exact site.closeBracket_agrees simulates
  | ident name => exact site.makeLeaf_performed rfl rfl rfl
  | int value => exact site.makeLeaf_performed rfl rfl rfl
  | void => exact site.makeLeaf_performed rfl rfl rfl
  | u64 => exact site.makeLeaf_performed rfl rfl rfl
  | arrow => exact site.makeArrow_agrees
  | plus => exact site.makeSum_agrees
  | printWord => exact site.makePrint_agrees
  | returnWord => exact site.makeReturn_performed
  | doubleColon => exact site.makeInferred_agrees
  | colon => exact site.makeAnnotated_agrees
  | equals => exact site.makeAssign_agrees
  | semicolon => exact Site.makeTerminated_agrees ⟨.semicolon, span⟩ site (fun _ => rfl) fun _ => rfl
  | comma => exact Site.makeTerminated_agrees ⟨.comma, span⟩ site (fun _ => rfl) fun _ => rfl
  | opening bracket => cases group <;> cases accepted

theorem visit_claimed {i : Nat} (claimed : w.owner? i ≠ none) :
    visit nested group range target w i = .ok w := by
  obtain ⟨owner, owned⟩ := Option.ne_none_iff_exists'.mp claimed
  unfold visit
  split
  · rw [if_neg (by simp [isClaimed, owned])]
  · rfl

/-- A walk over claimed positions changes nothing. -/
theorem skip {positions more : List Nat} (claimed : ∀ i ∈ positions, w.owner? i ≠ none) :
    (positions ++ more).foldlM (visit nested group range target) w =
      more.foldlM (visit nested group range target) w := by
  induction positions with
  | nil => rfl
  | cons i positions ih =>
      rw [List.cons_append, List.foldlM_cons, visit_claimed (claimed i (by simp))]
      exact ih fun j member => claimed j (List.mem_cons_of_mem _ member)

/-- The visit of a bare token. -/
theorem Site.visit_eq (nested : Nested) (group : Group) (range : TokenRange)
    (site : w.Site forms opens target lo hi p left t right) :
    ∃ lexeme : Lexeme, lexeme.token = t ∧ visit nested group range target w p =
      if group.accepts t then w.act nested range target p lexeme else .ok w := by
  have isToken := site.isToken
  rw [token?, Option.map_eq_some_iff] at isToken
  obtain ⟨lexeme, found, rfl⟩ := isToken
  refine ⟨lexeme, rfl, ?_⟩
  simp [visit, found, isClaimed, site.bare]

/-! ## Walks -/

/-- A place between two pieces of a range under reduction. -/
structure Gap (w : Workspace) (forms : NodeId → Form) (opens : List NodeId) (target : NodeId)
    (lo hi p : Nat) (left right : List (Piece NodeId)) : Prop where
  ready : w.Ready forms opens target lo (left.reverse ++ right) hi
  before : w.Tiles target none lo left.reverse p
  after : w.Tiles target none p right hi

/-- The gaps on both sides of a piece. -/
theorem gap_iff {m : Nat} {piece : Piece NodeId} (isPiece : w.Tiles target none p [piece] m) :
    (w.Tiles target none lo left.reverse p ∧ w.Gap forms opens target lo hi m (piece :: left) right) ↔
      (w.Tiles target none m right hi ∧ w.Gap forms opens target lo hi p left (piece :: right)) := by
  constructor
  · rintro ⟨before, gap⟩
    exact ⟨gap.after, by simpa using gap.ready, before, isPiece.append gap.after⟩
  · rintro ⟨after, gap⟩
    refine ⟨gap.before, by simpa using gap.ready, ?_, after⟩
    rw [List.reverse_cons]
    exact gap.before.append isPiece

/-- A range has become pieces that stand for the given items. -/
def Rewritten (w : Workspace) (forms : NodeId → Form) (opens : List NodeId) (target : NodeId)
    (lo hi : Nat) (items : List Item) (w' : Workspace) : Prop :=
  ∃ forms' pieces, w'.Ready forms' opens target lo pieces hi ∧
    w.Advances forms w' forms' target lo hi ∧ items = itemsOf forms' pieces

theorem Ready.rewritten (ready : w.Ready forms opens target lo pieces hi) :
    w.Rewritten forms opens target lo hi (itemsOf forms pieces) w :=
  ⟨forms, pieces, ready, Advances.refl w forms target lo hi, rfl⟩

theorem Rewritten.after {items : List Item} (valid : w.Valid forms opens)
    (first : w.Advances forms w' forms' target lo hi)
    (second : w'.Rewritten forms' opens target lo hi items w'') :
    w.Rewritten forms opens target lo hi items w'' := by
  obtain ⟨forms'', pieces, ready, advances, same⟩ := second
  exact ⟨forms'', pieces, ready, first.trans valid advances, same⟩

/-- The positions of a node of the range are claimed. -/
theorem Ready.claimed_part (ready : w.Ready forms opens target lo pieces hi) (member : .part n ∈ pieces)
    {i : Nat} (low : (w.tokensOf n).start ≤ i) (high : i < (w.tokensOf n).stop) : w.owner? i ≠ none := by
  obtain ⟨node, found, _⟩ := ready.tiles.part_bounds member
  rw [tokensOf, found] at low high
  intro bare
  have hoisted := ready.hoisted member found low high
  rw [bare] at hoisted
  cases hoisted

/-- After an action the new node stands between two gaps. -/
theorem Acted.gaps {form : Form}
    (acted : w.Acted w' forms forms' opens target lo hi p left right n form) :
    ∃ s e, s ≤ p ∧ p < e ∧ (∀ i, s ≤ i → i < e → w'.owner? i ≠ none) ∧
      w'.Gap forms' opens target lo hi e (.part n :: left) right ∧
      w'.Gap forms' opens target lo hi s left (.part n :: right) := by
  obtain ⟨before, isNode, after⟩ := acted.ready.tiles.part_split rfl
  have member : .part n ∈ left.reverse ++ .part n :: right := by simp
  refine ⟨_, _, acted.low, acted.high, fun i => acted.ready.claimed_part member, ?_, ?_⟩
  · refine ⟨by simpa using acted.ready, ?_, after⟩
    rw [List.reverse_cons]
    exact before.append isNode
  · exact ⟨acted.ready, before, isNode.append after⟩

/-- The pieces on both sides of a site keep their items. -/
theorem Site.items_drop (site : w.Site forms opens target lo hi p left t right)
    (advances : w.Advances forms w' forms' target lo hi) (before after : Nat) :
    itemsOf forms' (left.drop before) = (itemsOf forms left).drop before ∧
      itemsOf forms' (right.drop after) = (itemsOf forms right).drop after := by
  have sameLeft : itemsOf forms' left = itemsOf forms left := by
    have reversed := advances.map_forms site.before
    rwa [List.map_reverse, List.map_reverse, List.reverse_inj] at reversed
  have sameRight : itemsOf forms' right = itemsOf forms right := advances.map_forms site.after
  constructor
  · rw [← sameLeft, itemsOf, List.map_drop]
  · rw [← sameRight, itemsOf, List.map_drop]

theorem scanRight_agrees (simulates : Simulates inner nested)
    (gap : w.Gap forms opens target lo hi p left right) :
    Agrees (w.Rewritten forms opens target lo hi)
      (Items.scanRight inner group (itemsOf forms left) (itemsOf forms right))
      ((List.range' p (hi - p)).foldlM (visit nested group ⟨lo, hi⟩ target) w) := by
  -- By the number of pieces ahead of the walk: an action takes some of them and adds none.
  induction length : right.length using Nat.strong_induction_on generalizing w forms p left right with
  | _ length ih =>
    have ready := gap.ready
    have after := gap.after
    cases after with
    | nil =>
        rw [Nat.sub_self, itemsOf, itemsOf, List.map_nil, Items.scanRight, ← List.map_reverse]
        rw [List.append_nil] at ready
        exact ready.rewritten
    | @part _ m _ n node rest found isParent covers shorter rest_ =>
        have isPart : w.Tiles target none p [.part n] m := .part found isParent covers shorter .nil
        rw [range'_cut (Nat.le_of_lt shorter) rest_.le, skip]
        · rw [itemsOf_part, Items.scanRight]
          exact ih rest.length (by simp [← length]) ((gap_iff isPart).mpr ⟨rest_, gap⟩).2 rfl
        · intro i member
          have bounds := List.mem_range'_1.mp member
          exact ready.claimed isPart (by simp) (by simp) bounds.1 (by omega)
    | @token _ _ t rest isToken bare rest_ =>
        have site : w.Site forms opens target lo hi p left t rest :=
          ⟨ready, gap.before, isToken, bare, rest_⟩
        have cut : List.range' p (hi - p) = p :: List.range' (p + 1) (hi - (p + 1)) := by
          rw [range'_cut (Nat.le_succ p) rest_.le]
          simp
        obtain ⟨lexeme, sameToken, visited⟩ := site.visit_eq nested group ⟨lo, hi⟩
        rw [cut, List.foldlM_cons, visited, itemsOf_token, Items.scanRight]
        by_cases accepted : group.accepts t = true
        · rw [if_pos accepted, if_pos accepted]
          refine (site.act_agrees simulates sameToken accepted).bind fun fold w' performed => ?_
          obtain ⟨forms', n, acted⟩ := performed
          obtain ⟨s, e, low, high, claimed, gap', _⟩ := acted.gaps
          obtain ⟨sameLeft, sameRight⟩ := site.items_drop acted.advances fold.before fold.after
          rw [range'_cut high gap'.after.le, skip]
          · have next := ih (rest.drop fold.after).length (by simp [← length]) gap' rfl
            rw [sameRight, itemsOf_part, sameLeft, acted.form_eq] at next
            exact next.mono fun _ _ => Rewritten.after ready.valid acted.advances
          · intro i member
            have bounds := List.mem_range'_1.mp member
            exact claimed i (by omega) (by omega)
        · rw [if_neg accepted, if_neg accepted]
          have isToken' : w.Tiles target none p [.token t] (p + 1) := .token isToken bare .nil
          exact ih rest.length (by simp [← length]) ((gap_iff isToken').mpr ⟨rest_, gap⟩).2 rfl

theorem scanLeft_agrees (simulates : Simulates inner nested)
    (gap : w.Gap forms opens target lo hi p left right) :
    Agrees (w.Rewritten forms opens target lo hi)
      (Items.scanLeft inner group (itemsOf forms right) (itemsOf forms left))
      ((List.range' lo (p - lo)).reverse.foldlM (visit nested group ⟨lo, hi⟩ target) w) := by
  induction length : left.length using Nat.strong_induction_on generalizing w forms p left right with
  | _ length ih =>
    have ready := gap.ready
    have before := gap.before
    cases left with
    | nil =>
        cases before
        rw [Nat.sub_self, itemsOf, itemsOf, List.map_nil, Items.scanLeft]
        exact ready.rewritten
    | cons piece left =>
        rw [List.reverse_cons, Tiles.append_iff] at before
        obtain ⟨m, before, isPiece⟩ := before
        have gapBefore := ((gap_iff isPiece).mp ⟨before, gap⟩).2
        have low := before.le
        cases isPiece with
        | @part _ _ _ n node _ found isParent covers shorter none =>
            cases none
            have isPart : w.Tiles target none m [.part n] p := .part found isParent covers shorter .nil
            rw [range'_cut low (Nat.le_of_lt shorter), List.reverse_append, skip]
            · rw [itemsOf_part, Items.scanLeft]
              exact ih left.length (by simp [← length]) gapBefore rfl
            · intro i member
              have bounds := List.mem_range'_1.mp (List.mem_reverse.mp member)
              exact ready.claimed isPart (by simp) (by simp) bounds.1 (by omega)
        | @token _ _ t _ isToken bare none =>
            cases none
            have site : w.Site forms opens target lo hi m left t right :=
              ⟨gapBefore.ready, before, isToken, bare, gap.after⟩
            obtain ⟨lexeme, sameToken, visited⟩ := site.visit_eq nested group ⟨lo, hi⟩
            rw [range'_reverse_succ low, List.foldlM_cons, visited, itemsOf_token, Items.scanLeft]
            by_cases accepted : group.accepts t = true
            · rw [if_pos accepted, if_pos accepted]
              refine (site.act_agrees simulates sameToken accepted).bind fun fold w' performed => ?_
              obtain ⟨forms', n, acted⟩ := performed
              obtain ⟨s, e, low', high, claimed, _, gap'⟩ := acted.gaps
              obtain ⟨sameLeft, sameRight⟩ := site.items_drop acted.advances fold.before fold.after
              rw [range'_cut gap'.before.le low', List.reverse_append, skip]
              · have next := ih (left.drop fold.before).length (by simp [← length]) gap' rfl
                rw [sameLeft, itemsOf_part, sameRight, acted.form_eq] at next
                exact next.mono fun _ _ => Rewritten.after gapBefore.ready.valid acted.advances
              · intro i member
                have bounds := List.mem_range'_1.mp (List.mem_reverse.mp member)
                exact claimed i (by omega) (by omega)
            · rw [if_neg accepted, if_neg accepted]
              exact ih left.length (by simp [← length]) gapBefore rfl

/-! ## Ranges -/

theorem pass_agrees (simulates : Simulates inner nested)
    (ready : w.Ready forms opens target lo pieces hi) (group : Group) :
    Agrees (w.Rewritten forms opens target lo hi) (Items.pass inner (itemsOf forms pieces) group)
      (w.pass nested ⟨lo, hi⟩ target group) := by
  unfold pass Items.pass
  cases group.direction with
  | leftToRight =>
      have gap : w.Gap forms opens target lo hi lo [] pieces := ⟨ready, .nil, ready.tiles⟩
      exact scanRight_agrees simulates gap
  | rightToLeft =>
      have gap : w.Gap forms opens target lo hi hi pieces.reverse [] := by
        refine ⟨?_, ?_, .nil⟩ <;> simp only [List.reverse_reverse, List.append_nil]
        · exact ready
        · exact ready.tiles
      rw [itemsOf, ← List.map_reverse]
      exact scanLeft_agrees simulates gap

theorem leftover_kind (lexeme : Lexeme) : (leftover lexeme).kind = Items.leftover lexeme.token := by
  obtain ⟨token, span⟩ := lexeme
  cases token <;> rfl

/-- The end of a reduction finds nodes only, or the first bare token. -/
theorem Ready.finish_cases (ready : w.Ready forms opens target lo pieces hi) :
    ∀ {p rest}, w.Tiles target none p rest hi → (∀ n, .part n ∈ rest → .part n ∈ pieces) →
    (∃ ids : List NodeId, rest = ids.map .part ∧
      Items.finish (itemsOf forms rest) = .ok (ids.map forms) ∧
      (List.range' p (hi - p)).find? (fun i => !w.isClaimed i) = none) ∨
    ∃ t i, Items.finish (itemsOf forms rest) = .error (Items.leftover t) ∧ w.token? i = some t ∧
      (List.range' p (hi - p)).find? (fun i => !w.isClaimed i) = some i := by
  intro p rest tiles inside
  induction tiles with
  | nil => exact Or.inl ⟨[], rfl, rfl, by simp⟩
  | @token p q t rest isToken bare rest_ ih =>
      refine Or.inr ⟨t, p, rfl, isToken, ?_⟩
      rw [range'_cut (Nat.le_succ p) rest_.le]
      simp [isClaimed, bare]
  | @part p m q n node rest found isParent covers shorter rest_ ih =>
      have isPart : w.Tiles target none p [.part n] m := .part found isParent covers shorter .nil
      have claimed : ∀ i ∈ List.range' p (m - p), (!w.isClaimed i) ≠ true := by
        intro i member
        have bounds := List.mem_range'_1.mp member
        have owned := ready.claimed isPart (fun k isIt => inside k (by simp_all)) (by simp) bounds.1
          (by omega)
        simp [isClaimed, Option.ne_none_iff_isSome.mp owned]
      rw [range'_cut (Nat.le_of_lt shorter) rest_.le, List.find?_append, List.find?_eq_none.mpr claimed,
        Option.none_or, itemsOf_part, Items.finish]
      rcases ih ready fun k member => inside k (List.mem_cons_of_mem _ member) with
        ⟨ids, rfl, finished, noToken⟩ | ⟨t, i, failed, isToken, found'⟩
      · refine Or.inl ⟨n :: ids, rfl, ?_, noToken⟩
        rw [finished]
        rfl
      · refine Or.inr ⟨t, i, ?_, isToken, found'⟩
        rw [failed]
        rfl

theorem finish_agrees (ready : w.Ready forms opens target lo pieces hi) :
    Agrees (w.Reduced forms opens target lo hi) (Items.finish (itemsOf forms pieces))
      (w.finish ⟨lo, hi⟩ target) := by
  unfold finish
  rw [TokenRange.indices]
  rcases ready.finish_cases ready.tiles fun _ member => member with
    ⟨ids, rfl, finished, noToken⟩ | ⟨t, i, failed, isToken, found⟩
  · have tops : w.tops ⟨lo, hi⟩ target = ids := by
      rw [tops_eq ready.tiles fun n node i member => ready.hoisted member, Piece.filterMap_parts]
    rw [finished, noToken, Option.bind_none, tops]
    exact ⟨forms, ready, Advances.refl w forms target lo hi, rfl⟩
  · rw [token?, Option.map_eq_some_iff] at isToken
    obtain ⟨lexeme, foundLexeme, rfl⟩ := isToken
    rw [failed, found, Option.bind_some, foundLexeme]
    exact leftover_kind lexeme

theorem reduceRange_simulates (depth : Nat) : Simulates (Items.reduce depth) (reduceRange depth) := by
  induction depth with
  | zero => exact fun ready => finish_agrees ready
  | succ depth ih =>
      intro w forms opens target lo hi pieces ready
      have passes : ∀ items w' group, w.Rewritten forms opens target lo hi items w' →
          Agrees (w.Rewritten forms opens target lo hi) (Items.pass (Items.reduce depth) items group)
            (w'.pass (reduceRange depth) ⟨lo, hi⟩ target group) := by
        rintro items w' group ⟨forms', pieces', ready', advances, rfl⟩
        exact (pass_agrees ih ready' group).mono fun _ _ => Rewritten.after ready.valid advances
      have passed := Agrees.foldlM passes Group.byPriority ready.rewritten
      refine passed.bind fun items w' rewritten => ?_
      obtain ⟨forms', pieces', ready', advances, rfl⟩ := rewritten
      refine (finish_agrees ready').mono fun children result reduced => ?_
      obtain ⟨forms'', ready'', advances', same⟩ := reduced
      exact ⟨forms'', ready'', advances.trans ready.valid advances', same⟩

/-! ## Lists of lexemes -/

section Lexemes

variable {lexemes : List Lexeme}

/-- The items of lexemes that are all still bare. -/
def bareItems (lexemes : List Lexeme) : List Item :=
  lexemes.map fun lexeme => .token lexeme.token

/-- The workspace in which only the root has been made. -/
def start (lexemes : List Lexeme) : Workspace :=
  (ofLexemes lexemes.toArray).addNode (.root []) ⟨0, lexemes.length⟩ none []

theorem start_nodes (lexemes : List Lexeme) : (start lexemes).nodes =
    #[⟨.root [], (start lexemes).spanOf ⟨0, lexemes.length⟩, ⟨0, lexemes.length⟩, none⟩] := rfl

theorem start_node {node : Node} (found : (start lexemes).nodes[n]? = some node) :
    n = 0 ∧
      node = ⟨.root [], (start lexemes).spanOf ⟨0, lexemes.length⟩, ⟨0, lexemes.length⟩, none⟩ := by
  rw [start_nodes] at found
  obtain ⟨inBounds, equal⟩ := Array.getElem?_eq_some_iff.mp found
  obtain rfl : n = 0 := Nat.lt_one_iff.mp inBounds
  exact ⟨rfl, equal.symm⟩

theorem start_bare (lexemes : List Lexeme) (i : Nat) : (start lexemes).owner? i = none := by
  show ((Array.replicate lexemes.toArray.size none)[i]?).join = none
  rw [Array.getElem?_replicate]
  split <;> rfl

theorem start_valid (lexemes : List Lexeme) : (start lexemes).Valid forms [0] := by
  have noneClosed : ∀ {n : NodeId} {node : Node},
      (start lexemes).nodes[n]? = some node → n ∉ [0] → False :=
    fun found closed => closed (by simp [start_node found])
  have noParent : ∀ {n : NodeId} {node : Node},
      (start lexemes).nodes[n]? = some node → node.parent = none :=
    fun found => by rw [(start_node found).2]
  refine ⟨Array.size_replicate, fun n isOpen => ?_, fun n _ node found p isParent => ?_,
    fun n node found _ => (start_node found).1, fun n node p found isParent => ?_,
    fun n node found => ?_, fun n node found closed => (noneClosed found closed).elim,
    fun n node m found closed => (noneClosed found closed).elim,
    fun n node found closed => (noneClosed found closed).elim⟩
  · rw [List.mem_singleton.mp isOpen]
    exact Nat.one_pos
  · cases (noParent found).symm.trans isParent
  · cases (noParent found).symm.trans isParent
  · rw [(start_node found).2]

theorem start_tiles (lexemes : List Lexeme) :
    (start lexemes).Tiles 0 none 0 (lexemes.map fun lexeme => .token lexeme.token) lexemes.length := by
  have suffix : ∀ (rest : List Lexeme) (p : Nat), lexemes.drop p = rest → p ≤ lexemes.length →
      (start lexemes).Tiles 0 none p (rest.map fun lexeme => .token lexeme.token) lexemes.length := by
    intro rest
    induction rest with
    | nil =>
        intro p isSuffix inBounds
        obtain rfl : p = lexemes.length := Nat.le_antisymm inBounds (List.drop_eq_nil_iff.mp isSuffix)
        exact .nil
    | cons lexeme rest ih =>
        intro p isSuffix _
        have found : lexemes[p]? = some lexeme := by
          rw [← List.head?_drop, isSuffix, List.head?_cons]
        have next : lexemes.drop (p + 1) = rest := by
          rw [← List.drop_drop, isSuffix, List.drop_one, List.tail_cons]
        refine .token ?_ (start_bare lexemes p) (ih (p + 1) next (List.getElem?_eq_some_iff.mp found).1)
        show (lexemes.toArray[p]?).map (·.token) = some lexeme.token
        rw [List.getElem?_toArray, found, Option.map_some]
  exact suffix lexemes 0 rfl (Nat.zero_le _)

theorem start_ready (forms : NodeId → Form) (lexemes : List Lexeme) :
    (start lexemes).Ready forms [0] 0 0
      (lexemes.map fun lexeme => .token lexeme.token) lexemes.length := by
  refine ⟨start_valid lexemes, by simp, start_tiles lexemes, fun n node found isParent => ?_, by simp⟩
  rw [(start_node found).2] at isParent
  cases isParent

/-- A finished tree of the lexemes, whose root has the given children. -/
structure Parsed (lexemes : List Lexeme) (children : List Form) (tree : ParseTree) (w : Workspace)
    (forms : NodeId → Form) : Prop where
  valid : w.Valid forms []
  lexemes_eq : w.lexemes = lexemes.toArray
  tree_eq : tree = ⟨w.nodes, some 0⟩
  form : forms 0 = ⟨.root children⟩
  root : ∃ node : Node, w.nodes[0]? = some node ∧ node.parent = none ∧ node.tokens = ⟨0, lexemes.length⟩

/-- The root is finished when the whole range is reduced. -/
theorem Reduced.parsed {children : List Form} {ids : List NodeId}
    (reduced : (start lexemes).Reduced forms [0] 0 0 lexemes.length children (w, ids)) :
    ∃ forms', Parsed lexemes children ⟨(w.setConstruct 0 (.root ids)).nodes, some 0⟩
      (w.setConstruct 0 (.root ids)) forms' := by
  obtain ⟨forms', ready, advances, rfl⟩ := reduced
  obtain ⟨node, found, _, tokens, _, sameParent | ⟨isOwn, _⟩⟩ := advances.step.kept 0 _ rfl
  swap
  · cases isOwn
  obtain ⟨node', found', parent', tokens', _, _, construct'⟩ := setConstruct_kept 0 (.root ids) found
  replace construct' := construct' rfl
  replace tokens' : node'.tokens = ⟨0, lexemes.length⟩ := tokens'.trans tokens
  replace parent' : node'.parent = none := parent'.trans sameParent
  have valid := (ready.valid.setConstruct List.mem_cons_self (.root ids)).close List.not_mem_nil found'
  rw [construct', tokens', parent'] at valid
  have owned : w.Tiles 0 (some 0) 0 (ids.map .part) lexemes.length := by
    refine ready.tiles.transfer rfl (fun n node _ found isParent => ⟨node, found, isParent, rfl⟩)
      fun i low high bare => ?_
    exact absurd bare (ready.claimed ready.tiles (fun _ member => member) (by simp) low high)
  have complete : ∀ (n : NodeId) (other : Node), (w.setConstruct 0 (.root ids)).nodes[n]? = some other →
      other.parent = some 0 → n ∈ (Construct.root ids).parts := by
    intro n other foundOther isParent
    obtain ⟨before, foundBefore, rfl⟩ := setConstruct_node.mp foundOther
    have member := ready.complete n before foundBefore (by split at isParent <;> exact isParent)
    simpa [Construct.parts] using member
  refine ⟨_, valid (owned.setConstruct _) complete (fun n member => ready.closed n ?_) (by simp),
    ?_, rfl, ?_, node', found', parent', tokens'⟩
  · exact List.mem_map_of_mem member
  · exact advances.step.lexemes
  · rw [Function.update_self, Construct.map]

/-- Reducing lexemes gives a tree of what reducing their items gives, or fails in the same way. -/
theorem reduce_agrees (lexemes : List Lexeme) :
    Agrees (fun children tree => ∃ w forms, Parsed lexemes children tree w forms)
      (Items.reduce (lexemes.length + 1) (bareItems lexemes)) (reduce lexemes) := by
  have simulated := reduceRange_simulates (lexemes.length + 1) (start_ready (fun _ => ⟨.void⟩) lexemes)
  have same : itemsOf (fun _ => ⟨.void⟩) (lexemes.map fun lexeme => .token lexeme.token) =
      bareItems lexemes := by
    rw [itemsOf, List.map_map]
    rfl
  rw [same] at simulated
  rw [← bind_pure (Items.reduce _ _)]
  refine simulated.bind fun children result reduced => ?_
  obtain ⟨forms', parsed⟩ := reduced.parsed
  exact ⟨_, forms', parsed⟩

end Lexemes

end Workspace

end Rill

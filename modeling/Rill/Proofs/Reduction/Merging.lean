import Mathlib
import Rill.Proofs.Reduction.Tiling

/-!
# Adding nodes

Every action of a reduction adds a node over some pieces of the range and makes it their owner
(`Merged`). Between adding a node and knowing its final construct the node is open.

* `Step` says what the reduction of a range may change: it adds nodes, moves nodes from its target
  under new ones, and claims tokens of the range.
* `Opening` is a range with an open node added over some of its pieces, `Valid.close` finishes such a
  node, and `Opening.fold` says what the range is then.
-/

namespace Rill

namespace Workspace

variable {w w' w'' : Workspace} {target id n : NodeId} {lo hi : Nat}
  {forms : NodeId → Form} {opens : List NodeId}

/-! ## What a reduction may change -/

/-- What the reduction of the range from `lo` up to `hi` under `target` may change. -/
structure Step (w w' : Workspace) (target : NodeId) (lo hi : Nat) : Prop where
  lexemes : w'.lexemes = w.lexemes
  size : w.nodes.size ≤ w'.nodes.size
  kept : ∀ (id : NodeId) (node : Node), w.nodes[id]? = some node → ∃ node' : Node,
    w'.nodes[id]? = some node' ∧ node'.construct = node.construct ∧ node'.tokens = node.tokens ∧
    node'.span = node.span ∧ (node'.parent = node.parent ∨
      (node.parent = some target ∧ ∃ p, node'.parent = some p ∧ w.nodes.size ≤ p))
  made : ∀ (id : NodeId) (node' : Node), w'.nodes[id]? = some node' → w.nodes.size ≤ id →
    ∃ p, node'.parent = some p ∧ (p = target ∨ w.nodes.size ≤ p)
  owners : ∀ i, w'.owner? i = w.owner? i ∨ (w.owner? i = none ∧ lo ≤ i ∧ i < hi)

namespace Step

theorem refl (w : Workspace) (target : NodeId) (lo hi : Nat) : w.Step w target lo hi where
  lexemes := rfl
  size := Nat.le_refl _
  kept _ node found := ⟨node, found, rfl, rfl, rfl, Or.inl rfl⟩
  made _ _ found isNew := absurd (lt_size found) (Nat.not_lt.mpr isNew)
  owners _ := Or.inl rfl

/-- A step followed by one under the same target, or under a node that the first has made. -/
theorem trans {inner : NodeId} {lo' hi' : Nat} (first : w.Step w' target lo hi)
    (second : w'.Step w'' inner lo' hi') (under : inner = target ∨ w.nodes.size ≤ inner)
    (bounded : ∀ (id : NodeId) (node : Node) (p : NodeId), w.nodes[id]? = some node →
      node.parent = some p → p < w.nodes.size)
    (low : lo ≤ lo') (high : hi' ≤ hi) : w.Step w'' target lo hi where
  lexemes := second.lexemes.trans first.lexemes
  size := first.size.trans second.size
  kept id node found := by
    obtain ⟨node', found', construct', tokens', span', moved'⟩ := first.kept id node found
    obtain ⟨node'', found'', construct'', tokens'', span'', moved''⟩ := second.kept id node' found'
    refine ⟨node'', found'', construct''.trans construct', tokens''.trans tokens',
      span''.trans span', ?_⟩
    rcases moved'' with same | ⟨wasInner, p, isParent, isNew⟩
    · rw [same]
      exact moved'
    · refine Or.inr ⟨?_, p, isParent, first.size.trans isNew⟩
      rcases moved' with same | ⟨wasTarget, _⟩
      · rw [same] at wasInner
        rcases under with rfl | isNewer
        · exact wasInner
        · exact absurd (bounded id node inner found wasInner) (Nat.not_lt.mpr isNewer)
      · exact wasTarget
  made id node'' found'' isNew := by
    by_cases isOld : id < w'.nodes.size
    · obtain ⟨node', foundOld, _, _, _, moved⟩ := second.kept id _ (Array.getElem?_eq_getElem isOld)
      cases found''.symm.trans foundOld
      obtain ⟨p', isParent', place'⟩ := first.made id _ (Array.getElem?_eq_getElem isOld) isNew
      rcases moved with same | ⟨_, p, isParent, isNewer⟩
      · exact ⟨p', same.trans isParent', place'⟩
      · exact ⟨p, isParent, Or.inr (first.size.trans isNewer)⟩
    · obtain ⟨p, isParent, place⟩ := second.made id node'' found'' (Nat.not_lt.mp isOld)
      refine ⟨p, isParent, ?_⟩
      rcases place with rfl | isNewer
      · exact under
      · exact Or.inr (first.size.trans isNewer)
  owners i := by
    rcases second.owners i with same | ⟨unclaimed, low', high'⟩
    · rw [same]
      exact first.owners i
    · rcases first.owners i with same' | inRange
      · exact Or.inr ⟨same'.symm.trans unclaimed, low.trans low', Nat.lt_of_lt_of_le high' high⟩
      · exact Or.inr inRange

/-- A tiling under another node, of tokens outside the range or with an owner, stays as it is. -/
theorem tiles {parent : NodeId} {owner : Option NodeId} {p q : Nat} {pieces : List (Piece NodeId)}
    (step : w.Step w' target lo hi) (tiles : w.Tiles parent owner p pieces q)
    (other : parent ≠ target)
    (outside : owner = none → ∀ i, p ≤ i → i < q → lo ≤ i → i < hi → False) :
    w'.Tiles parent owner p pieces q := by
  refine tiles.transfer step.lexemes (fun n node member found isParent => ?_)
    fun i low high owned => ?_
  · obtain ⟨node', found', _, tokens', _, same | ⟨wasTarget, _⟩⟩ := step.kept n node found
    · exact ⟨node', found', same.trans isParent, tokens'⟩
    · rw [isParent] at wasTarget
      exact absurd (Option.some.inj wasTarget) other
  · rcases step.owners i with same | ⟨unclaimed, low', high'⟩
    · exact same.trans owned
    · exact (outside (owned.symm.trans unclaimed) i low high low' high').elim

end Step

theorem Valid.parent_lt (valid : w.Valid forms opens) {node : Node} {p : NodeId}
    (found : w.nodes[id]? = some node) (isParent : node.parent = some p) : p < w.nodes.size := by
  rcases valid.listed id node p found isParent with isOpen | ⟨parentNode, foundParent, _⟩
  · exact valid.openIn p isOpen
  · exact lt_size foundParent

/-! ## Ranges under reduction -/

/-- A range under reduction: its pieces tile it, and they are all that stands under the target. -/
structure Ready (w : Workspace) (forms : NodeId → Form) (opens : List NodeId) (target : NodeId)
    (lo : Nat) (pieces : List (Piece NodeId)) (hi : Nat) : Prop where
  valid : w.Valid forms opens
  isOpen : target ∈ opens
  tiles : w.Tiles target none lo pieces hi
  complete : ∀ (n : NodeId) (node : Node), w.nodes[n]? = some node → node.parent = some target →
    .part n ∈ pieces
  closed : ∀ n, .part n ∈ pieces → n ∉ opens

/-- A step to a workspace whose forms agree with those before. -/
structure Advances (w : Workspace) (forms : NodeId → Form) (w' : Workspace) (forms' : NodeId → Form)
    (target : NodeId) (lo hi : Nat) : Prop where
  step : w.Step w' target lo hi
  agree : ∀ n < w.nodes.size, forms' n = forms n

theorem Advances.refl (w : Workspace) (forms : NodeId → Form) (target : NodeId) (lo hi : Nat) :
    w.Advances forms w forms target lo hi :=
  ⟨Step.refl w target lo hi, fun _ _ => rfl⟩

theorem Advances.trans {forms' forms'' : NodeId → Form} (valid : w.Valid forms opens)
    (first : w.Advances forms w' forms' target lo hi)
    (second : w'.Advances forms' w'' forms'' target lo hi) :
    w.Advances forms w'' forms'' target lo hi where
  step := first.step.trans second.step (Or.inl rfl)
    (fun _ _ _ found isParent => valid.parent_lt found isParent) (Nat.le_refl lo) (Nat.le_refl hi)
  agree n inBounds :=
    (second.agree n (Nat.lt_of_lt_of_le inBounds first.step.size)).trans (first.agree n inBounds)

/-- The pieces of a tiling keep their forms. -/
theorem Advances.map_forms {forms' : NodeId → Form} {parent : NodeId} {owner : Option NodeId}
    {p q : Nat} {pieces : List (Piece NodeId)} (advances : w.Advances forms w' forms' target lo hi)
    (tiles : w.Tiles parent owner p pieces q) :
    pieces.map (Piece.map forms') = pieces.map (Piece.map forms) := by
  refine List.map_congr_left fun piece member => ?_
  cases piece with
  | token t => rfl
  | part n =>
      obtain ⟨node, found, _⟩ := tiles.part_bounds member
      exact congrArg Piece.part (advances.agree n (lt_size found))

/-- The hoisted node at each position of a part of the range is that part. -/
theorem Ready.hoisted {pieces : List (Piece NodeId)} (ready : w.Ready forms opens target lo pieces hi)
    {node : Node} {i : Nat} (member : .part n ∈ pieces) (found : w.nodes[n]? = some node)
    (low : node.tokens.start ≤ i) (high : i < node.tokens.stop) :
    (w.owner? i).map (w.hoist target) = some n := by
  obtain ⟨node', found', isParent, _⟩ := ready.tiles.part_bounds member
  cases found.symm.trans found'
  exact ready.valid.hoisted ready.isOpen found (ready.closed n member) isParent low high

/-! ## Adding one node -/

/-- The workspace with one more node, over `tokens` and under `target`, that owns `parts` and has
claimed the tokens at `claims`. -/
structure Merged (w w' : Workspace) (target : NodeId) (construct : Construct NodeId)
    (tokens : TokenRange) (parts : List NodeId) (claims : List Nat) : Prop where
  lexemes : w'.lexemes = w.lexemes
  sizes : w'.owners.size = w.owners.size
  size : w'.nodes.size = w.nodes.size + 1
  nodes : ∀ n : NodeId, w'.nodes[n]? =
    if n = w.nodes.size then some ⟨construct, w.spanOf tokens, tokens, some target⟩
    else (w.nodes[n]?).map fun node =>
      if n ∈ parts then { node with parent := some w.nodes.size } else node
  owners : ∀ i, w'.owner? i = if i ∈ claims then some w.nodes.size else w.owner? i

theorem adopt_all (parent : NodeId) (parts : List NodeId) :
    ∀ w : Workspace, (parts.foldl (fun w part => w.adopt parent part) w).lexemes = w.lexemes ∧
      (parts.foldl (fun w part => w.adopt parent part) w).owners = w.owners ∧
      (parts.foldl (fun w part => w.adopt parent part) w).nodes.size = w.nodes.size ∧
      ∀ n : NodeId, (parts.foldl (fun w part => w.adopt parent part) w).nodes[n]? =
        (w.nodes[n]?).map fun node =>
          if n ∈ parts then { node with parent := some parent } else node := by
  induction parts with
  | nil => simp
  | cons part parts ih =>
      intro w
      obtain ⟨lexemes, owners, size, nodes⟩ := ih (w.adopt parent part)
      refine ⟨lexemes, owners, size.trans (Array.size_modify ..), fun n => ?_⟩
      rw [List.foldl_cons, nodes n]
      simp only [adopt, Array.getElem?_modify, List.mem_cons]
      by_cases isPart : part = n
      · subst isPart
        cases w.nodes[part]? <;> simp
      · simp [isPart, Ne.symm isPart]

theorem merged_addNode {construct : Construct NodeId} {tokens : TokenRange} {parts : List NodeId}
    (old : ∀ n ∈ parts, n < w.nodes.size) :
    w.Merged (w.addNode construct tokens (some target) parts) target construct tokens parts [] := by
  obtain ⟨lexemes, owners, size, nodes⟩ := adopt_all w.nodes.size parts
    { w with nodes := w.nodes.push ⟨construct, w.spanOf tokens, tokens, some target⟩ }
  refine ⟨lexemes, congrArg Array.size owners, size.trans (Array.size_push _), fun n => ?_, fun i => ?_⟩
  · refine (nodes n).trans ?_
    rw [Array.getElem?_push]
    by_cases isNew : n = w.nodes.size
    · have notPart : w.nodes.size ∉ parts := fun member => Nat.lt_irrefl _ (old _ member)
      simp [isNew, notPart]
    · simp [isNew]
  · have owner : (w.addNode construct tokens (some target) parts).owner? i = w.owner? i :=
      congrArg (fun owners => (owners[i]?).join) owners
    simp [owner]

theorem Merged.claim {construct : Construct NodeId} {tokens : TokenRange} {parts : List NodeId}
    {claims : List Nat} {i : Nat} (merged : w.Merged w' target construct tokens parts claims)
    (inBounds : i < w.owners.size) :
    w.Merged (w'.claim i w.nodes.size) target construct tokens parts (i :: claims) := by
  refine ⟨merged.lexemes, ?_, merged.size, merged.nodes, fun j => ?_⟩
  · rw [← merged.sizes]
    exact Array.size_setIfInBounds
  · have before := merged.owners j
    have small : i < w'.owners.size := merged.sizes ▸ inBounds
    unfold Workspace.claim owner? at *
    rw [Array.getElem?_setIfInBounds]
    by_cases same : i = j
    · subst same
      simp [small]
    · rw [if_neg same, before]
      simp [Ne.symm same]

section Merge

variable {construct : Construct NodeId} {left middle right : List (Piece NodeId)} {s e : Nat}
  {claims : List Nat}

/-- A node that is added over some pieces of a range and owns their parts. -/
structure Opening (w w' : Workspace) (forms : NodeId → Form) (opens : List NodeId) (target : NodeId)
    (lo hi s e : Nat) (left middle right : List (Piece NodeId)) (construct : Construct NodeId)
    (claims : List Nat) : Prop where
  ready : w.Ready forms opens target lo (left ++ middle ++ right) hi
  before : w.Tiles target none lo left s
  covered : w.Tiles target none s middle e
  after : w.Tiles target none e right hi
  proper : s < e
  merged : w.Merged w' target construct ⟨s, e⟩ (middle.filterMap Piece.part?) claims
  claimed : ∀ i ∈ claims, s ≤ i ∧ i < e ∧ w.owner? i = none

namespace Opening

variable (opening : w.Opening w' forms opens target lo hi s e left middle right construct claims)

include opening

theorem lo_le : lo ≤ s := opening.before.le

theorem le_hi : e ≤ hi := opening.after.le

theorem new_node : w'.nodes[w.nodes.size]? = some ⟨construct, w.spanOf ⟨s, e⟩, ⟨s, e⟩, some target⟩ := by
  rw [opening.merged.nodes, if_pos rfl]

theorem old_node {node : Node} (found : w.nodes[n]? = some node) :
    w'.nodes[n]? =
      some (if .part n ∈ middle then { node with parent := some w.nodes.size } else node) := by
  rw [opening.merged.nodes, if_neg (Nat.ne_of_lt (lt_size found)), found]
  simp only [Piece.mem_parts, Option.map_some]

/-- A node of the new workspace is the new one or an old one, moved if it is a part of the new one. -/
theorem node_cases {node' : Node} (found' : w'.nodes[n]? = some node') :
    (n = w.nodes.size ∧ node' = ⟨construct, w.spanOf ⟨s, e⟩, ⟨s, e⟩, some target⟩) ∨
    ∃ node, w.nodes[n]? = some node ∧
      node' = if .part n ∈ middle then { node with parent := some w.nodes.size } else node := by
  rw [opening.merged.nodes] at found'
  split at found'
  · next isNew => exact Or.inl ⟨isNew, (Option.some.inj found').symm⟩
  · obtain ⟨node, found, equal⟩ := Option.map_eq_some_iff.mp found'
    refine Or.inr ⟨node, found, ?_⟩
    rw [← equal]
    simp only [Piece.mem_parts]

theorem step : w.Step w' target lo hi where
  lexemes := opening.merged.lexemes
  size := Nat.le_of_lt (opening.merged.size ▸ Nat.lt_succ_self _)
  kept n node found := by
    refine ⟨_, opening.old_node found, ?_⟩
    split
    · next isPart =>
      obtain ⟨node', found', isParent, _⟩ := opening.covered.part_bounds isPart
      cases found.symm.trans found'
      exact ⟨rfl, rfl, rfl, Or.inr ⟨isParent, _, rfl, Nat.le_refl _⟩⟩
    · exact ⟨rfl, rfl, rfl, Or.inl rfl⟩
  made n node' found' isNew := by
    rcases opening.node_cases found' with ⟨_, rfl⟩ | ⟨node, found, _⟩
    · exact ⟨target, rfl, Or.inl rfl⟩
    · exact absurd (lt_size found) (Nat.not_lt.mpr isNew)
  owners i := by
    rw [opening.merged.owners]
    split
    · next isClaim =>
      obtain ⟨low, high, unclaimed⟩ := opening.claimed i isClaim
      have lower := opening.lo_le
      have higher := opening.le_hi
      exact Or.inr ⟨unclaimed, by omega, by omega⟩
    · exact Or.inl rfl

theorem target_ne : target ≠ w.nodes.size :=
  Nat.ne_of_lt (opening.ready.valid.openIn target opening.ready.isOpen)

theorem new_notOpen : w.nodes.size ∉ opens :=
  fun isOpen => Nat.lt_irrefl _ (opening.ready.valid.openIn _ isOpen)

theorem valid : w'.Valid forms (w.nodes.size :: opens) := by
  have valid := opening.ready.valid
  have step := opening.step
  refine ⟨?_, fun id isOpen => ?_, fun id isOpen node' found' p isParent => ?_,
    fun id node' found' noParent => ?_, fun id node' p found' isParent => ?_,
    fun id node' found' => ?_, fun id node' found' closed => ?_, fun id node' n found' closed => ?_,
    fun id node' found' closed => ?_⟩
  · rw [opening.merged.sizes, opening.merged.lexemes]
    exact valid.sizes
  · rw [opening.merged.size]
    rcases List.mem_cons.mp isOpen with rfl | isOld
    · exact Nat.lt_succ_self _
    · exact Nat.lt_succ_of_lt (valid.openIn id isOld)
  · rcases opening.node_cases found' with ⟨_, rfl⟩ | ⟨node, found, rfl⟩
    · cases isParent
      exact List.mem_cons_of_mem _ opening.ready.isOpen
    · split at isParent
      · cases isParent
        exact List.mem_cons_self
      · rcases List.mem_cons.mp isOpen with rfl | isOld
        · exact absurd (lt_size found) (Nat.lt_irrefl _)
        · exact List.mem_cons_of_mem _ (valid.openParent id isOld node found p isParent)
  · rcases opening.node_cases found' with ⟨_, rfl⟩ | ⟨node, found, rfl⟩
    · cases noParent
    · split at noParent
      · cases noParent
      · exact valid.root id node found noParent
  · rcases opening.node_cases found' with ⟨_, rfl⟩ | ⟨node, found, rfl⟩
    · cases isParent
      exact Or.inl (List.mem_cons_of_mem _ opening.ready.isOpen)
    · split at isParent
      · cases isParent
        exact Or.inl List.mem_cons_self
      · rcases valid.listed id node p found isParent with isOpen | ⟨parentNode, foundParent, member⟩
        · exact Or.inl (List.mem_cons_of_mem _ isOpen)
        · obtain ⟨parentNode', foundParent', construct', _⟩ := step.kept p parentNode foundParent
          exact Or.inr ⟨parentNode', foundParent', construct' ▸ member⟩
  · have sameSpan : w'.spanOf = w.spanOf := by
      funext range
      simp only [spanOf, opening.merged.lexemes]
    rw [sameSpan]
    rcases opening.node_cases found' with ⟨_, rfl⟩ | ⟨node, found, rfl⟩
    · rfl
    · split <;> exact valid.span id node found
  all_goals
    simp only [List.mem_cons, not_or] at closed
    rcases opening.node_cases found' with ⟨isNew, _⟩ | ⟨node, found, _⟩
    · exact absurd isNew closed.1
    obtain ⟨node'', found'', construct', tokens', _, moved⟩ := step.kept id node found
    cases found'.symm.trans found''
  · rw [construct', tokens']
    refine step.tiles (valid.tiles id node found closed.2) (fun same => ?_) (by simp)
    exact closed.2 (same ▸ opening.ready.isOpen)
  · intro hasParent
    rw [construct']
    refine valid.proper id node n found closed.2 fun noParent => ?_
    rcases moved with same | ⟨isTarget, _⟩
    · exact hasParent (same.trans noParent)
    · cases noParent.symm.trans isTarget
  · rw [construct']
    exact valid.form id node found closed.2

/-- The new node stands in the place of the pieces it was made of. -/
theorem tiles : w'.Tiles target none lo (left ++ .part w.nodes.size :: right) hi := by
  have apart : ∀ {pieces : List (Piece NodeId)} {p q : Nat}, w.Tiles target none p pieces q →
      q ≤ s ∨ e ≤ p → w'.Tiles target none p pieces q := by
    intro pieces p q tiles outside
    refine tiles.transfer opening.merged.lexemes (fun n node member found isParent => ?_)
      fun i low high unclaimed => ?_
    · refine ⟨node, ?_, isParent, rfl⟩
      have notPart : .part n ∉ middle := by
        intro isPart
        obtain ⟨node₁, found₁, _, low₁, proper₁, high₁⟩ := opening.covered.part_bounds isPart
        obtain ⟨node₂, found₂, _, low₂, proper₂, high₂⟩ := tiles.part_bounds member
        cases found₁.symm.trans found₂
        omega
      rw [opening.old_node found, if_neg notPart]
    · rw [opening.merged.owners, if_neg ?_, unclaimed]
      intro isClaim
      obtain ⟨low', high', _⟩ := opening.claimed i isClaim
      omega
  refine (apart opening.before (Or.inl (Nat.le_refl s))).append ?_
  exact .part opening.new_node rfl rfl opening.proper (apart opening.after (Or.inr (Nat.le_refl e)))

theorem complete {node' : Node} (found' : w'.nodes[n]? = some node')
    (isParent : node'.parent = some target) : .part n ∈ left ++ .part w.nodes.size :: right := by
  rcases opening.node_cases found' with ⟨isNew, _⟩ | ⟨node, found, rfl⟩
  · simp [isNew]
  · split at isParent
    · cases isParent
      exact absurd rfl opening.target_ne
    · next notPart =>
      have member := opening.ready.complete n node found isParent
      simp only [List.mem_append, List.mem_cons] at member ⊢
      rcases member with (inLeft | inMiddle) | inRight
      · exact Or.inl inLeft
      · exact absurd inMiddle notPart
      · exact Or.inr (Or.inr inRight)

theorem closed (member : .part n ∈ left ++ .part w.nodes.size :: right) : n ∉ opens := by
  simp only [List.mem_append, List.mem_cons] at member
  rcases member with inLeft | isNew | inRight
  · exact opening.ready.closed n (by simp [inLeft])
  · cases isNew
    exact opening.new_notOpen
  · exact opening.ready.closed n (by simp [inRight])

/-- The nodes under the new one are the parts it was made over. -/
theorem complete_new {node' : Node} (found' : w'.nodes[n]? = some node')
    (isParent : node'.parent = some w.nodes.size) : .part n ∈ middle := by
  rcases opening.node_cases found' with ⟨_, rfl⟩ | ⟨node, found, rfl⟩
  · exact absurd (Option.some.inj isParent) opening.target_ne
  · split at isParent
    · assumption
    · exact absurd (opening.ready.valid.parent_lt found isParent) (Nat.lt_irrefl _)

/-- A tiling inside the new node is one under it, with the claimed tokens as its own. -/
theorem tiles_new {owner : Option NodeId} {pieces : List (Piece NodeId)} {p q : Nat}
    (tiles : w.Tiles target none p pieces q) (inside : ∀ n, .part n ∈ pieces → .part n ∈ middle)
    (owned : ∀ i, p ≤ i → i < q → w.owner? i = none → w'.owner? i = owner) :
    w'.Tiles w.nodes.size owner p pieces q := by
  refine tiles.transfer opening.merged.lexemes (fun n node member found _ => ?_) owned
  refine ⟨_, opening.old_node found, ?_, ?_⟩ <;> rw [if_pos (inside n member)]

end Opening

/-- Finishing an open node: its layout tiles it, and it lists all that stands under it. -/
theorem Valid.close {node : Node} (valid : w.Valid forms (id :: opens)) (notOpen : id ∉ opens)
    (found : w.nodes[id]? = some node)
    (tiles : w.Tiles id (some id) node.tokens.start node.construct.layout node.tokens.stop)
    (complete : ∀ (n : NodeId) (other : Node), w.nodes[n]? = some other → other.parent = some id →
      n ∈ node.construct.parts)
    (partsClosed : ∀ n ∈ node.construct.parts, n ∉ id :: opens)
    (proper : node.parent ≠ none → ∀ n, node.construct.layout ≠ [.part n]) :
    w.Valid (Function.update forms id ⟨node.construct.map forms⟩) opens := by
  have elsewhere : ∀ {other : NodeId}, other ∉ opens → other ≠ id → other ∉ id :: opens := by
    intro other closed different
    simp [different, closed]
  have notPart : ∀ (other : NodeId) (otherNode : Node), w.nodes[other]? = some otherNode →
      other ∉ opens → id ∉ otherNode.construct.parts := by
    intro other otherNode foundOther closed member
    by_cases same : other = id
    · subst same
      cases found.symm.trans foundOther
      exact partsClosed other member List.mem_cons_self
    · exact valid.part_closed foundOther (elsewhere closed same) member List.mem_cons_self
  have sameForms : ∀ (other : NodeId) (otherNode : Node), w.nodes[other]? = some otherNode →
      other ∉ opens → otherNode.construct.map (Function.update forms id ⟨node.construct.map forms⟩) =
        otherNode.construct.map forms := by
    intro other otherNode foundOther closed
    refine Construct.map_congr fun n member => Function.update_of_ne ?_ _ _
    rintro rfl
    exact notPart other otherNode foundOther closed member
  refine ⟨valid.sizes, fun other isOpen => valid.openIn other (List.mem_cons_of_mem _ isOpen),
    fun other isOpen otherNode foundOther p isParent => ?_, valid.root,
    fun other otherNode p foundOther isParent => ?_, valid.span,
    fun other otherNode foundOther closed => ?_, fun other otherNode n foundOther closed hasParent => ?_,
    fun other otherNode foundOther closed => ?_⟩
  · have isOpen' : other ∈ id :: opens := List.mem_cons_of_mem _ isOpen
    rcases List.mem_cons.mp (valid.openParent other isOpen' otherNode foundOther p isParent) with
      rfl | stillOpen
    · exact absurd isOpen' (partsClosed other (complete other otherNode foundOther isParent))
    · exact stillOpen
  · rcases valid.listed other otherNode p foundOther isParent with isOpen | listed
    · rcases List.mem_cons.mp isOpen with rfl | stillOpen
      · exact Or.inr ⟨node, found, complete other otherNode foundOther isParent⟩
      · exact Or.inl stillOpen
    · exact Or.inr listed
  · by_cases same : other = id
    · subst same
      cases found.symm.trans foundOther
      exact tiles
    · exact valid.tiles other otherNode foundOther (elsewhere closed same)
  · by_cases same : other = id
    · subst same
      cases found.symm.trans foundOther
      exact proper hasParent n
    · exact valid.proper other otherNode n foundOther (elsewhere closed same) hasParent
  · rw [sameForms other otherNode foundOther closed]
    by_cases same : other = id
    · subst same
      cases found.symm.trans foundOther
      exact Function.update_self ..
    · rw [Function.update_of_ne same]
      exact valid.form other otherNode foundOther (elsewhere closed same)

/-- What a range is after some of its pieces were folded into one node. -/
structure Folded (w w' : Workspace) (forms forms' : NodeId → Form) (opens : List NodeId)
    (target : NodeId) (lo hi s e : Nat) (left right : List (Piece NodeId)) (form : Form) : Prop where
  ready : w'.Ready forms' opens target lo (left ++ .part w.nodes.size :: right) hi
  advances : w.Advances forms w' forms' target lo hi
  form_eq : forms' w.nodes.size = form
  tokens_eq : w'.tokensOf w.nodes.size = ⟨s, e⟩

/-- Folding pieces into a node that is written with exactly these pieces. -/
theorem Opening.fold
    (opening : w.Opening w' forms opens target lo hi s e left construct.layout right construct claims)
    (owned : ∀ i, s ≤ i → i < e → w.owner? i = none → i ∈ claims)
    (proper : ∀ n, construct.layout ≠ [.part n]) :
    w.Folded w' forms (Function.update forms w.nodes.size ⟨construct.map forms⟩) opens target lo hi s e
      left right ⟨construct.map forms⟩ := by
  have tiles : w'.Tiles w.nodes.size (some w.nodes.size) s construct.layout e := by
    refine opening.tiles_new opening.covered (fun _ member => member) fun i low high unclaimed => ?_
    rw [opening.merged.owners, if_pos (owned i low high unclaimed)]
  have partsClosed : ∀ n ∈ construct.parts, n ∉ w.nodes.size :: opens := by
    intro n member
    have member' : .part n ∈ left ++ construct.layout ++ right := by
      simp [Construct.part_mem_layout.mpr member]
    obtain ⟨node, found, _⟩ := opening.ready.tiles.part_bounds member'
    rw [List.mem_cons, not_or]
    exact ⟨Nat.ne_of_lt (lt_size found), opening.ready.closed n member'⟩
  have valid := opening.valid.close opening.new_notOpen opening.new_node tiles
    (fun n other found isParent => Construct.part_mem_layout.mp (opening.complete_new found isParent))
    partsClosed fun _ => proper
  refine ⟨⟨valid, opening.ready.isOpen, opening.tiles, fun _ _ => opening.complete,
    fun _ => opening.closed⟩, ⟨opening.step, fun n old => ?_⟩, Function.update_self .., ?_⟩
  · exact Function.update_of_ne (Nat.ne_of_lt old) _ _
  · rw [tokensOf, opening.new_node]
    rfl

end Merge

end Workspace

end Rill

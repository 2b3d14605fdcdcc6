import Mathlib
import Rill.Proofs.Reduction.Layout
import Rill.Reduction.Workspace

/-!
# Ranges as lists of pieces

A range that is being reduced is tiled by pieces: tokens that no node has claimed, and nodes. The same
holds of a finished node, whose pieces are its layout: its own tokens and its parts. `Tiles` says both.

`Valid` is what holds of a workspace at any time. Some nodes are open: the targets of the reductions
under way. Every other node is tiled by its layout, and every node is listed by the node it names as
its parent, unless that one is still open.

In a valid workspace the hoisted node at a claimed position is the node whose range it lies in
(`Valid.hoisted`), so `tops` gives the nodes of a tiling (`tops_eq`).
-/

namespace Rill

namespace Workspace

variable {w w' : Workspace} {parent id n : NodeId} {owner : Option NodeId} {p q : Nat}
  {pieces : List (Piece NodeId)}

/-! ## Tilings -/

/-- The pieces stand side by side from `p` up to `q`. Tokens have the given owner, parts the given
parent. -/
inductive Tiles (w : Workspace) (parent : NodeId) (owner : Option NodeId) :
    Nat → List (Piece NodeId) → Nat → Prop
  | nil {p : Nat} : Tiles w parent owner p [] p
  | token {p q : Nat} {t : Token} {rest : List (Piece NodeId)} :
      w.token? p = some t → w.owner? p = owner → Tiles w parent owner (p + 1) rest q →
      Tiles w parent owner p (.token t :: rest) q
  | part {p m q : Nat} {n : NodeId} {node : Node} {rest : List (Piece NodeId)} :
      w.nodes[n]? = some node → node.parent = some parent → node.tokens = ⟨p, m⟩ → p < m →
      Tiles w parent owner m rest q → Tiles w parent owner p (.part n :: rest) q

namespace Tiles

theorem le (tiles : w.Tiles parent owner p pieces q) : p ≤ q := by
  induction tiles with
  | nil => exact Nat.le_refl _
  | token _ _ _ ih => exact Nat.le_of_succ_le ih
  | part _ _ _ shorter _ ih => exact Nat.le_trans (Nat.le_of_lt shorter) ih

theorem lt (tiles : w.Tiles parent owner p pieces q) (nonempty : pieces ≠ []) : p < q := by
  cases tiles with
  | nil => exact absurd rfl nonempty
  | token _ _ rest => exact rest.le
  | part _ _ _ shorter rest => exact Nat.lt_of_lt_of_le shorter rest.le

theorem append_iff {more : List (Piece NodeId)} :
    w.Tiles parent owner p (pieces ++ more) q ↔
      ∃ m, w.Tiles parent owner p pieces m ∧ w.Tiles parent owner m more q := by
  constructor
  · intro tiles
    induction pieces generalizing p with
    | nil => exact ⟨p, .nil, tiles⟩
    | cons piece pieces ih =>
        cases tiles with
        | token isToken owned rest =>
            obtain ⟨m, first, second⟩ := ih rest
            exact ⟨m, .token isToken owned first, second⟩
        | part found isParent range shorter rest =>
            obtain ⟨m, first, second⟩ := ih rest
            exact ⟨m, .part found isParent range shorter first, second⟩
  · rintro ⟨m, first, second⟩
    induction first with
    | nil => exact second
    | token isToken owned _ ih => exact .token isToken owned (ih second)
    | part found isParent range shorter _ ih => exact .part found isParent range shorter (ih second)

theorem append {m : Nat} {more : List (Piece NodeId)} (first : w.Tiles parent owner p pieces m)
    (second : w.Tiles parent owner m more q) : w.Tiles parent owner p (pieces ++ more) q :=
  append_iff.mpr ⟨m, first, second⟩

/-- Where a part of a tiling stands. -/
theorem part_bounds (tiles : w.Tiles parent owner p pieces q) (member : .part n ∈ pieces) :
    ∃ node, w.nodes[n]? = some node ∧ node.parent = some parent ∧ p ≤ node.tokens.start ∧
      node.tokens.start < node.tokens.stop ∧ node.tokens.stop ≤ q := by
  induction tiles with
  | nil => cases member
  | token _ _ _ ih =>
      obtain ⟨node, found, isParent, low, proper, high⟩ := ih (by simpa using member)
      exact ⟨node, found, isParent, Nat.le_of_succ_le low, proper, high⟩
  | @part p m q n' node rest found isParent range shorter rest_ ih =>
      rcases List.mem_cons.mp member with isFirst | later
      · cases isFirst
        refine ⟨node, found, isParent, ?_, ?_, ?_⟩
        · rw [range]
        · rw [range]
          exact shorter
        · rw [range]
          exact rest_.le
      · obtain ⟨node', found', isParent', low, proper, high⟩ := ih later
        exact ⟨node', found', isParent', by omega, proper, high⟩

/-- A position of a tiled range holds a token of the tiling or lies in one of its parts. -/
theorem cover (tiles : w.Tiles parent owner p pieces q) {i : Nat} (low : p ≤ i) (high : i < q) :
    (∃ t, .token t ∈ pieces ∧ w.token? i = some t ∧ w.owner? i = owner) ∨
    (∃ n node, .part n ∈ pieces ∧ w.nodes[n]? = some node ∧ node.parent = some parent ∧
      node.tokens.start ≤ i ∧ i < node.tokens.stop) := by
  induction tiles with
  | nil => omega
  | @token p q t rest isToken owned _ ih =>
      by_cases here : i = p
      · subst here
        exact Or.inl ⟨t, by simp, isToken, owned⟩
      · rcases ih (by omega) high with ⟨t', member, found⟩ | ⟨n, node, member, found⟩
        · exact Or.inl ⟨t', List.mem_cons_of_mem _ member, found⟩
        · exact Or.inr ⟨n, node, List.mem_cons_of_mem _ member, found⟩
  | @part p m q n node rest found isParent range _ _ ih =>
      by_cases inside : i < m
      · refine Or.inr ⟨n, node, by simp, found, isParent, ?_, ?_⟩ <;> rw [range]
        · exact low
        · exact inside
      · rcases ih (by omega) high with ⟨t', member, found⟩ | ⟨n, node, member, found⟩
        · exact Or.inl ⟨t', List.mem_cons_of_mem _ member, found⟩
        · exact Or.inr ⟨n, node, List.mem_cons_of_mem _ member, found⟩

/-- A tiling is a tiling of another workspace with other parents and owners if its parts and its
tokens say so there. -/
theorem transfer {parent' : NodeId} {owner' : Option NodeId} (tiles : w.Tiles parent owner p pieces q)
    (lexemes : w'.lexemes = w.lexemes)
    (parts : ∀ (n : NodeId) (node : Node), .part n ∈ pieces → w.nodes[n]? = some node →
      node.parent = some parent →
      ∃ node', w'.nodes[n]? = some node' ∧ node'.parent = some parent' ∧ node'.tokens = node.tokens)
    (tokens : ∀ i, p ≤ i → i < q → w.owner? i = owner → w'.owner? i = owner') :
    w'.Tiles parent' owner' p pieces q := by
  induction tiles with
  | nil => exact .nil
  | @token p q t rest isToken owned rest_ ih =>
      refine .token ?_ (tokens p (Nat.le_refl p) rest_.le owned) (ih ?_ ?_)
      · unfold token? at isToken ⊢
        rw [lexemes]
        exact isToken
      · exact fun n node member => parts n node (List.mem_cons_of_mem _ member)
      · exact fun i low high => tokens i (by omega) high
  | @part p m q n node rest found isParent range shorter rest_ ih =>
      obtain ⟨node', found', isParent', range'⟩ := parts n node (by simp) found isParent
      refine .part found' isParent' (range'.trans range) shorter (ih ?_ ?_)
      · exact fun n node member => parts n node (List.mem_cons_of_mem _ member)
      · exact fun i low high => tokens i (by omega) high

/-- The parts of a tiling are distinct nodes. -/
theorem parts_nodup (tiles : w.Tiles parent owner p pieces q) :
    (pieces.filterMap Piece.part?).Nodup := by
  induction tiles with
  | nil => simp
  | token _ _ _ ih => rwa [List.filterMap_cons_none (Piece.part?_token _)]
  | @part p m q n node rest found _ range shorter rest_ ih =>
      rw [List.filterMap_cons_some (Piece.part?_part n), List.nodup_cons]
      refine ⟨fun again => ?_, ih⟩
      obtain ⟨node', found', _, low, _⟩ := rest_.part_bounds (Piece.mem_parts.mp again)
      cases found.symm.trans found'
      rw [range] at low
      exact absurd shorter (Nat.not_lt.mpr low)

/-- A part that is not all of a tiling is shorter than it. -/
theorem part_shorter (tiles : w.Tiles parent owner p pieces q) (member : .part n ∈ pieces)
    (proper : pieces ≠ [.part n]) {node : Node} (found : w.nodes[n]? = some node) :
    node.tokens.stop - node.tokens.start < q - p := by
  obtain ⟨left, right, rfl⟩ := List.append_of_mem member
  obtain ⟨m, first, second⟩ := append_iff.mp tiles
  cases second with
  | @part _ m' _ _ node' _ found' _ range shorter rest =>
      cases found.symm.trans found'
      rw [range]
      have low := first.le
      have high := rest.le
      by_cases noLeft : left = []
      · have right' : right ≠ [] := by
          intro noRight
          exact proper (by rw [noLeft, noRight, List.nil_append])
        have strictly := rest.lt right'
        simp only
        omega
      · have strictly := first.lt noLeft
        simp only
        omega

end Tiles

/-! ## Valid workspaces -/

/-- What holds of a workspace in which the nodes `opens` are still open. The form of every other node
is given by `forms`. -/
structure Valid (w : Workspace) (forms : NodeId → Form) (opens : List NodeId) : Prop where
  sizes : w.owners.size = w.lexemes.size
  openIn : ∀ id ∈ opens, id < w.nodes.size
  openParent : ∀ id ∈ opens, ∀ node : Node, w.nodes[id]? = some node →
    ∀ p, node.parent = some p → p ∈ opens
  root : ∀ (id : NodeId) (node : Node), w.nodes[id]? = some node → node.parent = none → id = 0
  listed : ∀ (id : NodeId) (node : Node) (p : NodeId), w.nodes[id]? = some node →
    node.parent = some p → p ∈ opens ∨
    ∃ parentNode : Node, w.nodes[p]? = some parentNode ∧ id ∈ parentNode.construct.parts
  span : ∀ (id : NodeId) (node : Node), w.nodes[id]? = some node → node.span = w.spanOf node.tokens
  tiles : ∀ (id : NodeId) (node : Node), w.nodes[id]? = some node → id ∉ opens →
    w.Tiles id (some id) node.tokens.start node.construct.layout node.tokens.stop
  proper : ∀ (id : NodeId) (node : Node) (n : NodeId), w.nodes[id]? = some node → id ∉ opens →
    node.parent ≠ none → node.construct.layout ≠ [.part n]
  form : ∀ (id : NodeId) (node : Node), w.nodes[id]? = some node → id ∉ opens →
    forms id = ⟨node.construct.map forms⟩

/-! ## Ranks -/

/-- The width of a node; the root counts as wider than what it covers. -/
def weight (w : Workspace) (id : NodeId) : Nat :=
  (w.nodes[id]?).elim 0 fun node =>
    node.tokens.stop - node.tokens.start + if node.parent.isNone then 1 else 0

/-- The number of nodes that are less wide. -/
def rank (w : Workspace) (id : NodeId) : Nat :=
  ((Finset.range w.nodes.size).filter fun n => w.weight n < w.weight id).card

theorem rank_lt (isNode : n < w.nodes.size) (lighter : w.weight n < w.weight id) :
    w.rank n < w.rank id := by
  refine Finset.card_lt_card (Finset.ssubset_iff_of_subset ?_ |>.mpr ⟨n, ?_, ?_⟩)
  · intro m member
    rw [Finset.mem_filter] at member ⊢
    exact ⟨member.1, member.2.trans lighter⟩
  · exact Finset.mem_filter.mpr ⟨Finset.mem_range.mpr isNode, lighter⟩
  · simp

theorem rank_lt_size (isNode : id < w.nodes.size) : w.rank id < w.nodes.size := by
  have proper : (Finset.range w.nodes.size).filter (fun n => w.weight n < w.weight id) ⊂
      Finset.range w.nodes.size := by
    refine Finset.ssubset_iff_of_subset (Finset.filter_subset _ _) |>.mpr ⟨id, ?_, by simp⟩
    exact Finset.mem_range.mpr isNode
  exact (Finset.card_lt_card proper).trans_eq (Finset.card_range _)

section Valid

variable {forms : NodeId → Form} {opens : List NodeId} {node : Node}

theorem lt_size (found : w.nodes[id]? = some node) : id < w.nodes.size :=
  (Array.getElem?_eq_some_iff.mp found).1

/-- A part of a finished node is finished too. -/
theorem Valid.part_closed (valid : w.Valid forms opens) (found : w.nodes[id]? = some node)
    (closed : id ∉ opens) (member : n ∈ node.construct.parts) : n ∉ opens := by
  intro isOpen
  obtain ⟨partNode, foundPart, isParent, _⟩ :=
    (valid.tiles id node found closed).part_bounds (Construct.part_mem_layout.mpr member)
  exact closed (valid.openParent n isOpen partNode foundPart id isParent)

theorem Valid.rank_part_lt (valid : w.Valid forms opens) (found : w.nodes[id]? = some node)
    (closed : id ∉ opens) (member : n ∈ node.construct.parts) : w.rank n < w.rank id := by
  have inLayout := Construct.part_mem_layout.mpr member
  have tiles := valid.tiles id node found closed
  obtain ⟨partNode, foundPart, isParent, low, _, high⟩ := tiles.part_bounds inLayout
  refine rank_lt (lt_size foundPart) ?_
  simp only [weight, found, foundPart, isParent, Option.elim, Option.isNone_some, Bool.false_eq_true,
    if_false, Nat.add_zero]
  by_cases isRoot : node.parent = none
  · simp only [isRoot, Option.isNone_none, if_true]
    omega
  · have shorter := tiles.part_shorter inLayout (valid.proper id node n found closed isRoot) foundPart
    omega

/-! ## Hoisting -/

/-- From `id` to `top` in `k` steps, over finished nodes that are wider and wider. -/
inductive Climbs (w : Workspace) (opens : List NodeId) (top : NodeId) : NodeId → Nat → Prop
  | here : Climbs w opens top top 0
  | up {id q : NodeId} {k : Nat} : w.parent? id = some q → q ∉ opens → w.rank id < w.rank q →
      Climbs w opens top q k → Climbs w opens top id (k + 1)

theorem Climbs.extend {top next k} (climbs : w.Climbs opens top id k)
    (isParent : w.parent? top = some next) (closed : next ∉ opens) (wider : w.rank top < w.rank next) :
    w.Climbs opens next id (k + 1) := by
  induction climbs with
  | here => exact .up isParent closed wider .here
  | up isParent' closed' wider' _ ih => exact .up isParent' closed' wider' ih

theorem Climbs.le_rank {top k} (climbs : w.Climbs opens top id k) : k + w.rank id ≤ w.rank top := by
  induction climbs with
  | here => exact Nat.le_of_eq (Nat.zero_add _)
  | up _ _ _ _ ih => omega

theorem parent?_eq (found : w.nodes[id]? = some node) : w.parent? id = node.parent := by
  obtain ⟨inBounds, equal⟩ := Array.getElem?_eq_some_iff.mp found
  simp [parent?, inBounds, equal]

theorem Climbs.hoistWithin {top target k} (climbs : w.Climbs opens top id k)
    (isParent : w.parent? top = some target) (isOpen : target ∈ opens) :
    ∀ steps, k ≤ steps → w.hoistWithin target steps id = top := by
  induction climbs with
  | here =>
      intro steps _
      cases steps with
      | zero => rfl
      | succ steps => simp [Workspace.hoistWithin, isParent]
  | @up id q k isParent' closed _ _ ih =>
      intro steps enough
      obtain ⟨less, rfl⟩ : ∃ less, steps = less + 1 := ⟨steps - 1, by omega⟩
      have different : q ≠ target := fun same => closed (same ▸ isOpen)
      simp only [Workspace.hoistWithin, isParent', if_neg different]
      exact ih less (by omega)

/-- Every position of a finished node is claimed, by a node inside it. -/
theorem Valid.climbs (valid : w.Valid forms opens) :
    ∀ (rank : Nat) (id : NodeId) (node : Node) (i : Nat), w.rank id = rank →
      w.nodes[id]? = some node → id ∉ opens → node.tokens.start ≤ i → i < node.tokens.stop →
      ∃ o k, w.owner? i = some o ∧ w.Climbs opens id o k := by
  -- The part that a position lies in has a lower rank than the node.
  intro rank
  induction rank using Nat.strong_induction_on with
  | _ rank ih =>
    intro id node i sameRank found closed low high
    rcases (valid.tiles id node found closed).cover low high with
      ⟨_, _, _, owned⟩ | ⟨n, partNode, inLayout, foundPart, isParent, low', high'⟩
    · exact ⟨id, 0, owned, .here⟩
    · have member := Construct.part_mem_layout.mp inLayout
      have lower := valid.rank_part_lt found closed member
      obtain ⟨o, k, owned, climbs⟩ := ih (w.rank n) (sameRank ▸ lower) n partNode i rfl foundPart
        (valid.part_closed found closed member) low' high'
      exact ⟨o, k + 1, owned, climbs.extend ((parent?_eq foundPart).trans isParent) closed lower⟩

/-- The hoisted node at a position in a finished node directly under the target is that node. -/
theorem Valid.hoisted (valid : w.Valid forms opens) {target : NodeId} (isOpen : target ∈ opens)
    (found : w.nodes[id]? = some node) (closed : id ∉ opens) (isParent : node.parent = some target)
    {i : Nat} (low : node.tokens.start ≤ i) (high : i < node.tokens.stop) :
    (w.owner? i).map (w.hoist target) = some id := by
  obtain ⟨o, k, owned, climbs⟩ := valid.climbs _ id node i rfl found closed low high
  have short : k ≤ w.nodes.size := by
    have bounded := climbs.le_rank
    have small := rank_lt_size (lt_size found)
    omega
  rw [owned, Option.map_some, Workspace.hoist,
    climbs.hoistWithin ((parent?_eq found).trans isParent) isOpen _ short]

end Valid

/-! ## The nodes of a range -/

theorem dropRepeats_replicate {a : NodeId} {xs ids : List NodeId} (k : Nat)
    (dropped : dropRepeats xs = ids) (fresh : a ∉ ids) :
    dropRepeats (List.replicate (k + 1) a ++ xs) = a :: ids := by
  induction k with
  | zero =>
      rw [List.replicate_one, List.singleton_append, dropRepeats, dropped]
      cases ids with
      | nil => rfl
      | cons next more =>
          have different : a ≠ next := fun same => fresh (by simp [same])
          simp [different]
  | succ k ih =>
      rw [List.replicate_succ, List.cons_append, dropRepeats, ih]
      simp

/-- The nodes found in a tiled range are its parts, if each is found at its positions. -/
theorem tops_eq {target : NodeId} (tiles : w.Tiles target none p pieces q)
    (hoisted : ∀ (n : NodeId) (node : Node) (i : Nat), .part n ∈ pieces → w.nodes[n]? = some node →
      node.tokens.start ≤ i → i < node.tokens.stop → (w.owner? i).map (w.hoist target) = some n) :
    w.tops ⟨p, q⟩ target = pieces.filterMap Piece.part? := by
  simp only [tops, TokenRange.indices]
  induction tiles with
  | nil => simp [dropRepeats]
  | @token p q t rest _ unclaimed rest_ ih =>
      rw [List.filterMap_cons_none (Piece.part?_token t)]
      have cut : List.range' p (q - p) = p :: List.range' (p + 1) (q - (p + 1)) := by
        rw [range'_cut (Nat.le_succ p) rest_.le]
        simp
      rw [cut, List.filterMap_cons_none (by simp [unclaimed])]
      exact ih fun n node i member => hoisted n node i (List.mem_cons_of_mem _ member)
  | @part p m q n node rest found isParent range shorter rest_ ih =>
      have later := ih fun n node i member => hoisted n node i (List.mem_cons_of_mem _ member)
      have distinct := (Tiles.part found isParent range shorter rest_).parts_nodup
      rw [List.filterMap_cons_some (Piece.part?_part n), List.nodup_cons] at distinct
      rw [List.filterMap_cons_some (Piece.part?_part n),
        range'_cut (Nat.le_of_lt shorter) rest_.le, List.filterMap_append]
      have here : (List.range' p (m - p)).filterMap (fun i => (w.owner? i).map (w.hoist target)) =
          List.replicate (m - p - 1 + 1) n := by
        rw [filterMap_constant (b := n)]
        · rw [List.length_range', Nat.sub_add_cancel (by omega)]
        · intro i member
          have bounds := List.mem_range'_1.mp member
          refine hoisted n node i (by simp) found ?_ ?_ <;> rw [range] <;> simp only <;> omega
      rw [here]
      exact dropRepeats_replicate _ later distinct.1

end Workspace

end Rill

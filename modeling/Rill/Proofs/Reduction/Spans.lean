import Mathlib
import Rill.Proofs.Basic
import Rill.Proofs.Reduction.Simulation
import Rill.Proofs.Token.Excerpts

/-!
# What a node covers in the source

The span of a node reaches from the first of its tokens to the last one (`spanOf_reaches`). So it can be
read on its own: the text there has the tokens of the node and no others (`reduce_locates`). Lexemes stand
one behind the other, and so do the parts of a node.
-/

namespace Rill

/-- The lexemes in a range. -/
def TokenRange.lexemesOf (range : TokenRange) (lexemes : List Lexeme) : List Lexeme :=
  (lexemes.drop range.start).take (range.stop - range.start)

/-- The span of a node is the source of the node, and of its parts in their order. -/
structure ParseTree.Locates (tree : ParseTree) (source : String) (node : Node) : Prop where
  range : node.tokens.start ≤ node.tokens.stop ∧ node.tokens.stop ≤ (tokenize source).lexemes.length
  excerpt : ∃ text, node.span.text? source = some text ∧ (tokenize text).errors = [] ∧
    (tokenize text).lexemes.map (Lexeme.shift node.span.start) =
      node.tokens.lexemesOf (tokenize source).lexemes
  inside : ∀ part ∈ node.construct.parts, ∃ partNode : Node, tree.nodes[part]? = some partNode ∧
    node.span.start ≤ partNode.span.start ∧ partNode.span.start < partNode.span.stop ∧
    partNode.span.stop ≤ node.span.stop
  apart : node.construct.parts.Pairwise fun a b => ∀ first second : Node,
    tree.nodes[a]? = some first → tree.nodes[b]? = some second → first.span.stop ≤ second.span.start

/-! ## From the first token to the last -/

/-- The span reaches from the first lexeme of the range to the last one. -/
def Span.Reaches (span : Span) (lexemes : List Lexeme) (range : TokenRange) : Prop :=
  range.start < range.stop ∧ ∃ first last : Lexeme, lexemes[range.start]? = some first ∧
    lexemes[range.stop - 1]? = some last ∧ span = ⟨first.span.start, last.span.stop⟩

namespace Span.Reaches

variable {lexemes : List Lexeme} {range range' : TokenRange} {span span' : Span}

theorem proper (reaches : span.Reaches lexemes range) (inOrder : Lexeme.InOrder lexemes) :
    span.start < span.stop := by
  obtain ⟨nonempty, first, last, isFirst, isLast, rfl⟩ := reaches
  have notBehind := inOrder.stop_le_stop isFirst isLast (by omega)
  exact Nat.lt_of_lt_of_le (inOrder.nonempty first (List.mem_of_getElem? isFirst)) notBehind

theorem inside (outer : span.Reaches lexemes range) (inner : span'.Reaches lexemes range')
    (inOrder : Lexeme.InOrder lexemes) (low : range.start ≤ range'.start)
    (high : range'.stop ≤ range.stop) : span.start ≤ span'.start ∧ span'.stop ≤ span.stop := by
  obtain ⟨_, first, last, isFirst, isLast, rfl⟩ := outer
  obtain ⟨_, first', last', isFirst', isLast', rfl⟩ := inner
  exact ⟨inOrder.start_le_start isFirst isFirst' low,
    inOrder.stop_le_stop isLast' isLast (Nat.sub_le_sub_right high 1)⟩

theorem apart (left : span.Reaches lexemes range) (right : span'.Reaches lexemes range')
    (inOrder : Lexeme.InOrder lexemes) (before : range.stop ≤ range'.start) : span.stop ≤ span'.start := by
  obtain ⟨nonempty, first, last, isFirst, isLast, rfl⟩ := left
  obtain ⟨_, first', last', isFirst', isLast', rfl⟩ := right
  exact inOrder.stop_le_start isLast isFirst' (by omega)

/-- What a span reaches over can be read on its own. -/
theorem excerpt {source : String} (noErrors : (tokenize source).errors = [])
    (reaches : span.Reaches (tokenize source).lexemes range) :
    ∃ text, span.text? source = some text ∧ (tokenize text).errors = [] ∧
      (tokenize text).lexemes.map (Lexeme.shift span.start) =
        range.lexemesOf (tokenize source).lexemes := by
  obtain ⟨nonempty, first, last, isFirst, isLast, rfl⟩ := reaches
  have isLast : (tokenize source).lexemes[range.start + (range.stop - 1 - range.start)]? = some last := by
    rwa [Nat.add_sub_cancel' (by omega)]
  have excerpt := Lexer.exists_excerpt noErrors isFirst isLast
  rwa [show range.stop - 1 - range.start + 1 = range.stop - range.start by omega] at excerpt

end Span.Reaches

namespace Workspace

variable {w : Workspace} {forms : NodeId → Form} {opens : List NodeId} {id parent : NodeId} {node : Node}
  {owner : Option NodeId} {p q : Nat} {pieces : List (Piece NodeId)} {lexemes : List Lexeme}

theorem spanOf_reaches (inOrder : Lexeme.InOrder w.lexemes.toList) {range : TokenRange}
    (nonempty : range.start < range.stop) (inBounds : range.stop ≤ w.lexemes.size) :
    (w.spanOf range).Reaches w.lexemes.toList range := by
  have isFirst := Array.getElem?_eq_getElem (Nat.lt_of_lt_of_le nonempty inBounds)
  have isLast := Array.getElem?_eq_getElem (show range.stop - 1 < w.lexemes.size by omega)
  refine ⟨nonempty, _, _, Array.getElem?_toList.trans isFirst, Array.getElem?_toList.trans isLast, ?_⟩
  have before : range.start ≤ range.stop - 1 := by omega
  rw [spanOf, isFirst, isLast]
  rw [← Array.getElem?_toList] at isFirst isLast
  simp only [Span.join, Nat.min_eq_left (inOrder.start_le_start isFirst isLast before),
    Nat.max_eq_right (inOrder.stop_le_stop isFirst isLast before)]

/-- The parts of a tiling stand one behind the other. -/
theorem Tiles.parts_apart (tiles : w.Tiles parent owner p pieces q) :
    (pieces.filterMap Piece.part?).Pairwise fun a b => ∀ first second : Node,
      w.nodes[a]? = some first → w.nodes[b]? = some second →
      first.tokens.stop ≤ second.tokens.start := by
  induction tiles with
  | nil => exact .nil
  | token _ _ _ ih => rwa [List.filterMap_cons_none (Piece.part?_token _)]
  | @part p m q n node rest found _ range _ rest_ ih =>
      rw [List.filterMap_cons_some (Piece.part?_part n), List.pairwise_cons]
      refine ⟨fun other isOther first second isFirst isSecond => ?_, ih⟩
      obtain ⟨second', found', _, low, _⟩ := rest_.part_bounds (Piece.mem_parts.mp isOther)
      cases found.symm.trans isFirst
      cases found'.symm.trans isSecond
      rwa [range]

/-- The tokens of a finished node are tokens of the source. -/
theorem Valid.stop_le (valid : w.Valid forms opens) (found : w.nodes[id]? = some node)
    (closed : id ∉ opens) (nonempty : node.tokens.start < node.tokens.stop) :
    node.tokens.stop ≤ w.lexemes.size := by
  -- Its last position is claimed, so it is one of those that can be.
  obtain ⟨owner, _, owned, _⟩ := valid.climbs _ id node (node.tokens.stop - 1) rfl found closed
    (by omega) (by omega)
  have inBounds : node.tokens.stop - 1 < w.owners.size := by
    by_contra outside
    simp [owner?, Array.getElem?_eq_none (Nat.not_lt.mp outside)] at owned
  rw [valid.sizes] at inBounds
  omega

/-- A part of a finished node reaches over its tokens. -/
theorem Valid.reaches (valid : w.Valid forms opens) (inOrder : Lexeme.InOrder w.lexemes.toList)
    (found : w.nodes[id]? = some node) (closed : id ∉ opens)
    (nonempty : node.tokens.start < node.tokens.stop) :
    node.span.Reaches w.lexemes.toList node.tokens := by
  rw [valid.span id node found]
  exact spanOf_reaches inOrder nonempty (valid.stop_le found closed nonempty)

/-- Only the root of an empty source covers nothing. -/
theorem Parsed.nonempty_or {children : List Form} {tree : ParseTree}
    (parsed : Parsed lexemes children tree w forms) (found : w.nodes[id]? = some node) :
    node.tokens.start < node.tokens.stop ∨ lexemes = [] ∧ node.tokens = ⟨0, 0⟩ := by
  have valid := parsed.valid
  cases isParent : node.parent with
  | some owner =>
      rcases valid.listed id node owner found isParent with isOpen | ⟨ownerNode, foundOwner, member⟩
      · cases isOpen
      · obtain ⟨node', found', _, _, nonempty, _⟩ :=
          (valid.tiles owner ownerNode foundOwner List.not_mem_nil).part_bounds
            (Construct.part_mem_layout.mpr member)
        cases found.symm.trans found'
        exact Or.inl nonempty
  | none =>
      obtain rfl := valid.root id node found isParent
      obtain ⟨root, foundRoot, _, tokens⟩ := parsed.root
      cases found.symm.trans foundRoot
      rw [tokens]
      cases lexemes with
      | nil => exact Or.inr ⟨rfl, rfl⟩
      | cons lexeme lexemes => exact Or.inl (Nat.succ_pos _)

end Workspace

/-- The tree of a source without lexical errors tells of each node what it covers. -/
theorem reduce_locates (source : String) (tree : ParseTree) (noErrors : (tokenize source).errors = [])
    (reduced : reduce (tokenize source).lexemes = .ok tree) (id : NodeId) (node : Node)
    (found : tree.nodes[id]? = some node) : tree.Locates source node := by
  have agrees := Workspace.reduce_agrees (tokenize source).lexemes
  rw [reduced] at agrees
  obtain ⟨children, _, w, forms, parsed⟩ := agrees.of_ok
  have valid := parsed.valid
  have lexemes : w.lexemes.toList = (tokenize source).lexemes := by rw [parsed.lexemes_eq]
  have inOrder := Lexer.inOrder_of_noErrors noErrors
  have reaches : ∀ {id : NodeId} {node : Node}, w.nodes[id]? = some node →
      node.tokens.start < node.tokens.stop → node.span.Reaches (tokenize source).lexemes node.tokens := by
    intro id node found nonempty
    rw [← lexemes] at inOrder ⊢
    exact valid.reaches inOrder found List.not_mem_nil nonempty
  rw [parsed.tree_eq] at found ⊢
  have tiles := valid.tiles id node found List.not_mem_nil
  have partBounds := fun part (member : part ∈ node.construct.parts) =>
    tiles.part_bounds (Construct.part_mem_layout.mpr member)
  rcases parsed.nonempty_or found with nonempty | ⟨noLexemes, noTokens⟩
  · have outer := reaches found nonempty
    refine ⟨⟨Nat.le_of_lt nonempty, ?_⟩, outer.excerpt noErrors, fun part member => ?_, ?_⟩
    · have inBounds := valid.stop_le found List.not_mem_nil nonempty
      rwa [← Array.length_toList, lexemes] at inBounds
    · obtain ⟨partNode, foundPart, _, low, proper, high⟩ := partBounds part member
      have inner := reaches foundPart proper
      obtain ⟨lower, upper⟩ := outer.inside inner inOrder low high
      exact ⟨partNode, foundPart, lower, inner.proper inOrder, upper⟩
    · have apart := tiles.parts_apart
      rw [Construct.layout_parts] at apart
      refine apart.imp_of_mem fun isFirst isSecond before first second foundFirst foundSecond => ?_
      obtain ⟨first', foundFirst', _, _, properFirst, _⟩ := partBounds _ isFirst
      obtain ⟨second', foundSecond', _, _, properSecond, _⟩ := partBounds _ isSecond
      cases foundFirst.symm.trans foundFirst'
      cases foundSecond.symm.trans foundSecond'
      exact (reaches foundFirst properFirst).apart (reaches foundSecond properSecond) inOrder
        (before first second foundFirst foundSecond)
  · -- Nothing was read, so there is one node, without parts.
    have noParts : node.construct.parts = [] := by
      refine List.eq_nil_iff_forall_not_mem.mpr fun part member => ?_
      obtain ⟨_, _, _, low, proper, high⟩ := partBounds part member
      rw [noTokens] at low high
      exact absurd (Nat.lt_of_lt_of_le proper high) (Nat.not_lt_zero _)
    have span : node.span = ⟨0, 0⟩ := by
      rw [valid.span id node found, noTokens, Workspace.spanOf, parsed.lexemes_eq, noLexemes]
      rfl
    refine ⟨?_, ⟨"", ?_, ?_⟩, ?_, ?_⟩
    · rw [noTokens]
      exact ⟨Nat.le_refl 0, Nat.zero_le _⟩
    · have holds : Span.Holds ⟨0, 0⟩ source.toList [] source.toList := ⟨[], rfl, rfl⟩
      rw [span, holds.text?, String.ofList_nil]
    · have noText : tokenize "" = ⟨[], []⟩ := by decide +kernel
      rw [noTokens, TokenRange.lexemesOf, Nat.sub_self, List.take_zero, noText]
      exact ⟨rfl, rfl⟩
    · rw [noParts]
      simp
    · rw [noParts]
      exact .nil

/-- A sum with a comment inside that could be taken for another sum. -/
def commentedSum : String :=
  "//é\nx :: 1_0 + // + 1\n 2; // 3"

theorem reduce_locates_commentedSum : ∃ tree, reduce (tokenize commentedSum).lexemes = .ok tree ∧
    ∃ node ∈ tree.nodes, node.span.text? commentedSum = some "1_0 + // + 1\n 2" ∧
      tree.Locates commentedSum node := by
  have noErrors : (tokenize commentedSum).errors = [] := by decide +kernel
  have accepted : (reduce (tokenize commentedSum).lexemes).toOption.any (fun tree =>
      tree.nodes.any fun node => node.span.text? commentedSum == some "1_0 + // + 1\n 2") = true := by
    decide +kernel
  simp only [any_toOption_iff, Array.any_eq_true', beq_iff_eq] at accepted
  obtain ⟨tree, reduced, node, member, text⟩ := accepted
  obtain ⟨id, found⟩ := Array.mem_iff_getElem?.mp member
  exact ⟨tree, reduced, node, member, text, reduce_locates _ tree noErrors reduced id node found⟩

end Rill

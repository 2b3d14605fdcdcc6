import Mathlib
import Rill.Proofs.Basic
import Rill.Proofs.Build.Logic
import Rill.Proofs.Reduction.Simulation

/-!
# A parse tree is its source

A tree that reduction returns loses, duplicates and reorders nothing.

* Every node but the root stands in exactly one list of parts, and that list is its parent's.
* Every node covers what it is written with, side by side: its own tokens and the ranges of its parts.
* Read from the root, the tree is written with exactly the tokens of the source.
-/

namespace Rill

namespace ParseTree

/-- The pieces stand side by side from `p` up to `q`: tokens of the source and ranges of nodes. -/
inductive Covers (tree : ParseTree) (tokens : List Token) : Nat → List (Piece NodeId) → Nat → Prop
  | nil {p : Nat} : Covers tree tokens p [] p
  | token {p q : Nat} {t : Token} {rest : List (Piece NodeId)} :
      tokens[p]? = some t → Covers tree tokens (p + 1) rest q → Covers tree tokens p (.token t :: rest) q
  | part {p m q : Nat} {n : NodeId} {node : Node} {rest : List (Piece NodeId)} :
      tree.nodes[n]? = some node → node.tokens = ⟨p, m⟩ → p < m → Covers tree tokens m rest q →
      Covers tree tokens p (.part n :: rest) q

/-- All parts of all nodes. -/
def listed (tree : ParseTree) : List NodeId :=
  tree.nodes.toList.flatMap fun node => node.construct.parts

/-- The tree with the given root holds the tokens, all of them, once and in order. -/
structure Faithful (tree : ParseTree) (tokens : List Token) (root : NodeId) : Prop where
  whole : ∃ node : Node, tree.nodes[root]? = some node ∧ node.tokens = ⟨0, tokens.length⟩
  orphan : ∀ (id : NodeId) (node : Node), tree.nodes[id]? = some node → (node.parent = none ↔ id = root)
  once : ∀ id < tree.nodes.size, id ≠ root → tree.listed.count id = 1
  lister : ∀ (id : NodeId) (node : Node), tree.nodes[id]? = some node →
    ∀ (owner : NodeId) (ownerNode : Node), tree.nodes[owner]? = some ownerNode →
      (id ∈ ownerNode.construct.parts ↔ node.parent = some owner)
  covers : ∀ (id : NodeId) (node : Node), tree.nodes[id]? = some node →
    tree.Covers tokens node.tokens.start node.construct.layout node.tokens.stop
  written : ∃ phrase : Phrase, tree.phrase? = .ok (some phrase) ∧ phrase.form.tokens = tokens

end ParseTree

namespace Workspace

variable {w : Workspace} {forms : NodeId → Form} {opens : List NodeId} {id n parent : NodeId}
  {owner : Option NodeId} {p q : Nat} {pieces : List (Piece NodeId)} {node : Node}

/-! ## Tokens of a range -/

/-- The tokens of the source. -/
def tokens (w : Workspace) : List Token :=
  w.lexemes.toList.map fun lexeme => lexeme.token

theorem tokens_getElem? (w : Workspace) (i : Nat) : w.tokens[i]? = w.token? i := by
  rw [tokens, List.getElem?_map, Array.getElem?_toList, token?]

/-- The elements from position `p` up to position `q`. -/
def between (xs : List Token) (p q : Nat) : List Token :=
  (xs.drop p).take (q - p)

theorem between_cons {xs : List Token} {t : Token} (found : xs[p]? = some t) (proper : p < q) :
    between xs p q = t :: between xs (p + 1) q := by
  obtain ⟨inBounds, rfl⟩ := List.getElem?_eq_some_iff.mp found
  rw [between, List.drop_eq_getElem_cons inBounds, between, show q - p = q - (p + 1) + 1 by omega,
    List.take_succ_cons]

theorem between_append {m : Nat} (xs : List Token) (low : p ≤ m) (high : m ≤ q) :
    between xs p q = between xs p m ++ between xs m q := by
  rw [between, show q - p = (m - p) + (q - m) by omega, List.take_add, List.drop_drop,
    Nat.add_sub_cancel' low]
  rfl

/-- A tiling is written with the tokens of its range, if each of its parts is. -/
theorem Tiles.written (tiles : w.Tiles parent owner p pieces q)
    (parts : ∀ (n : NodeId) (node : Node), .part n ∈ pieces → w.nodes[n]? = some node →
      (forms n).tokens = between w.tokens node.tokens.start node.tokens.stop) :
    (itemsOf forms pieces).flatMap (Piece.written Form.tokens) = between w.tokens p q := by
  induction tiles with
  | @nil p =>
      rw [between, Nat.sub_self]
      rfl
  | @token p q t rest isToken _ rest_ ih =>
      rw [itemsOf_token, List.flatMap_cons,
        ih fun n node member => parts n node (List.mem_cons_of_mem _ member),
        between_cons ((tokens_getElem? w p).trans isToken) rest_.le]
      rfl
  | @part p m q n node rest found _ range shorter rest_ ih =>
      have here := parts n node (by simp) found
      rw [range] at here
      rw [itemsOf_part, List.flatMap_cons,
        ih fun n node member => parts n node (List.mem_cons_of_mem _ member),
        between_append w.tokens (Nat.le_of_lt shorter) rest_.le, ← here]
      rfl

/-- Every finished node is written with the tokens of its range. -/
theorem Valid.written (valid : w.Valid forms opens) (found : w.nodes[id]? = some node)
    (closed : id ∉ opens) :
    (forms id).tokens = between w.tokens node.tokens.start node.tokens.stop := by
  induction rank : w.rank id using Nat.strong_induction_on generalizing id node with
  | _ rank ih =>
    rw [valid.form id node found closed, Form.tokens_eq, Construct.layout_map]
    refine (valid.tiles id node found closed).written fun n partNode inLayout foundPart => ?_
    have member := Construct.part_mem_layout.mp inLayout
    have lower := valid.rank_part_lt found closed member
    exact ih (w.rank n) (rank ▸ lower) foundPart (valid.part_closed found closed member) rfl

/-! ## Reading a table of nodes -/

/-- Reading a finished node ends in a phrase of its form, at any depth above its rank. -/
theorem Valid.readAt (valid : w.Valid forms opens) {depth : Nat} (found : w.nodes[id]? = some node)
    (closed : id ∉ opens) (deep : w.rank id < depth) :
    ∃ phrase, ParseTree.readAt w.nodes depth id = .ok phrase ∧ phrase.form = forms id := by
  induction depth generalizing id node with
  | zero => exact absurd deep (Nat.not_lt_zero _)
  | succ depth ih =>
      have parts : ∀ n, ∃ phrase, n ∈ node.construct.parts →
          ParseTree.readAt w.nodes depth n = .ok phrase ∧ phrase.form = forms n := by
        intro n
        by_cases member : n ∈ node.construct.parts
        · have inLayout := Construct.part_mem_layout.mpr member
          obtain ⟨partNode, foundPart, _⟩ := (valid.tiles id node found closed).part_bounds inLayout
          have lower := valid.rank_part_lt found closed member
          obtain ⟨phrase, reads, same⟩ := ih foundPart (valid.part_closed found closed member) (by omega)
          exact ⟨phrase, fun _ => ⟨reads, same⟩⟩
        · exact ⟨⟨.void, ⟨0, 0⟩⟩, fun isPart => absurd isPart member⟩
      choose phraseOf reads using parts
      refine ⟨⟨node.construct.map phraseOf, node.span⟩, ?_, ?_⟩
      · have read := Construct.mapM_eq_ok fun n member => (reads n member).1
        rw [ParseTree.readAt, fetch_eq_ok_iff.mpr found]
        simp only [bind, Except.bind, read, pure, Except.pure]
      · have construct : ((node.construct.map phraseOf).map Phrase.form) = node.construct.map forms := by
          rw [Construct.map_map]
          exact Construct.map_congr fun n member => (reads n member).2
        rw [valid.form id node found closed, ← construct]
        exact Phrase.form_eq ⟨_, _⟩

end Workspace

/-! ## Finished trees -/

namespace Workspace.Parsed

variable {lexemes : List Lexeme} {children : List Form} {tree : ParseTree} {w : Workspace}
  {forms : NodeId → Form} {id : NodeId} {node : Node}

theorem tokens_eq (parsed : Parsed lexemes children tree w forms) :
    w.tokens = lexemes.map fun lexeme => lexeme.token := by
  rw [tokens, parsed.lexemes_eq]

theorem covers (parsed : Parsed lexemes children tree w forms) {parent : NodeId} {owner : Option NodeId}
    {p q : Nat} {pieces : List (Piece NodeId)} (tiles : w.Tiles parent owner p pieces q) :
    tree.Covers (lexemes.map fun lexeme => lexeme.token) p pieces q := by
  rw [parsed.tree_eq, ← parsed.tokens_eq]
  induction tiles with
  | nil => exact .nil
  | token isToken _ _ ih => exact .token ((tokens_getElem? w _).trans isToken) ih
  | part found _ range shorter _ ih => exact .part found range shorter ih

theorem lister_iff (parsed : Parsed lexemes children tree w forms) {owner : NodeId} {ownerNode : Node}
    (found : w.nodes[id]? = some node) (foundOwner : w.nodes[owner]? = some ownerNode) :
    id ∈ ownerNode.construct.parts ↔ node.parent = some owner := by
  constructor
  · intro member
    obtain ⟨node', found', isParent, _⟩ :=
      (parsed.valid.tiles owner ownerNode foundOwner List.not_mem_nil).part_bounds
      (Construct.part_mem_layout.mpr member)
    cases found.symm.trans found'
    exact isParent
  · intro isParent
    rcases parsed.valid.listed id node owner found isParent with
      isOpen | ⟨ownerNode', foundOwner', member⟩
    · cases isOpen
    · cases foundOwner.symm.trans foundOwner'
      exact member

/-- No node stands in two lists of parts, or twice in one. -/
theorem listed_nodup (parsed : Parsed lexemes children tree w forms) : tree.listed.Nodup := by
  rw [ParseTree.listed, parsed.tree_eq, List.nodup_flatMap]
  constructor
  · intro ownerNode member
    obtain ⟨owner, foundOwner⟩ := List.mem_iff_getElem?.mp member
    rw [Array.getElem?_toList] at foundOwner
    have nodup := (parsed.valid.tiles owner ownerNode foundOwner List.not_mem_nil).parts_nodup
    rwa [Construct.layout_parts] at nodup
  · rw [List.pairwise_iff_getElem]
    intro i j inBounds inBounds' different id inFirst inSecond
    have foundFirst : w.nodes[i]? = some w.nodes.toList[i] := by simp
    have foundSecond : w.nodes[j]? = some w.nodes.toList[j] := by simp
    obtain ⟨node, found, isFirst, _⟩ := (parsed.valid.tiles i _ foundFirst List.not_mem_nil).part_bounds
      (Construct.part_mem_layout.mpr inFirst)
    have isSecond := (parsed.lister_iff found foundSecond).mp inSecond
    exact different.ne (Option.some.inj (isFirst.symm.trans isSecond))

/-- Read from its root, the tree is a phrase with the given children. -/
theorem phrase (parsed : Parsed lexemes children tree w forms) :
    ∃ phrase, tree.phrase? = .ok (some phrase) ∧ phrase.form = ⟨.root children⟩ := by
  obtain ⟨rootNode, foundRoot, _⟩ := parsed.root
  obtain ⟨phrase, read, same⟩ :=
    parsed.valid.readAt foundRoot List.not_mem_nil (rank_lt_size (lt_size foundRoot))
  refine ⟨phrase, ?_, same.trans parsed.form⟩
  rw [parsed.tree_eq]
  show (ParseTree.readAt w.nodes w.nodes.size 0 >>= fun phrase => pure (some phrase)) = _
  rw [read]
  rfl

theorem faithful (parsed : Parsed lexemes children tree w forms) :
    tree.Faithful (lexemes.map fun lexeme => lexeme.token) 0 := by
  have valid := parsed.valid
  have nodes : tree.nodes = w.nodes := by rw [parsed.tree_eq]
  obtain ⟨rootNode, foundRoot, noParent, rootTokens⟩ := parsed.root
  have parentOf : ∀ (id : NodeId) (node : Node), w.nodes[id]? = some node → id ≠ 0 →
      ∃ owner, node.parent = some owner := by
    intro id node found different
    cases isParent : node.parent with
    | none => exact absurd (valid.root id node found isParent) different
    | some owner => exact ⟨owner, rfl⟩
  refine ⟨⟨rootNode, nodes ▸ foundRoot, by simpa using rootTokens⟩, fun id node found => ?_,
    fun id inBounds different => ?_, fun id node found owner ownerNode foundOwner => ?_,
    fun id node found => ?_, ?_⟩
  · rw [nodes] at found
    constructor
    · exact valid.root id node found
    · rintro rfl
      cases foundRoot.symm.trans found
      exact noParent
  · rw [nodes] at inBounds
    have found := Array.getElem?_eq_getElem inBounds
    obtain ⟨owner, isParent⟩ := parentOf id _ found different
    refine List.count_eq_one_of_mem parsed.listed_nodup ?_
    rcases valid.listed id _ owner found isParent with isOpen | ⟨ownerNode, foundOwner, member⟩
    · cases isOpen
    · rw [ParseTree.listed, nodes, List.mem_flatMap]
      exact ⟨ownerNode, Array.mem_toList_iff.mpr (Array.mem_of_getElem? foundOwner), member⟩
  · rw [nodes] at found foundOwner
    exact parsed.lister_iff found foundOwner
  · rw [nodes] at found
    exact parsed.covers (valid.tiles id node found List.not_mem_nil)
  · obtain ⟨phrase, read, same⟩ := parsed.phrase
    refine ⟨phrase, read, ?_⟩
    rw [same, ← parsed.form, valid.written foundRoot List.not_mem_nil, rootTokens, parsed.tokens_eq,
      between]
    simp

end Workspace.Parsed

/-! ## The result -/

/-- Whatever the lexemes are: a tree that reduction returns holds exactly their tokens. -/
theorem reduce_loses_nothing (lexemes : List Lexeme) (tree : ParseTree)
    (reduced : reduce lexemes = .ok tree) :
    ∃ root, tree.root = some root ∧ tree.Faithful (lexemes.map fun lexeme => lexeme.token) root := by
  have agrees := Workspace.reduce_agrees lexemes
  rw [reduced] at agrees
  obtain ⟨children, _, w, forms, parsed⟩ := agrees.of_ok
  refine ⟨0, ?_, parsed.faithful⟩
  rw [parsed.tree_eq]

/-- `main :: () -> void { print_u64 f(1, 2) + 3; };`, each token at its own place. -/
def printedSum : List Lexeme :=
  let tokens : List Token :=
    [.ident "main", .doubleColon, .opening .paren, .closing .paren, .arrow, .void, .opening .brace,
      .printWord, .ident "f", .opening .paren, .int 1, .comma, .int 2, .closing .paren, .plus, .int 3,
      .semicolon, .closing .brace, .semicolon]
  tokens.zipIdx.map fun (token, i) => ⟨token, ⟨2 * i, 2 * i + 1⟩⟩

theorem reduce_printedSum_loses_nothing : ∃ tree root, reduce printedSum = .ok tree ∧
    tree.root = some root ∧ tree.Faithful (printedSum.map fun lexeme => lexeme.token) root := by
  have accepted : (reduce printedSum).isOk = true := by decide +kernel
  obtain ⟨tree, reduced⟩ := exists_of_isOk accepted
  obtain ⟨root, isRoot, faithful⟩ := reduce_loses_nothing printedSum tree reduced
  exact ⟨tree, root, reduced, isRoot, faithful⟩

end Rill

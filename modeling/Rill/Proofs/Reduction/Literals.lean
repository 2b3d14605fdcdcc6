import Mathlib
import Rill.Proofs.Reduction.Shapes
import Rill.Proofs.Reduction.Spans

/-!
# The function literals of a source

`Phrase.literals` lists the function literals in a phrase, each behind those inside it. In a tree that
reduction returns these are its function nodes: the walk from the root meets each of them once
(`Workspace.Valid.functionsIn_nodup`) and misses none (`Workspace.Parsed.mem_functionsIn_iff`), and what
it meets, read as phrases, are the literals of the top level (`reduce_literals`).

The walk passes over the names of bindings, where no function stands.
-/

namespace Rill

/-- Whether the construct is a function literal. -/
def Construct.isFunction {α : Type} : Construct α → Bool
  | function .. => true
  | _ => false

@[simp] theorem Construct.isFunction_map {α β : Type} (f : α → β) (c : Construct α) :
    (c.map f).isFunction = c.isFunction := by
  cases c <;> rfl

namespace Phrase

/-- The function literals in a phrase, each behind those inside it. -/
def literals (phrase : Phrase) : List Phrase :=
  (phrase.construct.inner.attach.flatMap fun ⟨part, _⟩ => part.literals) ++
    if phrase.construct.isFunction then [phrase] else []
termination_by sizeOf phrase
decreasing_by exact sizeOf_part_lt (phrase.construct.inner_sublist.subset ‹_›)

theorem literals_eq (phrase : Phrase) : phrase.literals =
    phrase.construct.inner.flatMap literals ++ if phrase.construct.isFunction then [phrase] else [] := by
  rw [literals, flatMap_attach fun _ => rfl]

end Phrase

/-- The function nodes at a node and below it, each behind those below it. A `depth` of the size of the
table reaches all of them. -/
def ParseTree.functionsIn (nodes : Array Node) : (depth : Nat) → NodeId → List NodeId
  | 0, _ => []
  | depth + 1, id =>
      match nodes[id]? with
      | some node => node.construct.inner.flatMap (functionsIn nodes depth) ++
          if node.construct.isFunction then [id] else []
      | none => []

namespace Workspace

open ParseTree (functionsIn)

variable {w : Workspace} {forms : NodeId → Form} {id n : NodeId} {node : Node} {depth depth' : Nat}

theorem functionsIn_succ (found : w.nodes[id]? = some node) : functionsIn w.nodes (depth + 1) id =
    node.construct.inner.flatMap (functionsIn w.nodes depth) ++
      if node.construct.isFunction then [id] else [] := by
  rw [functionsIn, found]

/-! ## Depth -/

theorem Valid.part_found (valid : w.Valid forms []) (found : w.nodes[id]? = some node)
    (member : n ∈ node.construct.parts) :
    ∃ part, w.nodes[n]? = some part ∧ part.parent = some id ∧
      node.tokens.start ≤ part.tokens.start ∧ part.tokens.stop ≤ node.tokens.stop ∧ w.rank n < w.rank id := by
  obtain ⟨part, foundPart, isParent, low, _, high⟩ :=
    (valid.tiles id node found List.not_mem_nil).part_bounds (Construct.part_mem_layout.mpr member)
  exact ⟨part, foundPart, isParent, low, high, valid.rank_part_lt found List.not_mem_nil member⟩

/-- What is read at a node does not depend on the depth, if that is enough. -/
theorem Valid.readAt_eq (valid : w.Valid forms []) (found : w.nodes[id]? = some node)
    (deep : w.rank id < depth) (deep' : w.rank id < depth') :
    ParseTree.readAt w.nodes depth id = ParseTree.readAt w.nodes depth' id := by
  induction depth generalizing id node depth' with
  | zero => exact absurd deep (Nat.not_lt_zero _)
  | succ depth ih =>
      obtain ⟨depth', rfl⟩ : ∃ d, depth' = d + 1 := ⟨depth' - 1, by omega⟩
      have parts : node.construct.mapM (ParseTree.readAt w.nodes depth) =
          node.construct.mapM (ParseTree.readAt w.nodes depth') := by
        refine Construct.mapM_congr fun n member => ?_
        obtain ⟨part, foundPart, _, _, _, lower⟩ := valid.part_found found member
        exact ih foundPart (by omega) (by omega)
      simp only [ParseTree.readAt, fetch_eq_ok_iff.mpr found, bind, Except.bind, parts]

theorem Valid.functionsIn_eq (valid : w.Valid forms []) (found : w.nodes[id]? = some node)
    (deep : w.rank id < depth) (deep' : w.rank id < depth') :
    functionsIn w.nodes depth id = functionsIn w.nodes depth' id := by
  induction depth generalizing id node depth' with
  | zero => exact absurd deep (Nat.not_lt_zero _)
  | succ depth ih =>
      obtain ⟨depth', rfl⟩ : ∃ d, depth' = d + 1 := ⟨depth' - 1, by omega⟩
      rw [functionsIn_succ found, functionsIn_succ found]
      refine congrArg (· ++ _) (List.flatMap_congr fun n member => ?_)
      obtain ⟨part, foundPart, _, _, _, lower⟩ :=
        valid.part_found found (node.construct.inner_sublist.subset member)
      exact ih foundPart (by omega) (by omega)

/-! ## Each function once -/

/-- Where the functions below a node stand. -/
theorem Valid.functionsIn_bounds (valid : w.Valid forms []) (found : w.nodes[id]? = some node)
    (member : n ∈ functionsIn w.nodes depth id) :
    ∃ other, w.nodes[n]? = some other ∧ other.construct.isFunction = true ∧
      node.tokens.start ≤ other.tokens.start ∧ other.tokens.start < other.tokens.stop ∧
      other.tokens.stop ≤ node.tokens.stop ∧ w.rank n ≤ w.rank id := by
  induction depth generalizing id node with
  | zero => cases member
  | succ depth ih =>
      rw [functionsIn_succ found] at member
      rcases List.mem_append.mp member with inside | here
      · obtain ⟨part, isPart, inPart⟩ := List.mem_flatMap.mp inside
        obtain ⟨partNode, foundPart, _, low, high, lower⟩ :=
          valid.part_found found (node.construct.inner_sublist.subset isPart)
        obtain ⟨other, foundOther, isFunction, low', proper, high', rank⟩ := ih foundPart inPart
        exact ⟨other, foundOther, isFunction, low.trans low', proper, high'.trans high, rank.trans lower.le⟩
      · cases isFunction : node.construct.isFunction with
        | false => simp [isFunction] at here
        | true =>
            simp only [isFunction, if_true, List.mem_singleton] at here
            subst here
            have nonempty : node.construct.layout ≠ [] := by
              intro empty
              cases shape : node.construct with
              | function params result body => simp [shape, Construct.layout] at empty
              | _ => simp [shape, Construct.isFunction] at isFunction
            have proper := (valid.tiles n node found List.not_mem_nil).lt nonempty
            exact ⟨node, found, isFunction, le_rfl, proper, le_rfl, le_rfl⟩

/-- No function is met twice: the parts of a node stand apart, and a node is not below itself. -/
theorem Valid.functionsIn_nodup (valid : w.Valid forms []) (found : w.nodes[id]? = some node) :
    (functionsIn w.nodes depth id).Nodup := by
  induction depth generalizing id node with
  | zero => exact List.nodup_nil
  | succ depth ih =>
      have partFound := fun (n : NodeId) (member : n ∈ node.construct.inner) =>
        valid.part_found found (node.construct.inner_sublist.subset member)
      rw [functionsIn_succ found, List.nodup_append]
      refine ⟨List.nodup_flatMap.mpr ⟨fun n member => ?_, ?_⟩, ?_, ?_⟩
      · obtain ⟨part, foundPart, _⟩ := partFound n member
        exact ih foundPart
      · have apart := (valid.tiles id node found List.not_mem_nil).parts_apart
        rw [Construct.layout_parts] at apart
        refine (apart.sublist node.construct.inner_sublist).imp_of_mem ?_
        intro first second isFirst isSecond before n inFirst inSecond
        obtain ⟨firstNode, foundFirst, _⟩ := partFound first isFirst
        obtain ⟨secondNode, foundSecond, _⟩ := partFound second isSecond
        obtain ⟨other, foundOther, _, _, proper, high, _⟩ := valid.functionsIn_bounds foundFirst inFirst
        obtain ⟨other', foundOther', _, low, _⟩ := valid.functionsIn_bounds foundSecond inSecond
        cases foundOther.symm.trans foundOther'
        have := before firstNode secondNode foundFirst foundSecond
        omega
      · split <;> simp
      · intro n inside m here
        obtain ⟨part, isPart, inPart⟩ := List.mem_flatMap.mp inside
        obtain ⟨partNode, foundPart, _, _, _, lower⟩ := partFound part isPart
        obtain ⟨_, _, _, _, _, _, rank⟩ := valid.functionsIn_bounds foundPart inPart
        split at here
        · cases List.mem_singleton.mp here
          rintro rfl
          omega
        · cases here

/-! ## Finished trees -/

namespace Parsed

variable {lexemes : List Lexeme} {children : List Form} {tree : ParseTree}

/-- A part that is no name has its place among those with something inside. -/
theorem mem_inner (parsed : Parsed lexemes children tree w forms) (sound : ∀ f ∈ children, f.Sound)
    {owner : Node} {ownerId : NodeId} (foundOwner : w.nodes[ownerId]? = some owner)
    (found : w.nodes[n]? = some node) (member : n ∈ owner.construct.parts)
    (noName : node.construct.isIdent = false) : n ∈ owner.construct.inner := by
  have shaped := parsed.shaped sound foundOwner
  have nodes : tree.nodes = w.nodes := by rw [parsed.tree_eq]
  cases shape : owner.construct with
  | binding name type? value? =>
      rw [shape] at member shaped
      rcases List.mem_cons.mp member with rfl | isInner
      · have isName := shaped.1
        simp [ParseTree.has, nodes, found, noName] at isName
      · exact isInner
  | _ =>
      rw [shape] at member
      exact member

/-- What is met below a node is met below the root. The induction goes up from the node to its owner,
whose rank is higher. -/
theorem functionsIn_root (parsed : Parsed lexemes children tree w forms)
    (sound : ∀ f ∈ children, f.Sound) (found : w.nodes[id]? = some node)
    (noName : node.construct.isIdent = false) (member : n ∈ functionsIn w.nodes w.nodes.size id) :
    n ∈ functionsIn w.nodes w.nodes.size 0 := by
  induction above : w.nodes.size - w.rank id using Nat.strong_induction_on generalizing id node with
  | _ above ih =>
    cases isParent : node.parent with
    | none =>
        cases parsed.valid.root id node found isParent
        exact member
    | some ownerId =>
        obtain isOpen | ⟨owner, foundOwner, isPart⟩ := parsed.valid.listed id node ownerId found isParent
        · cases isOpen
        have higher := parsed.valid.rank_part_lt foundOwner List.not_mem_nil isPart
        have deep := rank_lt_size (lt_size foundOwner)
        have ownerNoName : owner.construct.isIdent = false := by
          cases shape : owner.construct with
          | ident name =>
              rw [shape] at isPart
              cases isPart
          | _ => rfl
        refine ih _ (by omega) foundOwner ownerNoName ?_ rfl
        rw [parsed.valid.functionsIn_eq foundOwner deep (Nat.lt_succ_of_lt deep), functionsIn_succ foundOwner]
        have isInner := parsed.mem_inner sound foundOwner found isPart noName
        exact List.mem_append_left _ (List.mem_flatMap.mpr ⟨id, isInner, member⟩)

/-- The walk from the root meets the functions of the tree and nothing else. -/
theorem mem_functionsIn_iff (parsed : Parsed lexemes children tree w forms)
    (sound : ∀ f ∈ children, f.Sound) : n ∈ functionsIn tree.nodes tree.nodes.size 0 ↔
      ∃ node, tree.nodes[n]? = some node ∧ node.construct.isFunction = true := by
  have nodes : tree.nodes = w.nodes := by rw [parsed.tree_eq]
  obtain ⟨rootNode, foundRoot, _⟩ := parsed.root
  rw [nodes]
  constructor
  · intro member
    obtain ⟨node, found, isFunction, _⟩ := parsed.valid.functionsIn_bounds foundRoot member
    exact ⟨node, found, isFunction⟩
  · rintro ⟨node, found, isFunction⟩
    have noName : node.construct.isIdent = false := by
      cases shape : node.construct with
      | ident name => simp [shape, Construct.isFunction] at isFunction
      | _ => rfl
    refine parsed.functionsIn_root sound found noName ?_
    have deep := rank_lt_size (lt_size found)
    rw [parsed.valid.functionsIn_eq found deep (Nat.lt_succ_of_lt deep), functionsIn_succ found, isFunction]
    exact List.mem_append_right _ (List.mem_singleton_self n)

/-- The phrase at a node consists of the phrases at its parts. -/
theorem phrases (parsed : Parsed lexemes children tree w forms) : ∃ phraseAt : NodeId → Phrase,
    ∀ id node, w.nodes[id]? = some node →
      ParseTree.readAt w.nodes w.nodes.size id = .ok (phraseAt id) ∧
      phraseAt id = ⟨node.construct.map phraseAt, node.span⟩ := by
  have reads : ∀ id, ∃ phrase, ∀ node, w.nodes[id]? = some node →
      ParseTree.readAt w.nodes w.nodes.size id = .ok phrase := by
    intro id
    cases found : w.nodes[id]? with
    | none => exact ⟨⟨.void, ⟨0, 0⟩⟩, nofun⟩
    | some node =>
        obtain ⟨phrase, read, _⟩ :=
          parsed.valid.readAt found List.not_mem_nil (rank_lt_size (lt_size found))
        exact ⟨phrase, fun _ _ => read⟩
  choose phraseAt reads using reads
  refine ⟨phraseAt, fun id node found => ⟨reads id node found, ?_⟩⟩
  have parts : node.construct.mapM (ParseTree.readAt w.nodes w.nodes.size) =
      .ok (node.construct.map phraseAt) := by
    refine Construct.mapM_eq_ok fun n member => ?_
    obtain ⟨part, foundPart, _⟩ := parsed.valid.part_found found member
    exact reads n part foundPart
  have deep := rank_lt_size (lt_size found)
  have read := reads id node found
  rw [parsed.valid.readAt_eq found deep (Nat.lt_succ_of_lt deep)] at read
  simp only [ParseTree.readAt, fetch_eq_ok_iff.mpr found, bind, Except.bind, parts, pure, Except.pure] at read
  exact (Except.ok.inj read).symm

/-- The literals in the phrase at a node are the phrases at the functions below it. -/
theorem literals_phraseAt (parsed : Parsed lexemes children tree w forms) {phraseAt : NodeId → Phrase}
    (phrases : ∀ id node, w.nodes[id]? = some node →
      phraseAt id = ⟨node.construct.map phraseAt, node.span⟩)
    (found : w.nodes[id]? = some node) (deep : w.rank id < depth) :
    (phraseAt id).literals = (functionsIn w.nodes depth id).map phraseAt := by
  induction depth generalizing id node with
  | zero => exact absurd deep (Nat.not_lt_zero _)
  | succ depth ih =>
      have construct : (phraseAt id).construct = node.construct.map phraseAt := by
        rw [phrases id node found]
      have inside : (node.construct.inner.map phraseAt).flatMap Phrase.literals =
          (node.construct.inner.flatMap (functionsIn w.nodes depth)).map phraseAt := by
        rw [List.flatMap_map, List.map_flatMap]
        refine List.flatMap_congr fun n member => ?_
        obtain ⟨part, foundPart, _, _, _, lower⟩ :=
          parsed.valid.part_found found (node.construct.inner_sublist.subset member)
        exact ih foundPart (by omega)
      rw [functionsIn_succ found, Phrase.literals_eq, construct, Construct.inner_map, inside,
        Construct.isFunction_map, List.map_append]
      cases node.construct.isFunction <;> rfl

end Parsed

end Workspace

/-- The function literals of an accepted parse are its function nodes. -/
theorem reduce_literals {lexemes : List Lexeme} {tree : ParseTree} (reduced : reduce lexemes = .ok tree) :
    ∃ phrases, tree.topLevel = .ok phrases ∧ ∃ origins : List NodeId, origins.Nodup ∧
      (∀ id, id ∈ origins ↔ ∃ node, tree.nodes[id]? = some node ∧ node.construct.isFunction = true) ∧
      List.Forall₂ (fun origin literal => ParseTree.readAt tree.nodes tree.nodes.size origin = .ok literal)
        origins (phrases.flatMap Phrase.literals) := by
  have agrees := Workspace.reduce_agrees lexemes
  rw [reduced] at agrees
  obtain ⟨children, ran, w, forms, parsed⟩ := agrees.of_ok
  have sound := Items.reduce_sound (by simp [Items.Made, Workspace.bareItems]) ran
  have nodes : tree.nodes = w.nodes := by rw [parsed.tree_eq]
  obtain ⟨rootNode, foundRoot, _⟩ := parsed.root
  obtain ⟨phraseAt, reads⟩ := parsed.phrases
  obtain ⟨read, isPhrase⟩ := reads 0 rootNode foundRoot
  obtain ⟨ids, isRoot⟩ : ∃ ids, rootNode.construct = .root ids := by
    have form := parsed.valid.form 0 rootNode foundRoot List.not_mem_nil
    rw [parsed.form] at form
    cases shape : rootNode.construct with
    | root ids => exact ⟨ids, rfl⟩
    | _ =>
        rw [shape] at form
        cases form
  rw [isRoot] at isPhrase
  have whole : tree.phrase? = .ok (some ⟨.root (ids.map phraseAt), rootNode.span⟩) := by
    rw [parsed.tree_eq]
    show (ParseTree.readAt w.nodes w.nodes.size 0 >>= fun phrase => pure (some phrase)) = _
    rw [read, isPhrase]
    rfl
  have literals : (ids.map phraseAt).flatMap Phrase.literals =
      (ParseTree.functionsIn w.nodes w.nodes.size 0).map phraseAt := by
    rw [← parsed.literals_phraseAt (fun id node found => (reads id node found).2) foundRoot
      (Workspace.rank_lt_size (Workspace.lt_size foundRoot)), isPhrase, Phrase.literals_eq]
    simp [Construct.map, Construct.inner, Construct.parts, Construct.isFunction]
  refine ⟨ids.map phraseAt, ?_, ParseTree.functionsIn w.nodes w.nodes.size 0,
    parsed.valid.functionsIn_nodup foundRoot, fun id => ?_, ?_⟩
  · rw [ParseTree.topLevel, whole]
    rfl
  · rw [← nodes]
    exact parsed.mem_functionsIn_iff sound
  · rw [literals, List.forall₂_map_right_iff, List.forall₂_same]
    intro origin member
    obtain ⟨node, found, _⟩ := parsed.valid.functionsIn_bounds foundRoot member
    rw [nodes]
    exact (reads origin node found).1

end Rill

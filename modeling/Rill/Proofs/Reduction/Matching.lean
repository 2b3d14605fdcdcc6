import Mathlib
import Rill.Proofs.Basic
import Rill.Proofs.Reduction.Faithful
import Rill.Proofs.Reduction.Passes

/-!
# Brackets are matched as they nest

A closing bracket is paired with the nearest bare opener of its own kind, without a look at what lies
between the two. `bracketPairs?` is the matching with a stack: it gives the pairs of a properly nested
list of tokens, and nothing for any other list. The two agree (`brackets_match_by_nesting`).

1. A tree that reduction returns has a bracket node for every pair of the stack matching, one for each,
   and no other. The tokens of every form are balanced (`Form.balanced_tokens`), so what a bracket node
   is written with stands between the two brackets of a pair.
2. Properly nested brackets are never reported. When a closing bracket is visited, the bare openers
   behind it are the stack (`closes_nested`); between it and the innermost of them no bracket is bare,
   so the reduction of the inside has none to report.
3. No token is ever reported as unexpected: every pass leaves no token of its group
   (`passes_avoid`), and the tokens that belong to no group are the openers.
-/

namespace Rill

/-! ## Matching with a stack -/

/-- A pair of matching brackets: its kind, and the positions of the two tokens. -/
structure BracketPair where
  bracket : Bracket
  first : Nat
  last : Nat
deriving DecidableEq, Repr

/-- Matches the brackets of tokens that start at position `p`. The openers that wait for their closing
brackets are on the stack, innermost first; pairs are listed in the order in which they are closed. -/
def matchFrom (p : Nat) (stack : List (Bracket × Nat)) : List Token → Option (List BracketPair)
  | [] => if stack.isEmpty then some [] else none
  | .opening bracket :: rest => matchFrom (p + 1) ((bracket, p) :: stack) rest
  | .closing bracket :: rest =>
      match stack with
      | (waiting, q) :: outer =>
          if waiting = bracket then (matchFrom (p + 1) outer rest).map (⟨bracket, q, p⟩ :: ·) else none
      | [] => none
  | _ :: rest => matchFrom (p + 1) stack rest

/-- The pairs of matching brackets, if the brackets are properly nested. -/
def bracketPairs? (tokens : List Token) : Option (List BracketPair) :=
  matchFrom 0 [] tokens

/-- Whether the token is an opening or a closing bracket. -/
def Token.isBracket : Token → Bool
  | .opening _ | .closing _ => true
  | _ => false

section Stack

variable {p q : Nat} {stack outer : List (Bracket × Nat)} {t : Token} {bracket waiting : Bracket}
  {tokens rest : List Token} {pairs : List BracketPair} {pair : BracketPair}

theorem matchFrom_plain (plain : t.isBracket = false) :
    matchFrom p stack (t :: rest) = matchFrom (p + 1) stack rest := by
  cases t <;> first | rfl | cases plain

theorem matchFrom_opening : matchFrom p stack (.opening bracket :: rest) =
    matchFrom (p + 1) ((bracket, p) :: stack) rest :=
  rfl

/-- A closing bracket needs an opener of its kind on top of the stack. -/
theorem matchFrom_closing (matched : matchFrom p stack (.closing bracket :: rest) = some pairs) :
    ∃ q outer others, stack = (bracket, q) :: outer ∧ matchFrom (p + 1) outer rest = some others ∧
      pairs = ⟨bracket, q, p⟩ :: others := by
  cases stack with
  | nil => cases matched
  | cons top outer =>
      obtain ⟨waiting, q⟩ := top
      simp only [matchFrom] at matched
      split at matched
      · next same =>
        obtain ⟨others, matched', rfl⟩ := Option.map_eq_some_iff.mp matched
        exact ⟨q, outer, others, by rw [same], matched', rfl⟩
      · cases matched

/-- The first token of a pair is an opener of its kind: one on the stack, or one still ahead. -/
theorem opener_of_pair (matched : matchFrom p stack tokens = some pairs) (member : pair ∈ pairs) :
    (pair.bracket, pair.first) ∈ stack ∨
      ∃ i, pair.first = p + i ∧ tokens[i]? = some (.opening pair.bracket) := by
  induction tokens generalizing p stack pairs with
  | nil =>
      unfold matchFrom at matched
      split at matched <;> cases matched
      cases member
  | cons t rest ih =>
      -- What stands at `i` behind the first token stands at `i + 1` with it.
      have later : ∀ {stack' : List (Bracket × Nat)} {others : List BracketPair},
          matchFrom (p + 1) stack' rest = some others → pair ∈ others →
          (pair.bracket, pair.first) ∈ stack' ∨
            ∃ i, pair.first = p + i ∧ (t :: rest)[i]? = some (.opening pair.bracket) := by
        intro stack' others matched' member'
        rcases ih matched' member' with waits | ⟨i, place, found⟩
        · exact Or.inl waits
        · exact Or.inr ⟨i + 1, by omega, by simpa using found⟩
      cases kind : t.isBracket with
      | false =>
          rw [matchFrom_plain kind] at matched
          exact later matched member
      | true =>
          cases t with
          | opening bracket =>
              rw [matchFrom_opening] at matched
              rcases later matched member with waits | ahead
              · rcases List.mem_cons.mp waits with isNew | old
                · cases pair
                  cases isNew
                  exact Or.inr ⟨0, rfl, rfl⟩
                · exact Or.inl old
              · exact Or.inr ahead
          | closing bracket =>
              obtain ⟨q, outer, others, rfl, matched', rfl⟩ := matchFrom_closing matched
              rcases List.mem_cons.mp member with rfl | old
              · exact Or.inl List.mem_cons_self
              · exact (later matched' old).imp_left (List.mem_cons_of_mem _)
          | _ => cases kind

/-- No opener belongs to two pairs. -/
theorem nodup_firsts (matched : matchFrom p stack tokens = some pairs)
    (behind : ∀ entry ∈ stack, entry.2 < p) (distinct : (stack.map (·.2)).Nodup) :
    (pairs.map (·.first)).Nodup := by
  induction tokens generalizing p stack pairs with
  | nil =>
      unfold matchFrom at matched
      split at matched <;> cases matched
      exact List.nodup_nil
  | cons t rest ih =>
      cases kind : t.isBracket with
      | false =>
          rw [matchFrom_plain kind] at matched
          exact ih matched (fun entry member => Nat.lt_succ_of_lt (behind entry member)) distinct
      | true =>
          cases t with
          | opening bracket =>
              rw [matchFrom_opening] at matched
              refine ih matched (fun entry member => ?_) ?_
              · rcases List.mem_cons.mp member with rfl | old
                · exact Nat.lt_succ_self p
                · exact Nat.lt_succ_of_lt (behind entry old)
              · rw [List.map_cons, List.nodup_cons]
                refine ⟨fun again => ?_, distinct⟩
                obtain ⟨entry, member, same⟩ := List.mem_map.mp again
                exact absurd (behind entry member) (by simp [same])
          | closing bracket =>
              obtain ⟨q, outer, others, rfl, matched', rfl⟩ := matchFrom_closing matched
              rw [List.map_cons, List.nodup_cons] at distinct ⊢
              refine ⟨fun again => ?_, ih matched' (fun entry member =>
                Nat.lt_succ_of_lt (behind entry (List.mem_cons_of_mem _ member))) distinct.2⟩
              obtain ⟨other, member, same⟩ := List.mem_map.mp again
              have low := behind _ List.mem_cons_self
              rcases opener_of_pair matched' member with waits | ⟨i, place, _⟩
              · exact distinct.1 (List.mem_map.mpr ⟨_, waits, same⟩)
              · simp only at same low
                omega
          | _ => cases kind

end Stack

/-! ## Balanced tokens -/

/-- Tokens that are matched among themselves: whatever waits on the stack stays there. -/
def Balanced (tokens : List Token) : Prop :=
  ∀ p stack rest, ∃ pairs, matchFrom p stack (tokens ++ rest) =
    (matchFrom (p + tokens.length) stack rest).map (pairs ++ ·)

namespace Balanced

variable {tokens more : List Token} {t : Token} {bracket : Bracket}

theorem nil : Balanced [] :=
  fun p stack rest => ⟨[], by simp⟩

theorem append (first : Balanced tokens) (second : Balanced more) : Balanced (tokens ++ more) := by
  intro p stack rest
  obtain ⟨pairs, matched⟩ := first p stack (more ++ rest)
  obtain ⟨pairs', matched'⟩ := second (p + tokens.length) stack rest
  refine ⟨pairs ++ pairs', ?_⟩
  rw [List.append_assoc, matched, matched', Option.map_map, List.length_append, Nat.add_assoc]
  congr 1
  funext others
  simp

theorem plain (notBracket : t.isBracket = false) : Balanced [t] :=
  fun p stack rest => ⟨[], by simp [matchFrom_plain notBracket]⟩

theorem group (inside : Balanced tokens) :
    Balanced (.opening bracket :: (tokens ++ [.closing bracket])) := by
  intro p stack rest
  obtain ⟨pairs, matched⟩ := inside (p + 1) ((bracket, p) :: stack) (.closing bracket :: rest)
  refine ⟨pairs ++ [⟨bracket, p, p + 1 + tokens.length⟩], ?_⟩
  have length : p + (Token.opening bracket :: (tokens ++ [.closing bracket])).length =
      p + 1 + tokens.length + 1 := by
    simp
    omega
  rw [List.cons_append, List.append_assoc, List.singleton_append, matchFrom, matched, matchFrom,
    if_pos rfl, Option.map_map, length]
  congr 1
  funext others
  simp

/-- Balanced tokens alone are properly nested. -/
theorem nested (balanced : Balanced tokens) : ∃ pairs, bracketPairs? tokens = some pairs := by
  obtain ⟨pairs, matched⟩ := balanced 0 [] []
  refine ⟨pairs ++ [], ?_⟩
  rw [bracketPairs?, ← List.append_nil tokens, matched]
  rfl

/-- Two brackets of a kind around balanced tokens are a pair of the matching. -/
theorem mem_pairs {p : Nat} {stack : List (Bracket × Nat)} {before after : List Token}
    {pairs : List BracketPair} (inside : Balanced tokens)
    (matched : matchFrom p stack (before ++ .opening bracket :: (tokens ++ .closing bracket :: after)) =
      some pairs) :
    ⟨bracket, p + before.length, p + before.length + 1 + tokens.length⟩ ∈ pairs := by
  induction before generalizing p stack pairs with
  | nil =>
      obtain ⟨others, inner⟩ := inside (p + 1) ((bracket, p) :: stack) (.closing bracket :: after)
      rw [List.nil_append, matchFrom, inner, matchFrom, if_pos rfl, Option.map_map] at matched
      obtain ⟨last, _, rfl⟩ := Option.map_eq_some_iff.mp matched
      simp
  | cons t before ih =>
      have place : p + (t :: before).length = p + 1 + before.length := by
        rw [List.length_cons]
        omega
      rw [place]
      rw [List.cons_append] at matched
      cases kind : t.isBracket with
      | false => exact ih (matchFrom_plain kind ▸ matched)
      | true =>
          cases t with
          | opening waiting => exact ih (matchFrom_opening ▸ matched)
          | closing waiting =>
              obtain ⟨q, outer, others, _, matched', rfl⟩ := matchFrom_closing matched
              exact List.mem_cons_of_mem _ (ih matched')
          | _ => cases kind

end Balanced

namespace Construct

variable {α : Type}

/-- The kind of brackets that the construct consists of, if it is a bracket pair. -/
def bracket? : Construct α → Option Bracket
  | paren _ => some .paren
  | curly _ => some .brace
  | _ => none

/-- A bracket pair is written with its brackets around its children. -/
theorem layout_of_bracket {c : Construct α} {bracket : Bracket} (isGroup : c.bracket? = some bracket) :
    ∃ children, c.layout =
      .token (.opening bracket) :: (List.map .part children ++ [.token (.closing bracket)]) := by
  cases c <;> cases isGroup
  · exact ⟨_, rfl⟩
  · exact ⟨_, rfl⟩

/-- No other construct is written with a bracket of its own. -/
theorem plain_of_no_bracket {c : Construct α} (noGroup : c.bracket? = none) {t : Token}
    (inLayout : .token t ∈ c.layout) : t.isBracket = false := by
  cases c with
  | paren | curly => cases noGroup
  | returnWith operand =>
      cases operand <;> simp [layout] at inLayout <;> subst inLayout <;> rfl
  | binding name type? value? =>
      cases type? <;> cases value? <;> simp [layout] at inLayout <;>
        (try rcases inLayout with rfl | rfl) <;> rfl
  | _ => simp [layout] at inLayout <;> subst inLayout <;> rfl

end Construct

/-- Pieces are balanced if their tokens are no brackets and their parts are balanced. -/
theorem balanced_pieces {pieces : List Item}
    (tokens : ∀ t, .token t ∈ pieces → t.isBracket = false)
    (parts : ∀ f : Form, .part f ∈ pieces → Balanced f.tokens) :
    Balanced (pieces.flatMap (Piece.written Form.tokens)) := by
  induction pieces with
  | nil => exact .nil
  | cons piece pieces ih =>
      have others := ih (fun t member => tokens t (List.mem_cons_of_mem _ member))
        fun f member => parts f (List.mem_cons_of_mem _ member)
      rw [List.flatMap_cons]
      cases piece with
      | token t => exact (Balanced.plain (tokens t List.mem_cons_self)).append others
      | part f => exact (parts f List.mem_cons_self).append others

/-- The brackets of a form are matched among themselves. -/
theorem Form.balanced_tokens (f : Form) : Balanced f.tokens := by
  induction size : sizeOf f using Nat.strong_induction_on generalizing f with
  | _ size ih =>
    have parts : ∀ g : Form, .part g ∈ f.construct.layout → Balanced g.tokens :=
      fun g member => ih (sizeOf g) (size ▸ sizeOf_part_lt member) g rfl
    rw [tokens_eq]
    cases isGroup : f.construct.bracket? with
    | none => exact balanced_pieces (fun t => Construct.plain_of_no_bracket isGroup) parts
    | some bracket =>
        obtain ⟨children, layout⟩ := Construct.layout_of_bracket isGroup
        rw [layout] at parts ⊢
        rw [List.flatMap_cons, List.flatMap_append]
        refine Balanced.group (balanced_pieces (by simp) fun g member => parts g ?_)
        exact List.mem_cons_of_mem _ (List.mem_append_left _ member)

/-! ## Bracket nodes -/

/-- The node of a tree is a bracket pair of the given kind at the given tokens. -/
def ParseTree.HasPair (tree : ParseTree) (id : NodeId) (pair : BracketPair) : Prop :=
  ∃ node, tree.nodes[id]? = some node ∧ node.construct.bracket? = some pair.bracket ∧
    node.tokens = ⟨pair.first, pair.last + 1⟩

/-- The bracket nodes of a tree are the given pairs, one node for each. -/
structure ParseTree.BracketsAre (tree : ParseTree) (pairs : List BracketPair) : Prop where
  paired : ∀ id node bracket, tree.nodes[id]? = some node → node.construct.bracket? = some bracket →
    ∃ pair ∈ pairs, tree.HasPair id pair
  made : ∀ pair ∈ pairs, ∃! id, tree.HasPair id pair

namespace Workspace

variable {w : Workspace} {forms : NodeId → Form} {opens : List NodeId} {id : NodeId} {node : Node}
  {bracket : Bracket} {i : Nat}

/-- A bracket node stands between its two tokens, which it owns, and what is between them is
balanced. -/
theorem Valid.bracket_node (valid : w.Valid forms opens) (found : w.nodes[id]? = some node)
    (closed : id ∉ opens) (isGroup : node.construct.bracket? = some bracket) :
    ∃ last, node.tokens = ⟨node.tokens.start, last + 1⟩ ∧ w.owner? node.tokens.start = some id ∧
      w.token? node.tokens.start = some (.opening bracket) ∧ w.token? last = some (.closing bracket) ∧
      node.tokens.start < last ∧ Balanced (between w.tokens (node.tokens.start + 1) last) := by
  obtain ⟨children, layout⟩ := Construct.layout_of_bracket isGroup
  have tiles := valid.tiles id node found closed
  have parts : ∀ n ∈ node.construct.parts, n ∉ opens := fun n => valid.part_closed found closed
  rw [← Construct.layout_parts, layout] at parts
  rw [layout] at tiles
  obtain ⟨⟨start, stop⟩, nodeTokens⟩ : ∃ range, node.tokens = range := ⟨_, rfl⟩
  rw [nodeTokens] at tiles ⊢
  cases tiles with
  | token isOpening owned rest =>
      obtain ⟨last, inside, closing⟩ := Tiles.append_iff.mp rest
      cases closing with
      | token isClosing _ done =>
          cases done
          refine ⟨last, rfl, owned, isOpening, isClosing, inside.le, ?_⟩
          have written := inside.written fun n partNode member foundPart =>
            valid.written foundPart (parts n ?_)
          · rw [← written]
            refine balanced_pieces (fun t member => ?_) fun f _ => f.balanced_tokens
            simp [itemsOf] at member
          · rw [List.mem_filterMap]
            exact ⟨.part n, List.mem_cons_of_mem _ (List.mem_append_left _ member), rfl⟩

/-- An opening bracket in the range of a finished node starts a bracket node. -/
theorem Valid.node_of_opening (valid : w.Valid forms opens) (found : w.nodes[id]? = some node)
    (closed : id ∉ opens) (low : node.tokens.start ≤ i) (high : i < node.tokens.stop)
    (isOpening : w.token? i = some (.opening bracket)) :
    ∃ (n : NodeId) (other : Node), w.nodes[n]? = some other ∧ n ∉ opens ∧
      other.construct.bracket? = some bracket ∧ other.tokens.start = i := by
  induction rank : w.rank id using Nat.strong_induction_on generalizing id node with
  | _ rank ih =>
    have tiles := valid.tiles id node found closed
    -- A part that the position lies in is a node of lower rank.
    have inPart : ∀ (n : NodeId) (partNode : Node), .part n ∈ node.construct.layout →
        w.nodes[n]? = some partNode → partNode.tokens.start ≤ i → i < partNode.tokens.stop →
        ∃ (n : NodeId) (other : Node), w.nodes[n]? = some other ∧ n ∉ opens ∧
          other.construct.bracket? = some bracket ∧ other.tokens.start = i := by
      intro n partNode member foundPart low' high'
      have isPart := Construct.part_mem_layout.mp member
      have lower := valid.rank_part_lt found closed isPart
      exact ih (w.rank n) (rank ▸ lower) foundPart (valid.part_closed found closed isPart) low' high' rfl
    cases isGroup : node.construct.bracket? with
    | none =>
        rcases tiles.cover low high with ⟨t, member, isToken, _⟩ | ⟨n, partNode, member, foundPart, _, at_⟩
        · cases isOpening.symm.trans isToken
          cases Construct.plain_of_no_bracket isGroup member
        · exact inPart n partNode member foundPart at_.1 at_.2
    | some other =>
        obtain ⟨children, layout⟩ := Construct.layout_of_bracket isGroup
        rw [layout] at tiles inPart
        obtain ⟨⟨start, stop⟩, nodeTokens⟩ : ∃ range, node.tokens = range := ⟨_, rfl⟩
        rw [nodeTokens] at tiles low high
        cases tiles with
        | token isFirst _ rest =>
            by_cases here : i = start
            · subst here
              cases isOpening.symm.trans isFirst
              exact ⟨id, node, found, closed, isGroup, by rw [nodeTokens]⟩
            · have low' : start + 1 ≤ i := Nat.lt_of_le_of_ne low (Ne.symm here)
              rcases rest.cover low' high with
                ⟨t, member, isToken, _⟩ | ⟨n, partNode, member, foundPart, _, at_⟩
              · cases isOpening.symm.trans isToken
                simp at member
              · exact inPart n partNode (List.mem_cons_of_mem _ member) foundPart at_.1 at_.2

end Workspace

namespace Workspace.Parsed

variable {lexemes : List Lexeme} {children : List Form} {tree : ParseTree} {w : Workspace}
  {forms : NodeId → Form}

/-- The tokens of a finished tree are properly nested. -/
theorem nested (parsed : Parsed lexemes children tree w forms) :
    ∃ pairs, bracketPairs? (lexemes.map fun lexeme => lexeme.token) = some pairs := by
  obtain ⟨phrase, _, written⟩ := parsed.faithful.written
  rw [← written]
  exact phrase.form.balanced_tokens.nested

theorem bracketsAre (parsed : Parsed lexemes children tree w forms) {pairs : List BracketPair}
    (matched : bracketPairs? (lexemes.map fun lexeme => lexeme.token) = some pairs) :
    tree.BracketsAre pairs := by
  have valid := parsed.valid
  rw [← parsed.tokens_eq] at matched
  -- Every bracket node is a pair that starts with the token it owns.
  have paired : ∀ (id : NodeId) (node : Node) (bracket : Bracket), w.nodes[id]? = some node →
      node.construct.bracket? = some bracket → w.owner? node.tokens.start = some id ∧
      ∃ pair ∈ pairs, pair.first = node.tokens.start ∧ tree.HasPair id pair := by
    intro id node bracket found isGroup
    obtain ⟨last, tokens, owned, isOpening, isClosing, proper, inside⟩ :=
      valid.bracket_node found List.not_mem_nil isGroup
    obtain ⟨start, startEq⟩ : ∃ start, node.tokens.start = start := ⟨_, rfl⟩
    rw [startEq] at tokens owned isOpening proper inside ⊢
    rw [← tokens_getElem?] at isOpening isClosing
    have inBounds := (List.getElem?_eq_some_iff.mp isOpening).1
    have inBounds' := (List.getElem?_eq_some_iff.mp isClosing).1
    have split : w.tokens = w.tokens.take start ++ .opening bracket ::
        (between w.tokens (start + 1) last ++ .closing bracket :: w.tokens.drop (last + 1)) := by
      have all : w.tokens = between w.tokens 0 start ++ between w.tokens start w.tokens.length := by
        rw [← between_append w.tokens (Nat.zero_le _) (Nat.le_of_lt inBounds), between]
        simp
      have ending : between w.tokens (last + 1) w.tokens.length = w.tokens.drop (last + 1) := by
        rw [between, List.take_of_length_le (by simp)]
      rw [between_cons isOpening inBounds, between_append w.tokens proper (Nat.le_of_lt inBounds'),
        between_cons isClosing inBounds', ending] at all
      exact all
    rw [split] at matched
    have member := inside.mem_pairs matched
    have length : (between w.tokens (start + 1) last).length = last - (start + 1) := by
      rw [between, List.length_take, List.length_drop]
      omega
    have place : 0 + (w.tokens.take start).length + 1 + (last - (start + 1)) = last := by
      rw [List.length_take]
      omega
    have first : 0 + (w.tokens.take start).length = start := by
      rw [List.length_take]
      omega
    rw [length, place, first] at member
    refine ⟨owned, _, member, rfl, node, ?_, isGroup, tokens⟩
    rw [parsed.tree_eq]
    exact found
  refine ⟨fun id node bracket found isGroup => ?_, fun pair member => ?_⟩
  · rw [parsed.tree_eq] at found
    obtain ⟨_, pair, member, _, has⟩ := paired id node bracket found isGroup
    exact ⟨pair, member, has⟩
  · obtain ⟨rootNode, foundRoot, _, rootTokens⟩ := parsed.root
    obtain ⟨i, place, isOpening⟩ := (opener_of_pair matched member).resolve_left List.not_mem_nil
    rw [Nat.zero_add] at place
    subst place
    have inBounds := (List.getElem?_eq_some_iff.mp isOpening).1
    rw [tokens_getElem?] at isOpening
    obtain ⟨id, node, found, _, isGroup, startEq⟩ := valid.node_of_opening foundRoot List.not_mem_nil
      (by rw [rootTokens]; exact Nat.zero_le _)
      (by rw [rootTokens]; simpa [parsed.tokens_eq] using inBounds) isOpening
    obtain ⟨owned, other, otherMember, sameFirst, has⟩ := paired id node _ found isGroup
    have distinct := nodup_firsts matched (by simp) (by simp)
    have same : other = pair :=
      List.inj_on_of_nodup_map distinct otherMember member (sameFirst.trans startEq)
    refine ⟨id, same ▸ has, ?_⟩
    rintro id' ⟨node', found', isGroup', tokens'⟩
    rw [parsed.tree_eq] at found'
    have owned' := (paired id' node' _ found' isGroup').1
    rw [tokens'] at owned'
    rw [startEq] at owned
    exact Option.some.inj (owned'.symm.trans owned)

end Workspace.Parsed

/-! ## Failures -/

/-- The errors about a token as such: a bracket without its other half, or a token in no group. -/
def ReduceErrorKind.Stray : ReduceErrorKind → Prop
  | unmatchedClose _ | unclosedBracket _ | unexpectedToken _ => True
  | _ => False

namespace Items

variable {α β : Type} {bad : ReduceErrorKind → Prop}

/-- The result is no `bad` failure, and satisfies `post` if it is a success. -/
def Avoids (bad : ReduceErrorKind → Prop) (result : Except ReduceErrorKind α) (post : α → Prop) : Prop :=
  match result with
  | .ok a => post a
  | .error kind => ¬ bad kind

theorem Avoids.bind {result : Except ReduceErrorKind α} {f : α → Except ReduceErrorKind β}
    {middle : α → Prop} {post : β → Prop} (first : Avoids bad result middle)
    (next : ∀ a, middle a → Avoids bad (f a) post) : Avoids bad (result >>= f) post := by
  cases result with
  | ok a => exact next a first
  | error kind => exact first

theorem Avoids.mono {result : Except ReduceErrorKind α} {bad' : ReduceErrorKind → Prop}
    {post post' : α → Prop} (avoids : Avoids bad result post) (fewer : ∀ kind, bad' kind → bad kind)
    (weaker : ∀ a, post a → post' a) : Avoids bad' result post' := by
  cases result with
  | ok a => exact weaker a avoids
  | error kind => exact fun isBad => avoids (fewer kind isBad)

variable {inner : Inner} {group : Group} {groups : List Group} {left right items : List Item} {t : Token}
  {n : Nat} {allowed : Token → Prop}

/-- The actions for tokens that are no brackets report what is missing next to the token. -/
theorem act_avoids_stray (inner : Inner) (left right : List Item) (plain : t.isBracket = false) :
    Avoids ReduceErrorKind.Stray (act inner left t right) fun _ => True := by
  cases t with
  | opening | closing => cases plain
  | ident | int | void | u64 | returnWord => trivial
  | arrow =>
      simp only [act, arrow]
      repeat' split
      all_goals first | exact id | trivial
  | plus =>
      simp only [act, sum]
      repeat' split
      all_goals first | exact id | trivial
  | printWord =>
      simp only [act, print]
      split
      · trivial
      · exact id
  | doubleColon =>
      simp only [act, inferred]
      repeat' split
      all_goals first | exact id | trivial
  | colon =>
      simp only [act, annotated]
      repeat' split
      all_goals first | exact id | trivial
  | equals =>
      simp only [act, assign]
      repeat' split
      all_goals first | exact id | trivial
  | comma | semicolon =>
      simp only [act, terminated]
      split
      · trivial
      · exact id

/-! ### Passes -/

/-- A pass fails as its actions do, and leaves no token of its group: an action puts a form in the
place of its token, so what is bare in the end was bare before and was not accepted. -/
theorem scanRight_avoids
    (acts : ∀ left t right, allowed t → group.accepts t = true → left.length + right.length < n →
      Avoids bad (act inner left t right) fun _ => True)
    (short : left.length + right.length ≤ n) (ahead : ∀ t, .token t ∈ right → allowed t)
    (behind : ∀ t, .token t ∈ left → allowed t ∧ group.accepts t = false) :
    Avoids bad (scanRight inner group left right) fun items =>
      items.length ≤ n ∧ ∀ t, .token t ∈ items → allowed t ∧ group.accepts t = false := by
  fun_induction scanRight inner group left right with
  | case1 left => exact ⟨by simpa using short, fun t member => behind t (List.mem_reverse.mp member)⟩
  | case2 left f right ih =>
      refine ih (by simp at short ⊢; omega) (fun t member => ahead t (List.mem_cons_of_mem _ member))
        fun t member => behind t ?_
      simpa using member
  | case3 left t right accepted ih =>
      have room : left.length + right.length < n := by
        simp at short
        omega
      refine (acts left t right (ahead t List.mem_cons_self) accepted room).bind fun fold _ => ?_
      refine ih fold (by simp; omega)
        (fun t member => ahead t (List.mem_cons_of_mem _ (List.mem_of_mem_drop member)))
        fun t member => behind t (List.mem_of_mem_drop (i := fold.before) ?_)
      simpa using member
  | case4 left t right refused ih =>
      refine ih (by simp at short ⊢; omega) (fun t member => ahead t (List.mem_cons_of_mem _ member))
        fun other member => ?_
      rcases List.mem_cons.mp member with same | old
      · cases same
        exact ⟨ahead t List.mem_cons_self, by simpa using refused⟩
      · exact behind other old

theorem scanLeft_avoids
    (acts : ∀ left t right, allowed t → group.accepts t = true → left.length + right.length < n →
      Avoids bad (act inner left t right) fun _ => True)
    (short : left.length + right.length ≤ n) (ahead : ∀ t, .token t ∈ left → allowed t)
    (behind : ∀ t, .token t ∈ right → allowed t ∧ group.accepts t = false) :
    Avoids bad (scanLeft inner group right left) fun items =>
      items.length ≤ n ∧ ∀ t, .token t ∈ items → allowed t ∧ group.accepts t = false := by
  fun_induction scanLeft inner group right left with
  | case1 right => exact ⟨by simpa using short, behind⟩
  | case2 right f left ih =>
      refine ih (by simp at short ⊢; omega) (fun t member => ahead t (List.mem_cons_of_mem _ member))
        fun t member => behind t ?_
      simpa using member
  | case3 right t left accepted ih =>
      have room : left.length + right.length < n := by
        simp at short
        omega
      refine (acts left t right (ahead t List.mem_cons_self) accepted room).bind fun fold _ => ?_
      refine ih fold (by simp; omega)
        (fun t member => ahead t (List.mem_cons_of_mem _ (List.mem_of_mem_drop member)))
        fun t member => behind t (List.mem_of_mem_drop (i := fold.after) ?_)
      simpa using member
  | case4 right t left refused ih =>
      refine ih (by simp at short ⊢; omega) (fun t member => ahead t (List.mem_cons_of_mem _ member))
        fun other member => ?_
      rcases List.mem_cons.mp member with same | old
      · cases same
        exact ⟨ahead t List.mem_cons_self, by simpa using refused⟩
      · exact behind other old

theorem pass_avoids
    (acts : ∀ left t right, allowed t → group.accepts t = true → left.length + right.length < n →
      Avoids bad (act inner left t right) fun _ => True)
    (short : items.length ≤ n) (tokens : ∀ t, .token t ∈ items → allowed t) :
    Avoids bad (pass inner items group) fun items =>
      items.length ≤ n ∧ ∀ t, .token t ∈ items → allowed t ∧ group.accepts t = false := by
  unfold pass
  split
  · exact scanRight_avoids acts (by simpa using short) tokens (by simp)
  · exact scanLeft_avoids acts (by simpa using short)
      (fun t member => tokens t (List.mem_reverse.mp member)) (by simp)

/-- After some passes no token of their groups is bare. -/
theorem passes_avoid
    (acts : ∀ left t right, allowed t → (∃ group ∈ groups, group.accepts t = true) →
      left.length + right.length < n → Avoids bad (act inner left t right) fun _ => True)
    (short : items.length ≤ n) (tokens : ∀ t, .token t ∈ items → allowed t) :
    Avoids bad (groups.foldlM (pass inner) items) fun items =>
      ∀ t, .token t ∈ items → allowed t ∧ ∀ group ∈ groups, group.accepts t = false := by
  induction groups generalizing allowed items with
  | nil => exact fun t member => ⟨tokens t member, by simp⟩
  | cons group groups ih =>
      rw [List.foldlM_cons]
      refine (pass_avoids (fun left t right isAllowed accepted =>
        acts left t right isAllowed ⟨group, List.mem_cons_self, accepted⟩) short tokens).bind
          fun items' passed => ?_
      refine (ih (fun left t right isAllowed ⟨other, member, accepted⟩ => acts left t right isAllowed.1
        ⟨other, List.mem_cons_of_mem _ member, accepted⟩) passed.1 passed.2).mono (fun _ => id) ?_
      intro last done t member
      refine ⟨(done t member).1.1, fun other isGroup => ?_⟩
      rcases List.mem_cons.mp isGroup with rfl | isLater
      · exact (done t member).1.2
      · exact (done t member).2 other isLater

theorem finish_avoids (tokens : ∀ t, .token t ∈ items → ¬ bad (leftover t)) :
    Avoids bad (finish items) fun _ => True := by
  induction items with
  | nil => trivial
  | cons item items ih =>
      cases item with
      | token t => exact tokens t List.mem_cons_self
      | part f =>
          exact (ih fun t member => tokens t (List.mem_cons_of_mem _ member)).bind fun _ _ => trivial

/-- A token that is no bracket belongs to a group behind the first. -/
theorem grouped_of_plain (plain : t.isBracket = false) :
    ∃ group ∈ Group.byPriority.tail, group.accepts t = true := by
  cases t with
  | opening | closing => cases plain
  | ident | int | void | u64 => exact ⟨.leaf, by decide, rfl⟩
  | arrow => exact ⟨.arrow, by decide, rfl⟩
  | plus => exact ⟨.sum, by decide, rfl⟩
  | printWord | returnWord => exact ⟨.word, by decide, rfl⟩
  | doubleColon | colon => exact ⟨.binding, by decide, rfl⟩
  | equals => exact ⟨.assign, by decide, rfl⟩
  | comma | semicolon => exact ⟨.terminator, by decide, rfl⟩

/-! ### No token is unexpected -/

/-- Every token that no group has claimed is an opener. -/
theorem opening_of_unclaimed (unclaimed : ∀ group ∈ Group.byPriority, group.accepts t = false) :
    ∃ bracket, t = .opening bracket := by
  cases kind : t.isBracket with
  | false =>
      obtain ⟨group, member, accepted⟩ := grouped_of_plain kind
      exact absurd (unclaimed group (List.mem_of_mem_tail member)) (by simp [accepted])
  | true =>
      cases t with
      | opening bracket => exact ⟨bracket, rfl⟩
      | closing bracket => cases unclaimed .bracket List.mem_cons_self
      | _ => cases kind

/-- Only the inside of brackets could report a token as unexpected. -/
theorem act_avoids_unexpected {left right : List Item} {t : Token}
    (insides : ∀ items, items.length ≤ left.length →
      Avoids (fun kind => ∃ t, kind = .unexpectedToken t) (inner items) fun _ => True) :
    Avoids (fun kind => ∃ t, kind = .unexpectedToken t) (act inner left t right) fun _ => True := by
  cases kind : t.isBracket with
  | false =>
      refine (act_avoids_stray inner left right kind).mono ?_ fun _ => id
      rintro _ ⟨t, rfl⟩
      trivial
  | true =>
      cases t with
      | opening bracket => rintro ⟨t, ⟨⟩⟩
      | closing bracket =>
          simp only [act, close]
          split
          · rintro ⟨t, ⟨⟩⟩
          · exact (insides _ (by simp)).bind fun _ _ => trivial
      | _ => cases kind

theorem reduce_avoids_unexpected {depth : Nat} (short : items.length < depth) :
    Avoids (fun kind => ∃ t, kind = .unexpectedToken t) (reduce depth items) fun _ => True := by
  induction depth generalizing items with
  | zero => cases short
  | succ depth ih =>
      refine (passes_avoid (fun left t right (_ : True) _ room =>
          act_avoids_unexpected fun inside fewer =>
            ih (lt_of_le_of_lt (fewer.trans (Nat.le_add_right _ _)) room))
        (Nat.le_of_lt_succ short) fun _ _ => trivial).bind
        fun items' done => finish_avoids fun t member => ?_
      obtain ⟨bracket, rfl⟩ := opening_of_unclaimed (done t member).2
      exact fun ⟨t, isUnexpected⟩ => by cases isUnexpected

/-! ### Nested brackets -/

/-- Without bare brackets the passes behind the first claim every token. -/
theorem later_avoid_stray (inner : Inner) (plain : ∀ t, .token t ∈ items → t.isBracket = false) :
    Avoids ReduceErrorKind.Stray (Group.byPriority.tail.foldlM (pass inner) items >>= finish)
      fun _ => True := by
  refine (passes_avoid (fun left t right plain _ _ => act_avoids_stray inner left right plain) le_rfl
    plain).bind fun items' done => finish_avoids fun t member => ?_
  obtain ⟨group, isGroup, accepted⟩ := grouped_of_plain (done t member).1
  exact absurd ((done t member).2 group isGroup) (by simp [accepted])

theorem reduce_plain_avoids_stray {depth : Nat}
    (plain : ∀ t, .token t ∈ items → t.isBracket = false) :
    Avoids ReduceErrorKind.Stray (reduce (depth + 1) items) fun _ => True := by
  have refused : ∀ t, .token t ∈ items → Group.bracket.accepts t = false := by
    intro t member
    have notBracket := plain t member
    cases t <;> first | rfl | cases notBracket
  have first : pass (reduce depth) items .bracket = .ok items := scanRight_others refused
  show Avoids _ ((pass (reduce depth) items .bracket >>=
    Group.byPriority.tail.foldlM (pass (reduce depth))) >>= finish) _
  rw [first]
  exact later_avoid_stray _ plain

/-- The kind of a bare opener. -/
def opener? : Item → Option Bracket
  | .token (.opening bracket) => some bracket
  | _ => none

theorem eq_of_opener? {item : Item} {bracket : Bracket} (isOpener : opener? item = some bracket) :
    item = .token (.opening bracket) := by
  unfold opener? at isOpener
  split at isOpener <;> cases isOpener
  rfl

theorem plain_of_no_opener (noOpener : opener? (.token t) = none)
    (refused : Group.bracket.accepts t = false) : t.isBracket = false := by
  cases t with
  | opening => cases noOpener
  | closing => cases refused
  | _ => rfl

/-- What `closed` folds away behind the opener is a name at most. -/
theorem filterMap_opener?_closed (bracket : Bracket) (children : List Form)
    (inside outside : List Item) :
    ((inside ++ .token (.opening bracket) :: outside).drop
      (closed bracket children inside.length outside).before).filterMap opener? =
      outside.filterMap opener? := by
  unfold closed
  split <;> rw [List.drop_length_add_append] <;> rfl

/-- The nearest opener is found when none is nearer. -/
theorem findIdx?_isOpener {bracket : Bracket} {inside outside : List Item}
    (noOpener : ∀ item ∈ inside, opener? item = none) :
    (inside ++ .token (.opening bracket) :: outside).findIdx? (isOpener bracket) =
      some inside.length := by
  have notInside : inside.findIdx? (isOpener bracket) = none := by
    rw [List.findIdx?_eq_none_iff]
    intro item member
    cases item with
    | part f => rfl
    | token t =>
        have other := noOpener _ member
        cases t <;> first | rfl | cases other
  rw [List.findIdx?_append, notInside, List.findIdx?_cons]
  simp [isOpener]

/-- The first pass over properly nested tokens: the bare openers behind the walk are the stack, so a
closing bracket finds its own opener first, and no bracket is bare between the two. -/
theorem closes_nested {p : Nat} {stack : List (Bracket × Nat)} {tokens : List Token}
    {pairs : List BracketPair}
    (insides : ∀ items, (∀ t, .token t ∈ items → t.isBracket = false) →
      Avoids ReduceErrorKind.Stray (inner items) fun _ => True)
    (matched : matchFrom p stack tokens = some pairs)
    (waiting : left.filterMap opener? = stack.map (·.1))
    (behind : ∀ t, .token t ∈ left → Group.bracket.accepts t = false) :
    Avoids ReduceErrorKind.Stray (scanRight inner .bracket left (tokens.map .token)) fun items =>
      ∀ t, .token t ∈ items → t.isBracket = false := by
  induction tokens generalizing p stack pairs left with
  | nil =>
      unfold matchFrom at matched
      split at matched <;> cases matched
      next noneWaits =>
      rw [List.isEmpty_iff.mp noneWaits, List.map_nil, List.filterMap_eq_nil_iff] at waiting
      rw [List.map_nil, scanRight]
      intro t member
      have member := List.mem_reverse.mp member
      exact plain_of_no_opener (waiting _ member) (behind t member)
  | cons t tokens ih =>
      rw [List.map_cons]
      cases kind : t.isBracket with
      | false =>
          have refused : Group.bracket.accepts t = false := by
            cases t <;> first | rfl | cases kind
          rw [matchFrom_plain kind] at matched
          rw [scanRight_other refused]
          refine ih matched ?_ (by simpa [refused] using behind)
          rw [List.filterMap_cons_none, waiting]
          cases t <;> first | rfl | cases kind
      | true =>
          cases t with
          | opening bracket =>
              rw [scanRight_other rfl]
              rw [matchFrom_opening] at matched
              refine ih matched ?_ ?_
              · rw [List.map_cons, ← waiting]
                rfl
              · intro t member
                rcases List.mem_cons.mp member with same | old
                · cases same
                  rfl
                · exact behind t old
          | closing bracket =>
              obtain ⟨q, outer, others, rfl, matched', rfl⟩ := matchFrom_closing matched
              rw [List.map_cons] at waiting
              obtain ⟨inside, opener, outside, rfl, noOpener, isOpener, outerWaits⟩ :=
                List.filterMap_eq_cons_iff.mp waiting
              obtain rfl : opener = .token (.opening bracket) := eq_of_opener? isOpener
              have plain : ∀ t, .token t ∈ inside.reverse → t.isBracket = false := by
                intro t member
                have member := List.mem_reverse.mp member
                exact plain_of_no_opener (noOpener _ member) (behind t (List.mem_append_left _ member))
              have closes : Avoids ReduceErrorKind.Stray (act inner
                  (inside ++ .token (.opening bracket) :: outside) (.closing bracket)
                  (tokens.map .token)) fun fold => ∃ children,
                    fold = closed bracket children inside.length outside := by
                simp only [act, close, findIdx?_isOpener noOpener, List.take_left]
                refine (insides _ plain).bind fun children _ => ⟨children, ?_⟩
                simp
              rw [scanRight, if_pos (show Group.bracket.accepts (.closing bracket) = true from rfl)]
              refine closes.bind ?_
              rintro _ ⟨children, rfl⟩
              rw [closed_after, List.drop_zero]
              refine ih matched' ?_ fun t member => behind t (List.mem_of_mem_drop
                (i := (closed bracket children inside.length outside).before) ?_)
              · rw [List.filterMap_cons_none rfl, filterMap_opener?_closed, outerWaits]
              · simpa using member
          | _ => cases kind

/-- Properly nested tokens are reduced without an error about a token as such. -/
theorem reduce_avoids_stray {tokens : List Token} {depth : Nat}
    (nested : (bracketPairs? tokens).isSome = true) (deep : tokens.length < depth) :
    Avoids ReduceErrorKind.Stray (reduce depth (tokens.map .token)) fun _ => True := by
  obtain ⟨pairs, matched⟩ := Option.isSome_iff_exists.mp nested
  match depth with
  | 1 =>
      obtain rfl : tokens = [] := List.length_eq_zero_iff.mp (Nat.lt_one_iff.mp deep)
      exact reduce_plain_avoids_stray (by simp)
  | depth + 2 =>
      have first : Avoids ReduceErrorKind.Stray
          (scanRight (reduce (depth + 1)) .bracket [] (tokens.map .token)) _ :=
        closes_nested (fun items plain => reduce_plain_avoids_stray plain) matched rfl (by simp)
      show Avoids _ ((pass (reduce (depth + 1)) (tokens.map .token) .bracket >>=
        Group.byPriority.tail.foldlM (pass (reduce (depth + 1)))) >>= finish) _
      rw [bind_assoc]
      exact first.bind fun items plain => later_avoid_stray _ plain

/-- What the reduction of items avoids, the reduction of lexemes avoids. -/
theorem Avoids.kind {related : α → β → Prop} {result : Except ReduceErrorKind α} {post : α → Prop}
    {error : ReduceError} (avoids : Avoids bad result post)
    (agrees : Workspace.Agrees related result (.error error)) : ¬ bad error.kind := by
  cases result with
  | ok a => exact agrees.elim
  | error kind =>
      rw [show error.kind = kind from agrees]
      exact avoids

end Items

/-- Brackets are paired as a stack pairs them. The bracket nodes of a tree are the pairs of its tokens,
one node for each; properly nested brackets are never reported as open or unmatched; and no token is
ever unexpected. -/
theorem brackets_match_by_nesting (lexemes : List Lexeme) :
    let tokens := lexemes.map fun lexeme => lexeme.token
    (∀ tree, reduce lexemes = .ok tree →
      ∃ pairs, bracketPairs? tokens = some pairs ∧ tree.BracketsAre pairs) ∧
    ((bracketPairs? tokens).isSome = true → ∀ error, reduce lexemes = .error error →
      (∀ t, error.kind ≠ .unmatchedClose t) ∧ ∀ t, error.kind ≠ .unclosedBracket t) ∧
    ∀ error, reduce lexemes = .error error → ∀ t, error.kind ≠ .unexpectedToken t := by
  intro tokens
  have agrees := Workspace.reduce_agrees lexemes
  have bare : Workspace.bareItems lexemes = tokens.map .token := by
    rw [Workspace.bareItems, List.map_map]
    rfl
  refine ⟨fun tree reduced => ?_, fun nested error reduced => ?_, fun error reduced t unexpected => ?_⟩
  · rw [reduced] at agrees
    obtain ⟨children, _, w, forms, parsed⟩ := agrees.of_ok
    obtain ⟨pairs, matched⟩ := parsed.nested
    exact ⟨pairs, matched, parsed.bracketsAre matched⟩
  · rw [reduced, bare] at agrees
    have good := (Items.reduce_avoids_stray nested (by simp [tokens])).kind agrees
    exact ⟨fun t unmatched => good (by rw [unmatched]; trivial),
      fun t unclosed => good (by rw [unclosed]; trivial)⟩
  · rw [reduced] at agrees
    refine (Items.reduce_avoids_unexpected ?_).kind agrees ⟨t, unexpected⟩
    simp [Workspace.bareItems]

theorem brackets_match_in_printedSum : ∃ tree pairs, reduce printedSum = .ok tree ∧
    bracketPairs? (printedSum.map fun lexeme => lexeme.token) = some pairs ∧ pairs.length = 3 ∧
    tree.BracketsAre pairs := by
  have accepted : (reduce printedSum).isOk = true := by decide +kernel
  obtain ⟨tree, reduced⟩ := exists_of_isOk accepted
  obtain ⟨pairs, matched, are⟩ := (brackets_match_by_nesting printedSum).1 tree reduced
  have three : (bracketPairs? (printedSum.map fun lexeme => lexeme.token)).map List.length = some 3 := by
    decide
  rw [matched] at three
  exact ⟨tree, pairs, reduced, matched, Option.some.inj three, are⟩

end Rill

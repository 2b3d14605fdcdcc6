import Mathlib
import Rill.Proofs.Reduction.Items
import Rill.Proofs.Reduction.Merging

/-!
# Actions on a workspace and on items

A site is a bare token of a range under reduction, with the pieces around it. An action at a site does
to the workspace what it does to the items: it fails in the same way, or it folds the same pieces into
a node with the form the items say (`Agrees`, `Acted`).

* `Site.before?_eq` and `Ready.nodeAt?_eq` say which node an action finds next to its token: the
  first piece on that side.
* `Site.acted_fold` adds the node. Its layout has to be the token with the pieces it takes, and it has to
  claim the bare tokens among them.
-/

namespace Rill

namespace Workspace

variable {w w' w'' : Workspace} {target n : NodeId} {lo hi p : Nat} {forms forms' : NodeId → Form}
  {opens : List NodeId} {pieces rest left right : List (Piece NodeId)} {t : Token}

/-! ## Agreement -/

/-- Two results agree: both are failures of one kind, or both are successes that are related. -/
def Agrees {α β : Type} (related : α → β → Prop) :
    Except ReduceErrorKind α → Except ReduceError β → Prop
  | .ok a, .ok b => related a b
  | .error kind, .error error => error.kind = kind
  | _, _ => False

section Agrees

variable {α β γ δ : Type} {related : α → β → Prop} {related' : γ → δ → Prop}

theorem Agrees.bind {x : Except ReduceErrorKind α} {y : Except ReduceError β}
    {f : α → Except ReduceErrorKind γ} {g : β → Except ReduceError δ} (agrees : Agrees related x y)
    (next : ∀ a b, related a b → Agrees related' (f a) (g b)) : Agrees related' (x >>= f) (y >>= g) := by
  cases x with
  | ok a =>
      cases y with
      | ok b => exact next a b agrees
      | error => exact agrees.elim
  | error =>
      cases y with
      | ok => exact agrees.elim
      | error => exact agrees

theorem Agrees.mono {related' : α → β → Prop} {x : Except ReduceErrorKind α} {y : Except ReduceError β}
    (agrees : Agrees related x y) (weaker : ∀ a b, related a b → related' a b) :
    Agrees related' x y := by
  cases x with
  | ok a =>
      cases y with
      | ok b => exact weaker a b agrees
      | error => exact agrees.elim
  | error =>
      cases y with
      | ok => exact agrees.elim
      | error => exact agrees

theorem Agrees.of_ok {x : Except ReduceErrorKind α} {b : β} (agrees : Agrees related x (.ok b)) :
    ∃ a, x = .ok a ∧ related a b := by
  cases x with
  | ok a => exact ⟨a, rfl, agrees⟩
  | error => exact agrees.elim

theorem Agrees.ok {a : α} {y : Except ReduceError β} (agrees : Agrees related (.ok a) y) :
    ∃ b, y = .ok b ∧ related a b := by
  cases y with
  | ok b => exact ⟨b, rfl, agrees⟩
  | error => exact agrees.elim

theorem Agrees.error {kind : ReduceErrorKind} {y : Except ReduceError β}
    (agrees : Agrees related (.error kind) y) : ∃ error, y = .error error ∧ error.kind = kind := by
  cases y with
  | ok b => exact agrees.elim
  | error error => exact ⟨error, rfl, agrees⟩

theorem Agrees.foldlM {f : α → γ → Except ReduceErrorKind α} {g : β → γ → Except ReduceError β}
    (step : ∀ a b c, related a b → Agrees related (f a c) (g b c)) (cs : List γ) :
    ∀ {a b}, related a b → Agrees related (cs.foldlM f a) (cs.foldlM g b) := by
  induction cs with
  | nil => exact fun start => start
  | cons c cs ih =>
      intro a b start
      rw [List.foldlM_cons, List.foldlM_cons]
      exact (step a b c start).bind fun a' b' next => ih next

end Agrees

/-! ## Neighbours -/

/-- The pieces as the items they stand for. -/
abbrev itemsOf (forms : NodeId → Form) (pieces : List (Piece NodeId)) : List Item :=
  pieces.map (Piece.map forms)

theorem itemsOf_part (n : NodeId) (pieces : List (Piece NodeId)) :
    itemsOf forms (.part n :: pieces) = .part (forms n) :: itemsOf forms pieces := rfl

theorem itemsOf_token (t : Token) (pieces : List (Piece NodeId)) :
    itemsOf forms (.token t :: pieces) = .token t :: itemsOf forms pieces := rfl

/-- The node that covers a position, if the piece there is a node. -/
theorem Ready.nodeAt?_eq (ready : w.Ready forms opens target lo pieces hi)
    (tiles : w.Tiles target none p rest hi) (low : lo ≤ p)
    (inside : ∀ n, .part n ∈ rest → .part n ∈ pieces) :
    w.nodeAt? ⟨lo, hi⟩ target p = rest.head?.bind Piece.part? := by
  unfold nodeAt? TokenRange.contains
  cases tiles with
  | nil => simp
  | token _ bare _ => simp [bare]
  | @part _ m _ n node _ found isParent range shorter rest_ =>
      have high := rest_.le
      have inRange : (decide (lo ≤ p) && decide (p < hi)) = true := by
        simp only [Bool.and_eq_true, decide_eq_true_eq]
        omega
      rw [if_pos inRange, ready.hoisted (inside n (by simp)) found (by rw [range])
        (by rw [range]; exact shorter)]
      rfl

/-- The node just before a position, if the last piece there is a node. -/
theorem Ready.before?_eq (ready : w.Ready forms opens target lo pieces hi)
    (tiles : w.Tiles target none lo left.reverse p) (high : p ≤ hi)
    (inside : ∀ n, .part n ∈ left → .part n ∈ pieces) :
    w.before? ⟨lo, hi⟩ target p = left.head?.bind Piece.part? := by
  cases left with
  | nil =>
      cases tiles
      cases lo with
      | zero => rfl
      | succ lo => simp [before?, nodeAt?, TokenRange.contains]
  | cons piece left =>
      rw [List.reverse_cons, Tiles.append_iff] at tiles
      obtain ⟨m, first, last⟩ := tiles
      have low := first.le
      have inRange : ∀ i, m ≤ i → i < p → (decide (lo ≤ i) && decide (i < hi)) = true := by
        intro i low' high'
        simp only [Bool.and_eq_true, decide_eq_true_eq]
        omega
      cases last with
      | token _ bare none =>
          cases none
          rw [before?, nodeAt?]
          simp [bare]
      | @part _ m' _ n node _ found isParent range shorter none =>
          cases none
          obtain ⟨i, rfl⟩ : ∃ i, p = i + 1 := ⟨p - 1, by omega⟩
          rw [before?, nodeAt?, TokenRange.contains, if_pos (inRange i (by omega) (by omega)),
            ready.hoisted (inside n (by simp)) found (by rw [range]; simp only; omega)
              (by rw [range]; simp)]
          rfl

theorem Ready.has_eq (ready : w.Ready forms opens target lo pieces hi) (member : .part n ∈ pieces)
    {property : Construct NodeId → Bool} {property' : Construct Form → Bool}
    (same : ∀ c : Construct NodeId, property' (c.map forms) = property c) :
    w.has n property = property' (forms n).construct := by
  obtain ⟨node, found, _⟩ := ready.tiles.part_bounds member
  rw [has, found, Option.any_some, ready.valid.form n node found (ready.closed n member), same]

/-- What is next to a token: nothing of the kind that is looked for, or such a node. -/
theorem Ready.first_cases (ready : w.Ready forms opens target lo pieces hi)
    (inside : ∀ n, .part n ∈ rest → .part n ∈ pieces) {property : Construct NodeId → Bool}
    {property' : Construct Form → Bool}
    (same : ∀ c : Construct NodeId, property' (c.map forms) = property c) :
    ((rest.head?.bind Piece.part?).filter (w.has · property) = none ∧
      Items.first? property' (itemsOf forms rest) = none) ∨
    ∃ n more, rest = .part n :: more ∧
      (rest.head?.bind Piece.part?).filter (w.has · property) = some n ∧
      Items.first? property' (itemsOf forms rest) = some (forms n) := by
  cases rest with
  | nil => exact Or.inl ⟨rfl, rfl⟩
  | cons piece more =>
      cases piece with
      | token t => exact Or.inl ⟨rfl, rfl⟩
      | part n =>
          have equal := ready.has_eq (inside n (by simp)) same
          cases holds : w.has n property with
          | false =>
              rw [holds] at equal
              refine Or.inl ⟨?_, ?_⟩
              · simp [Option.filter, holds]
              · simp [Items.first?, Option.filter, ← equal]
          | true =>
              rw [holds] at equal
              refine Or.inr ⟨n, more, rfl, ?_, ?_⟩
              · simp [Option.filter, holds]
              · simp [Items.first?, Option.filter, ← equal]

/-- Positions in the parts of a range are claimed. -/
theorem Ready.claimed (ready : w.Ready forms opens target lo pieces hi) {a b : Nat}
    (tiles : w.Tiles target none a rest b) (inside : ∀ n, .part n ∈ rest → .part n ∈ pieces)
    (noTokens : ∀ t, .token t ∉ rest) {i : Nat} (low : a ≤ i) (high : i < b) : w.owner? i ≠ none := by
  intro bare
  rcases tiles.cover low high with ⟨t, member, _⟩ | ⟨n, node, member, found, _, low', high'⟩
  · exact noTokens t member
  · have hoisted := ready.hoisted (inside n member) found low' high'
    rw [bare] at hoisted
    cases hoisted

theorem Valid.inBounds (valid : w.Valid forms opens) (isToken : w.token? p = some t) :
    p < w.owners.size := by
  rw [token?, Option.map_eq_some_iff] at isToken
  obtain ⟨lexeme, found, _⟩ := isToken
  rw [valid.sizes]
  exact (Array.getElem?_eq_some_iff.mp found).1

/-- A single part that is tiled covers what it tiles. -/
theorem Tiles.tokensOf_eq {owner : Option NodeId} {a b : Nat}
    (tiles : w.Tiles target owner a [.part n] b) : w.tokensOf n = ⟨a, b⟩ := by
  cases tiles with
  | part found _ range _ none =>
      cases none
      rw [tokensOf, found]
      exact range

/-- Whether a second colon follows: the first piece is a bare colon, or it is not. -/
theorem Ready.colon_cases (ready : w.Ready forms opens target lo pieces hi)
    (tiles : w.Tiles target none p rest hi) (low : lo ≤ p)
    (inside : ∀ n, .part n ∈ rest → .part n ∈ pieces) :
    ((TokenRange.contains ⟨lo, hi⟩ p && !w.isClaimed p && w.token? p == some .colon) = false ∧
      Items.behindColon? (itemsOf forms rest) = none) ∨
    ∃ more, rest = .token .colon :: more ∧
      (TokenRange.contains ⟨lo, hi⟩ p && !w.isClaimed p && w.token? p == some .colon) = true ∧
      Items.behindColon? (itemsOf forms rest) = some (itemsOf forms more) := by
  cases tiles with
  | nil => exact Or.inl ⟨by simp [TokenRange.contains], rfl⟩
  | @token _ _ t more isToken bare more_ =>
      have high := more_.le
      by_cases isColon : t = .colon
      · subst isColon
        refine Or.inr ⟨more, rfl, ?_, rfl⟩
        simp only [TokenRange.contains, isClaimed, bare, isToken, low, decide_true, Bool.true_and,
          Option.isSome_none, Bool.not_false, Bool.and_true, BEq.rfl, decide_eq_true_eq]
        omega
      · refine Or.inl ⟨by simp [isToken, isColon], ?_⟩
        unfold Items.behindColon?
        split
        · next same =>
          simp only [itemsOf, List.map_cons, Piece.map_token, List.cons.injEq, Piece.token.injEq] at same
          exact absurd same.1 isColon
        · rfl
  | @part _ m _ n node more found _ range shorter _ =>
      have claimed : w.isClaimed p = true := by
        have hoisted := ready.hoisted (inside n (by simp)) found (i := p) (by rw [range])
          (by rw [range]; exact shorter)
        obtain ⟨owner, owned, _⟩ := Option.map_eq_some_iff.mp hoisted
        simp [isClaimed, owned]
      exact Or.inl ⟨by simp [claimed], rfl⟩

/-! ## Sites -/

/-- A bare token of a range under reduction, with the pieces to its left, nearest first, and those to
its right. -/
structure Site (w : Workspace) (forms : NodeId → Form) (opens : List NodeId) (target : NodeId)
    (lo hi p : Nat) (left : List (Piece NodeId)) (t : Token) (right : List (Piece NodeId)) : Prop where
  ready : w.Ready forms opens target lo (left.reverse ++ .token t :: right) hi
  before : w.Tiles target none lo left.reverse p
  isToken : w.token? p = some t
  bare : w.owner? p = none
  after : w.Tiles target none (p + 1) right hi

/-- A node over the token at `p` has taken the place of the pieces between `left` and `right`. -/
structure Acted (w w' : Workspace) (forms forms' : NodeId → Form) (opens : List NodeId)
    (target : NodeId) (lo hi p : Nat) (left right : List (Piece NodeId)) (n : NodeId) (form : Form) :
    Prop where
  ready : w'.Ready forms' opens target lo (left.reverse ++ .part n :: right) hi
  advances : w.Advances forms w' forms' target lo hi
  form_eq : forms' n = form
  low : (w'.tokensOf n).start ≤ p
  high : p < (w'.tokensOf n).stop

theorem Folded.acted {s e : Nat} {form : Form}
    (folded : w.Folded w' forms forms' opens target lo hi s e left.reverse right form) (low : s ≤ p)
    (high : p < e) : w.Acted w' forms forms' opens target lo hi p left right w.nodes.size form := by
  refine ⟨folded.ready, folded.advances, folded.form_eq, ?_, ?_⟩ <;> rw [folded.tokens_eq]
  · exact low
  · exact high

/-- What an action has done to the workspace when it has done `fold` to the items. -/
def Performed (w : Workspace) (forms : NodeId → Form) (opens : List NodeId) (target : NodeId)
    (lo hi p : Nat) (left right : List (Piece NodeId)) (fold : Items.Fold) (w' : Workspace) : Prop :=
  ∃ forms' n, w.Acted w' forms forms' opens target lo hi p (left.drop fold.before)
    (right.drop fold.after) n fold.form

namespace Site

theorem inLeft (member : .part n ∈ left) : .part n ∈ left.reverse ++ .token t :: right := by
  simp [member]

theorem inRight (member : .part n ∈ right) : .part n ∈ left.reverse ++ .token t :: right := by
  simp [member]

section

variable (site : w.Site forms opens target lo hi p left t right)

include site

theorem lo_le : lo ≤ p := site.before.le

theorem lt_hi : p < hi := site.after.le

theorem before?_eq : w.before? ⟨lo, hi⟩ target p = left.head?.bind Piece.part? :=
  site.ready.before?_eq site.before (Nat.le_of_lt site.lt_hi) fun _ => inLeft

theorem after?_eq : w.after? ⟨lo, hi⟩ target p = right.head?.bind Piece.part? :=
  site.ready.nodeAt?_eq site.after (Nat.le_succ_of_le site.lo_le) fun _ => inRight

theorem inBounds : p < w.owners.size :=
  site.ready.valid.inBounds site.isToken

end

section

variable {taken given : List (Piece NodeId)} {construct : Construct NodeId} {tokens : TokenRange}
  {claims : List Nat}

/-- Folding the token and the pieces around it into a node that is written with them. -/
theorem folded (site : w.Site forms opens target lo hi p (taken ++ left) t (given ++ right))
    (layout : construct.layout = taken.reverse ++ .token t :: given)
    (merged : w.Merged w' target construct tokens construct.parts claims)
    (range : ∀ s e, w.Tiles target none s taken.reverse p → w.Tiles target none (p + 1) given e →
      tokens = ⟨s, e⟩ ∧ ∀ i, i ∈ claims ↔ s ≤ i ∧ i < e ∧ w.owner? i = none) :
    tokens.start ≤ p ∧ p < tokens.stop ∧ ∃ forms', w.Folded w' forms forms' opens target lo hi
      tokens.start tokens.stop left.reverse right ⟨construct.map forms⟩ := by
  have before := site.before
  rw [List.reverse_append, Tiles.append_iff] at before
  obtain ⟨s, outerLeft, innerLeft⟩ := before
  obtain ⟨e, innerRight, outerRight⟩ := Tiles.append_iff.mp site.after
  obtain ⟨rfl, claimed⟩ := range s e innerLeft innerRight
  have covered : w.Tiles target none s construct.layout e := by
    rw [layout]
    exact innerLeft.append (.token site.isToken site.bare innerRight)
  have ready := site.ready
  have low := innerLeft.le
  have high := innerRight.le
  have opening : w.Opening w' forms opens target lo hi s e left.reverse construct.layout right construct
      claims := by
    refine ⟨?_, outerLeft, covered, outerRight, by omega, ?_, fun i member => (claimed i).mp member⟩
    · simpa [layout] using ready
    · rw [Construct.layout_parts]
      exact merged
  refine ⟨low, high, _, opening.fold (fun i low high bare => (claimed i).mpr ⟨low, high, bare⟩) ?_⟩
  intro n single
  have member : .token t ∈ construct.layout := by simp [layout]
  rw [single] at member
  simp at member

theorem merged_fold (old : ∀ n ∈ construct.parts, n < w.nodes.size) (inBounds : p < w.owners.size) :
    w.Merged (w.fold target p construct tokens) target construct tokens construct.parts [p] :=
  (merged_addNode old).claim inBounds

theorem old_parts (site : w.Site forms opens target lo hi p (taken ++ left) t (given ++ right))
    (layout : construct.layout = taken.reverse ++ .token t :: given) :
    ∀ n ∈ construct.parts, n < w.nodes.size := by
  intro n member
  have inLayout := Construct.part_mem_layout.mpr member
  rw [layout] at inLayout
  have inside : .part n ∈ (taken ++ left).reverse ++ .token t :: (given ++ right) := by
    simp only [List.mem_append, List.mem_reverse, List.mem_cons] at inLayout ⊢
    grind
  obtain ⟨node, found, _⟩ := site.ready.tiles.part_bounds inside
  exact lt_size found

/-- Folding the token and the nodes around it. -/
theorem acted_fold (taken given : List (Piece NodeId))
    (site : w.Site forms opens target lo hi p (taken ++ left) t (given ++ right))
    (layout : construct.layout = taken.reverse ++ .token t :: given)
    (nodesBefore : ∀ t, .token t ∉ taken) (nodesAfter : ∀ t, .token t ∉ given)
    (range : ∀ s e, w.Tiles target none s taken.reverse p → w.Tiles target none (p + 1) given e →
      tokens = ⟨s, e⟩) :
    ∃ forms' n, w.Acted (w.fold target p construct tokens) forms forms' opens target lo hi p left right
      n ⟨construct.map forms⟩ := by
  suffices claimed : ∀ s e, w.Tiles target none s taken.reverse p → w.Tiles target none (p + 1) given e →
      ∀ i, i ∈ [p] ↔ s ≤ i ∧ i < e ∧ w.owner? i = none by
    obtain ⟨low, high, forms', folded⟩ := site.folded layout
      (merged_fold (site.old_parts layout) site.inBounds) fun s e start stop =>
        ⟨range s e start stop, claimed s e start stop⟩
    exact ⟨forms', _, folded.acted low high⟩
  intro s e start stop i
  have low := start.le
  have high := stop.le
  rw [List.mem_singleton]
  constructor
  · rintro rfl
    exact ⟨low, high, site.bare⟩
  · rintro ⟨low', high', bare⟩
    by_contra different
    rcases Nat.lt_or_gt_of_ne different with earlier | later
    · refine site.ready.claimed start (fun n member => ?_) (by simpa using nodesBefore) low' earlier bare
      exact inLeft (by simpa using Or.inl (List.mem_reverse.mp member))
    · refine site.ready.claimed stop (fun n member => ?_) nodesAfter later high' bare
      exact inRight (List.mem_append_left _ member)

end

/-! ## Folding actions -/

section

variable {span : Span}

theorem makeLeaf_folded (construct : Construct NodeId)
    (site : w.Site forms opens target lo hi p left t right) (layout : construct.layout = [.token t])
    (noParts : construct.parts = []) :
    ∃ forms', w.Folded (w.makeLeaf target p construct) forms forms' opens target lo hi p (p + 1)
      left.reverse right ⟨construct.map forms⟩ := by
  have leaf : w.makeLeaf target p construct = w.fold target p construct ⟨p, p + 1⟩ := by
    rw [makeLeaf, fold, noParts]
  have site' : w.Site forms opens target lo hi p ([] ++ left) t ([] ++ right) := site
  have claimed : ∀ i, i ∈ [p] ↔ p ≤ i ∧ i < p + 1 ∧ w.owner? i = none := by
    intro i
    rw [List.mem_singleton]
    constructor
    · rintro rfl
      exact ⟨Nat.le_refl i, Nat.lt_succ_self i, site.bare⟩
    · omega
  have merged : w.Merged (w.fold target p construct ⟨p, p + 1⟩) target construct ⟨p, p + 1⟩
      construct.parts [p] := merged_fold (site'.old_parts layout) site'.inBounds
  obtain ⟨_, _, forms', folded⟩ := site'.folded layout merged fun s e start stop => by
    cases start
    cases stop
    exact ⟨rfl, claimed⟩
  exact ⟨forms', leaf ▸ folded⟩

theorem makeLeaf_performed {construct : Construct NodeId} {form : Form}
    (site : w.Site forms opens target lo hi p left t right) (layout : construct.layout = [.token t])
    (noParts : construct.parts = []) (same : ⟨construct.map forms⟩ = form) :
    w.Performed forms opens target lo hi p left right ⟨0, form, 0⟩ (w.makeLeaf target p construct) := by
  obtain ⟨forms', folded⟩ := makeLeaf_folded construct site layout noParts
  rw [same] at folded
  exact ⟨forms', _, folded.acted (Nat.le_refl p) (Nat.lt_succ_self p)⟩

theorem makeSum_agrees (site : w.Site forms opens target lo hi p left .plus right) :
    Agrees (w.Performed forms opens target lo hi p left right)
      (Items.sum (itemsOf forms left) (itemsOf forms right)) (w.makeSum ⟨lo, hi⟩ target p span) := by
  unfold makeSum Items.sum
  rw [site.before?_eq, site.after?_eq]
  rcases site.ready.first_cases (fun _ => inLeft) (Construct.isValue_map forms) with
    ⟨found, item⟩ | ⟨l, left, rfl, found, item⟩
  · rw [found, item]
    rfl
  rw [found, item]
  rcases site.ready.first_cases (fun _ => inRight) (Construct.isValue_map forms) with
    ⟨found', item'⟩ | ⟨r, right, rfl, found', item'⟩
  · rw [found', item']
    rfl
  rw [found', item']
  exact acted_fold [.part l] [.part r] site rfl (by simp) (by simp)
    fun s e start stop => by rw [start.tokensOf_eq, stop.tokensOf_eq]

theorem makePrint_agrees (site : w.Site forms opens target lo hi p left .printWord right) :
    Agrees (w.Performed forms opens target lo hi p left right)
      (Items.print (itemsOf forms right)) (w.makePrint ⟨lo, hi⟩ target p span) := by
  unfold makePrint Items.print
  rw [site.after?_eq]
  rcases site.ready.first_cases (fun _ => inRight) (Construct.isValue_map forms) with
    ⟨found, item⟩ | ⟨operand, right, rfl, found, item⟩
  · rw [found, item]
    rfl
  rw [found, item]
  refine acted_fold [] [.part operand] site rfl (by simp) (by simp) fun s e start stop => ?_
  cases start
  rw [stop.tokensOf_eq]

theorem makeReturn_performed (site : w.Site forms opens target lo hi p left .returnWord right) :
    w.Performed forms opens target lo hi p left right (Items.returnWith (itemsOf forms right))
      (w.makeReturn ⟨lo, hi⟩ target p) := by
  unfold makeReturn Items.returnWith
  rw [site.after?_eq]
  rcases site.ready.first_cases (fun _ => inRight) (Construct.isValue_map forms) with
    ⟨found, item⟩ | ⟨operand, right, rfl, found, item⟩
  · rw [found, item]
    refine acted_fold [] [] site rfl (by simp) (by simp) fun s e start stop => ?_
    cases start
    cases stop
    rfl
  · rw [found, item]
    refine acted_fold [] [.part operand] site rfl (by simp) (by simp) fun s e start stop => ?_
    cases start
    rw [Option.elim_some, stop.tokensOf_eq]

theorem makeInferred_agrees (site : w.Site forms opens target lo hi p left .doubleColon right) :
    Agrees (w.Performed forms opens target lo hi p left right)
      (Items.inferred (itemsOf forms left) (itemsOf forms right))
      (w.makeInferred ⟨lo, hi⟩ target p span) := by
  unfold makeInferred Items.inferred
  rw [site.before?_eq, site.after?_eq]
  rcases site.ready.first_cases (fun _ => inLeft) (Construct.isIdent_map forms) with
    ⟨found, item⟩ | ⟨name, left, rfl, found, item⟩
  · rw [found, item]
    rfl
  rw [found, item]
  rcases site.ready.first_cases (fun _ => inRight) (Construct.isValue_map forms) with
    ⟨found', item'⟩ | ⟨value, right, rfl, found', item'⟩
  · rw [found', item']
    rfl
  rw [found', item']
  exact acted_fold [.part name] [.part value] site rfl (by simp) (by simp)
    fun s e start stop => by rw [start.tokensOf_eq, stop.tokensOf_eq]

theorem makeAssign_agrees (site : w.Site forms opens target lo hi p left .equals right) :
    Agrees (w.Performed forms opens target lo hi p left right)
      (Items.assign (itemsOf forms left) (itemsOf forms right))
      (w.makeAssign ⟨lo, hi⟩ target p span) := by
  unfold makeAssign Items.assign
  rw [site.before?_eq, site.after?_eq]
  rcases site.ready.first_cases (fun _ => inLeft) (Construct.isIdent_map forms) with
    ⟨found, item⟩ | ⟨name, left, rfl, found, item⟩
  · rw [found, item]
    rfl
  rw [found, item]
  rcases site.ready.first_cases (fun _ => inRight) (Construct.isValue_map forms) with
    ⟨found', item'⟩ | ⟨value, right, rfl, found', item'⟩
  · rw [found', item']
    rfl
  rw [found', item']
  exact acted_fold [.part name] [.part value] site rfl (by simp) (by simp)
    fun s e start stop => by rw [start.tokensOf_eq, stop.tokensOf_eq]

theorem makeTerminated_agrees (lexeme : Lexeme) {wrap : NodeId → Construct NodeId}
    {wrap' : Form → Construct Form} (site : w.Site forms opens target lo hi p left lexeme.token right)
    (layout : ∀ operand, (wrap operand).layout = [.part operand, .token lexeme.token])
    (same : ∀ operand, (wrap operand).map forms = wrap' (forms operand)) :
    Agrees (w.Performed forms opens target lo hi p left right)
      (Items.terminated lexeme.token wrap' (itemsOf forms left))
      (w.makeTerminated ⟨lo, hi⟩ target p lexeme wrap) := by
  unfold makeTerminated Items.terminated
  rw [site.before?_eq]
  rcases site.ready.first_cases (fun _ => inLeft) (Construct.isExpression_map forms) with
    ⟨found, item⟩ | ⟨operand, left, rfl, found, item⟩
  · rw [found, item]
    rfl
  rw [found, item]
  obtain ⟨forms', n, acted⟩ : ∃ forms' n, w.Acted (w.fold target p (wrap operand)
      ⟨(w.tokensOf operand).start, p + 1⟩) forms forms' opens target lo hi p left right n
      ⟨(wrap operand).map forms⟩ := by
    refine acted_fold [.part operand] [] site (layout operand) (by simp) (by simp)
      fun s e start stop => ?_
    cases stop
    rw [start.tokensOf_eq]
  rw [same] at acted
  exact ⟨forms', n, acted⟩

theorem makeArrow_agrees (site : w.Site forms opens target lo hi p left .arrow right) :
    Agrees (w.Performed forms opens target lo hi p left right)
      (Items.arrow (itemsOf forms left) (itemsOf forms right)) (w.makeArrow ⟨lo, hi⟩ target p span) := by
  unfold makeArrow Items.arrow
  rw [site.before?_eq, site.after?_eq]
  rcases site.ready.first_cases (fun _ => inLeft) (Construct.isParen_map forms) with
    ⟨found, item⟩ | ⟨params, left, rfl, found, item⟩
  · rw [found, item]
    rfl
  rw [found, item]
  rcases site.ready.first_cases (fun _ => inRight) (Construct.isType_map forms) with
    ⟨found', item'⟩ | ⟨result, right, rfl, found', item'⟩
  · rw [found', item']
    rfl
  rw [found', item']
  obtain ⟨m, first, last⟩ := Tiles.append_iff.mp
    (show w.Tiles target none (p + 1) ([.part result] ++ right) hi from site.after)
  have beyond : w.nodeAt? ⟨lo, hi⟩ target (w.tokensOf result).stop = right.head?.bind Piece.part? := by
    rw [first.tokensOf_eq]
    refine site.ready.nodeAt?_eq last ?_ fun n member => inRight (List.mem_cons_of_mem _ member)
    exact (Nat.le_succ_of_le site.lo_le).trans first.le
  have isFunctionType : w.Performed forms opens target lo hi p (.part params :: left)
      (.part result :: right) ⟨1, ⟨.functionType (forms params) (forms result)⟩, 1⟩
      (w.fold target p (.functionType params result)
        ⟨(w.tokensOf params).start, (w.tokensOf result).stop⟩) :=
    acted_fold [.part params] [.part result] site rfl (by simp) (by simp)
      fun s e start stop => by rw [start.tokensOf_eq, stop.tokensOf_eq]
  simp only [beyond, List.map_cons, List.tail_cons]
  cases right with
  | nil => exact isFunctionType
  | cons piece right =>
      cases piece with
      | token t => exact isFunctionType
      | part body =>
          have curly : w.has body Construct.isCurly = (forms body).construct.isCurly :=
            site.ready.has_eq (inRight (by simp)) (Construct.isCurly_map forms)
          simp only [List.map_cons, List.head?_cons, Option.bind_some, Piece.map_part,
            Piece.part?_part, curly]
          cases (forms body).construct.isCurly with
          | false => rfl
          | true =>
              refine acted_fold [.part params] [.part result, .part body] site rfl (by simp) (by simp)
                fun s e start stop => ?_
              obtain ⟨m', _, lastBody⟩ := Tiles.append_iff.mp
                (show w.Tiles target none (p + 1) ([.part result] ++ [.part body]) e from stop)
              rw [start.tokensOf_eq, lastBody.tokensOf_eq]

/-- A binding with a type and a value has two tokens of its own, the colons. All others lie in its name,
in its type or in its value. -/
theorem own_colons {name type value : NodeId} {m s e i : Nat}
    (site : w.Site forms opens target lo hi p (.part name :: left) .colon
      (.part type :: .token .colon :: .part value :: right))
    (isName : w.Tiles target none s [.part name] p) (isType : w.Tiles target none (p + 1) [.part type] m)
    (bare : w.owner? m = none) (isValue : w.Tiles target none (m + 1) [.part value] e) :
    i ∈ [m, p] ↔ s ≤ i ∧ i < e ∧ w.owner? i = none := by
  have before := isName.le
  have between := isType.le
  have behind := isValue.le
  simp only [List.mem_cons, List.not_mem_nil, or_false]
  constructor
  · rintro (rfl | rfl)
    · exact ⟨by omega, by omega, bare⟩
    · exact ⟨by omega, by omega, site.bare⟩
  · rintro ⟨low, high, isBare⟩
    by_contra different
    rw [not_or] at different
    rcases (by omega : i < p ∨ (p + 1 ≤ i ∧ i < m) ∨ m + 1 ≤ i) with inName | inType | inValue
    · exact site.ready.claimed isName (by simp) (by simp) low inName isBare
    · exact site.ready.claimed isType (by simp) (by simp) inType.1 inType.2 isBare
    · exact site.ready.claimed isValue (by simp) (by simp) inValue high isBare

theorem makeAnnotated_agrees (site : w.Site forms opens target lo hi p left .colon right) :
    Agrees (w.Performed forms opens target lo hi p left right)
      (Items.annotated (itemsOf forms left) (itemsOf forms right))
      (w.makeAnnotated ⟨lo, hi⟩ target p span) := by
  unfold makeAnnotated Items.annotated
  rw [site.before?_eq, site.after?_eq]
  rcases site.ready.first_cases (fun _ => inLeft) (Construct.isIdent_map forms) with
    ⟨found, item⟩ | ⟨name, left, rfl, found, item⟩
  · rw [found, item]
    rfl
  rw [found, item]
  rcases site.ready.first_cases (fun _ => inRight) (Construct.isType_map forms) with
    ⟨found', item'⟩ | ⟨type, right, rfl, found', item'⟩
  · rw [found', item']
    rfl
  rw [found', item']
  obtain ⟨m, first, last⟩ := Tiles.append_iff.mp
    (show w.Tiles target none (p + 1) ([.part type] ++ right) hi from site.after)
  have low : p + 1 ≤ m := first.le
  have isPlain : w.Performed forms opens target lo hi p (.part name :: left) (.part type :: right)
      ⟨1, ⟨.binding (forms name) (some (forms type)) none⟩, 1⟩ (w.fold target p
        (.binding name (some type) none) ⟨(w.tokensOf name).start, (w.tokensOf type).stop⟩) :=
    acted_fold [.part name] [.part type] site rfl (by simp) (by simp)
      fun s e start stop => by rw [start.tokensOf_eq, stop.tokensOf_eq]
  simp only [List.map_cons, List.tail_cons]
  rw [first.tokensOf_eq] at isPlain ⊢
  have inside : ∀ n, .part n ∈ right →
      .part n ∈ (.part name :: left).reverse ++ .token .colon :: .part type :: right :=
    fun n member => inRight (List.mem_cons_of_mem _ member)
  rcases site.ready.colon_cases last ((Nat.le_succ_of_le site.lo_le).trans low) inside with
    ⟨noColon, item⟩ | ⟨right, rfl, isColon, item⟩
  · simp only [noColon, item, Bool.false_eq_true, if_false]
    exact isPlain
  simp only [isColon, item, if_true]
  cases last with
  | token isToken bare last =>
      have beyond : w.after? ⟨lo, hi⟩ target m = right.head?.bind Piece.part? := by
        refine site.ready.nodeAt?_eq last ?_ fun n member => inside n (List.mem_cons_of_mem _ member)
        have lower := site.lo_le
        omega
      rw [beyond]
      rcases site.ready.first_cases (fun n member => inside n (List.mem_cons_of_mem _ member))
        (Construct.isValue_map forms) with ⟨found, item⟩ | ⟨value, right, rfl, found, item⟩
      · rw [found, item]
        rfl
      rw [found, item]
      have layout : (Construct.binding name (some type) (some value)).layout =
          [.part name].reverse ++ .token .colon :: [.part type, .token .colon, .part value] := rfl
      have site' : w.Site forms opens target lo hi p ([.part name] ++ left) .colon
          ([.part type, .token .colon, .part value] ++ right) := site
      have colonBounds : m < w.owners.size := site.ready.valid.inBounds isToken
      suffices range : ∀ s e, w.Tiles target none s [.part name] p →
          w.Tiles target none (p + 1) [.part type, .token .colon, .part value] e →
          TokenRange.mk (w.tokensOf name).start (w.tokensOf value).stop = ⟨s, e⟩ ∧
            ∀ i, i ∈ [m, p] ↔ s ≤ i ∧ i < e ∧ w.owner? i = none by
        obtain ⟨low', high', forms', folded⟩ := site'.folded layout
          ((merged_fold (site'.old_parts layout) site'.inBounds).claim colonBounds) range
        exact ⟨forms', _, folded.acted low' high'⟩
      intro s e start stop
      obtain ⟨m', isType, colonValue⟩ := Tiles.append_iff.mp
        (show w.Tiles target none (p + 1) ([.part type] ++ [.token .colon, .part value]) e from stop)
      obtain rfl : m = m' := by simpa using first.tokensOf_eq.symm.trans isType.tokensOf_eq
      cases colonValue with
      | token _ _ isValue =>
          exact ⟨by rw [start.tokensOf_eq, isValue.tokensOf_eq], fun i =>
            site.own_colons start isType bare isValue⟩

end

end Site

end Workspace

end Rill

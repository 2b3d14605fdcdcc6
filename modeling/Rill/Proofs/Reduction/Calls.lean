import Mathlib
import Rill.Proofs.Reduction.Shapes

/-!
# The course of a reduction

The reduction of a range visits its positions in a fixed order (`stops`): the passes of all groups, one after the
other. Where it is after some of these visits is `Reaches`. At a bare closing bracket with an opener it calls the
reduction of what lies between them, which is then under way in its place.

    ( a ( b ) )     level 1: the whole list
        ( b )       level 2: called at the first closing bracket, and done before the second one is visited
    ( a ( b ) )     level 2: called at the second closing bracket

`Calls` lists all calls that the reduction of a list of lexemes makes, and `Underway` all workspaces it goes through,
with the range and the target that are then under reduction. Whether it fails in the end makes no difference.
`visit_congr` says that a visit makes no other call, and `Underway.ready` that the range is tiled at any time.
-/

namespace Rill

namespace Workspace

/-! ## Visits in order -/

/-- The visits of the reduction of a range, in order: the group of the pass, and the position. -/
def stops (range : TokenRange) : List (Group × Nat) :=
  Group.byPriority.flatMap fun group => (group.direction.order range).map (group, ·)

/-- Makes a visit. -/
def visitAt (nested : Nested) (range : TokenRange) (target : NodeId) (w : Workspace) (stop : Group × Nat) :
    Except ReduceError Workspace :=
  visit nested stop.1 range target w stop.2

/-- The reduction of a range from `w` on has come to the workspace `w'`, with the visits `ahead` still to be made. -/
def Reaches (nested : Nested) (range : TokenRange) (target : NodeId) (w : Workspace)
    (ahead : List (Group × Nat)) (w' : Workspace) : Prop :=
  ∃ done, stops range = done ++ ahead ∧ done.foldlM (visitAt nested range target) w = .ok w'

variable {w w' w'' : Workspace} {range : TokenRange} {target n : NodeId} {lo hi p : Nat}
  {forms forms' : NodeId → Form} {opens : List NodeId} {pieces left right : List (Piece NodeId)} {t : Token}
  {nested nested' : Nested} {group : Group} {index : Nat} {ahead done : List (Group × Nat)}
  {lexemes : List Lexeme} {level depth : Nat}

theorem mem_order {direction : Direction} :
    index ∈ direction.order range ↔ range.start ≤ index ∧ index < range.stop := by
  cases direction <;> simp only [Direction.order, TokenRange.indices, List.mem_reverse, List.mem_range'_1] <;>
    omega

theorem mem_stops {stop : Group × Nat} (member : stop ∈ stops range) :
    range.start ≤ stop.2 ∧ stop.2 < range.stop := by
  obtain ⟨group, _, inPass⟩ := List.mem_flatMap.mp member
  obtain ⟨index, inOrder, rfl⟩ := List.mem_map.mp inPass
  exact mem_order.mp inOrder

/-- The passes of all groups are the visits in order. -/
theorem foldlM_pass (nested : Nested) (range : TokenRange) (target : NodeId) (w : Workspace) :
    Group.byPriority.foldlM (pass nested range target) w =
      (stops range).foldlM (visitAt nested range target) w := by
  unfold stops
  induction Group.byPriority generalizing w with
  | nil => rfl
  | cons group groups ih =>
      rw [List.foldlM_cons, List.flatMap_cons, List.foldlM_append, List.foldlM_map]
      exact bind_congr fun w' => ih w'

/-- The reduction of a range whose bracket pairs are reduced by `nested`. -/
def reduceWith (nested : Nested) : Nested := fun w range target => do
  let w ← (stops range).foldlM (visitAt nested range target) w
  w.finish range target

theorem reduceRange_succ (depth : Nat) : reduceRange (depth + 1) = reduceWith (reduceRange depth) := by
  funext w range target
  rw [reduceRange, reduceWith, foldlM_pass]

/-! ## Calls -/

/-- The calls that the reduction of lexemes makes: a call of `reduceRange depth` for a workspace, a range and a target,
as the innermost of `level` calls. -/
inductive Calls (lexemes : List Lexeme) : (level depth : Nat) → Workspace → TokenRange → NodeId → Prop
  | whole : Calls lexemes 1 (lexemes.length + 1) (start lexemes) ⟨0, lexemes.length⟩ 0
  | inside {level depth : Nat} {w w' : Workspace} {range : TokenRange} {target : NodeId} {close opener : Nat}
      {ahead : List (Group × Nat)} {bracket : Bracket} :
      Calls lexemes level (depth + 1) w range target →
      Reaches (reduceRange depth) range target w ((.bracket, close) :: ahead) w' →
      w'.isClaimed close = false → w'.token? close = some (.closing bracket) →
      w'.opener? range bracket close = some opener →
      Calls lexemes (level + 1) depth (w'.openPair target bracket opener close) ⟨opener + 1, close⟩ w'.nodes.size

/-- The workspaces of the reduction of lexemes, with the range and the target that are then under reduction: as a call
finds them, and after any number of its visits. -/
inductive Underway (lexemes : List Lexeme) : Workspace → TokenRange → NodeId → Prop
  | called {level depth : Nat} {w : Workspace} {range : TokenRange} {target : NodeId} :
      Calls lexemes level depth w range target → Underway lexemes w range target
  | visiting {level depth : Nat} {w w' : Workspace} {range : TokenRange} {target : NodeId}
      {ahead : List (Group × Nat)} :
      Calls lexemes level (depth + 1) w range target → Reaches (reduceRange depth) range target w ahead w' →
      Underway lexemes w' range target

/-- Closing a pair calls the reduction of its inside, and nothing else. -/
theorem closeBracket_congr {bracket : Bracket} {close : Nat} {span : Span}
    (agree : ∀ opener, w.opener? range bracket close = some opener →
      nested (w.openPair target bracket opener close) ⟨opener + 1, close⟩ w.nodes.size =
        nested' (w.openPair target bracket opener close) ⟨opener + 1, close⟩ w.nodes.size) :
    w.closeBracket nested range target close bracket span =
      w.closeBracket nested' range target close bracket span := by
  unfold closeBracket
  cases found : w.opener? range bracket close with
  | none => rfl
  | some opener => exact congrArg (· >>= _) (agree opener found)

/-- A visit only calls the reduction of the inside of a pair, at its bare closing bracket. -/
theorem visit_congr
    (agree : ∀ bracket opener, group = .bracket → w.isClaimed index = false →
      w.token? index = some (.closing bracket) → w.opener? range bracket index = some opener →
      nested (w.openPair target bracket opener index) ⟨opener + 1, index⟩ w.nodes.size =
        nested' (w.openPair target bracket opener index) ⟨opener + 1, index⟩ w.nodes.size) :
    visit nested group range target w index = visit nested' group range target w index := by
  unfold visit
  cases found : w.lexemes[index]? with
  | none => rfl
  | some lexeme =>
      dsimp only
      split
      · next accepted =>
        rw [Bool.and_eq_true, Bool.not_eq_true'] at accepted
        obtain ⟨token, span⟩ := lexeme
        cases token with
        | closing bracket =>
            have isBracket : group = .bracket := by
              cases group with
              | bracket => rfl
              | _ => cases accepted.2
            have isToken : w.token? index = some (.closing bracket) := by
              rw [token?, found, Option.map_some]
            exact closeBracket_congr fun opener => agree bracket opener isBracket accepted.1 isToken
        | _ => rfl
      · rfl

/-! ## Ranges under way -/

/-- The pieces on both sides of a bare position. -/
theorem Tiles.bare_split {parent : NodeId} {a b : Nat} (tiles : w.Tiles parent none a pieces b)
    (claimed : ∀ (n : NodeId) (node : Node), .part n ∈ pieces → w.nodes[n]? = some node →
      node.tokens.start ≤ p → p < node.tokens.stop → w.owner? p ≠ none)
    (low : a ≤ p) (high : p < b) (bare : w.owner? p = none) :
    ∃ before t after, pieces = before ++ .token t :: after ∧ w.Tiles parent none a before p ∧
      w.token? p = some t ∧ w.Tiles parent none (p + 1) after b := by
  induction tiles with
  | nil => omega
  | @token a b t rest isToken owned rest_ ih =>
      by_cases here : p = a
      · subst here
        exact ⟨[], t, rest, rfl, .nil, isToken, rest_⟩
      · obtain ⟨before, t', after, rfl, first, found, last⟩ :=
          ih (fun n node member => claimed n node (List.mem_cons_of_mem _ member)) (by omega) high
        exact ⟨.token t :: before, t', after, rfl, .token isToken owned first, found, last⟩
  | @part a m b n node rest found isParent covers shorter rest_ ih =>
      have beyond : m ≤ p := by
        by_contra inside
        refine claimed n node List.mem_cons_self found ?_ ?_ bare <;> rw [covers]
        · exact low
        · exact Nat.not_le.mp inside
      obtain ⟨before, t', after, rfl, first, isToken, last⟩ :=
        ih (fun n node member => claimed n node (List.mem_cons_of_mem _ member)) beyond high
      exact ⟨.part n :: before, t', after, rfl, .part found isParent covers shorter first, isToken, last⟩

/-- A bare position of a range under reduction is a site. -/
theorem Ready.site (ready : w.Ready forms opens target lo pieces hi) (low : lo ≤ p) (high : p < hi)
    (bare : w.owner? p = none) : ∃ left t right, w.Site forms opens target lo hi p left t right := by
  obtain ⟨before, t, after, rfl, first, isToken, last⟩ := ready.tiles.bare_split
    (fun n node member found low high bare => by
      have hoisted := ready.hoisted member found low high
      rw [bare] at hoisted
      cases hoisted) low high bare
  refine ⟨before.reverse, t, after, ?_, ?_, isToken, bare, last⟩ <;> rw [List.reverse_reverse]
  · exact ready
  · exact first

/-- What a visit leaves: a range under reduction, in which the position is claimed if the group accepts its token. -/
theorem Ready.visit_step {inner : Items.Inner} (simulates : Simulates inner nested)
    (ready : w.Ready forms opens target lo pieces hi) (low : lo ≤ index) (high : index < hi)
    (visited : visit nested group ⟨lo, hi⟩ target w index = .ok w') :
    ∃ forms' pieces', w'.Ready forms' opens target lo pieces' hi ∧
      w.Advances forms w' forms' target lo hi ∧
      ∀ t, w.token? index = some t → group.accepts t = true → w'.owner? index ≠ none := by
  by_cases bare : w.owner? index = none
  · -- On a bare token the visit is the action of its group, or nothing if the group does not accept it.
    obtain ⟨left, t, right, site⟩ := ready.site low high bare
    obtain ⟨lexeme, isToken, visit_eq⟩ := site.visit_eq nested group ⟨lo, hi⟩
    rw [visit_eq] at visited
    by_cases accepted : group.accepts t = true
    · rw [if_pos accepted] at visited
      have agrees := site.act_agrees simulates isToken accepted
      rw [visited] at agrees
      obtain ⟨fold, _, forms', n, acted⟩ := agrees.of_ok
      obtain ⟨s, e, below, above, claimed, _⟩ := acted.gaps
      exact ⟨forms', _, acted.ready, acted.advances, fun _ _ _ => claimed index below above⟩
    · rw [if_neg accepted] at visited
      cases visited
      refine ⟨forms, pieces, ready, .refl .., fun t' isToken' accepted' => ?_⟩
      cases site.isToken.symm.trans isToken'
      exact absurd accepted' accepted
  · rw [visit_claimed bare] at visited
    cases visited
    exact ⟨forms, pieces, ready, .refl .., fun _ _ _ => bare⟩

theorem Step.claimed (step : w.Step w' target lo hi) (claimed : w.owner? index ≠ none) :
    w'.owner? index ≠ none := by
  rcases step.owners index with same | ⟨bare, _⟩
  · rwa [same]
  · exact absurd bare claimed

theorem Step.token?_eq (step : w.Step w' target lo hi) (index : Nat) : w'.token? index = w.token? index := by
  rw [token?, token?, step.lexemes]

/-- What visits leave: a range under reduction, in which every position visited is claimed if the group of the visit
accepts its token. -/
theorem Ready.visit_steps {inner : Items.Inner} (simulates : Simulates inner nested)
    (ready : w.Ready forms opens target lo pieces hi) (inRange : ∀ stop ∈ done, lo ≤ stop.2 ∧ stop.2 < hi)
    (visited : done.foldlM (visitAt nested ⟨lo, hi⟩ target) w = .ok w') :
    ∃ forms' pieces', w'.Ready forms' opens target lo pieces' hi ∧
      w.Advances forms w' forms' target lo hi ∧
      ∀ stop ∈ done, ∀ t, w.token? stop.2 = some t → stop.1.accepts t = true → w'.owner? stop.2 ≠ none := by
  induction done generalizing w forms pieces with
  | nil =>
      cases visited
      exact ⟨forms, pieces, ready, .refl .., by simp⟩
  | cons stop done ih =>
      obtain ⟨here, later⟩ := List.forall_mem_cons.mp inRange
      rw [List.foldlM_cons] at visited
      obtain ⟨w₁, first, rest⟩ := Except.bind_eq_ok visited
      obtain ⟨forms₁, pieces₁, ready₁, advances₁, claimed₁⟩ := ready.visit_step simulates here.1 here.2 first
      obtain ⟨forms', pieces', ready', advances', claimed'⟩ := ih ready₁ later rest
      refine ⟨forms', pieces', ready', advances₁.trans ready.valid advances', ?_⟩
      rw [List.forall_mem_cons]
      constructor
      · exact fun t isToken accepted => advances'.step.claimed (claimed₁ t isToken accepted)
      · exact fun other member t isToken =>
          claimed' other member t ((advances₁.step.token?_eq other.2).trans isToken)

/-- The range stays under reduction from one visit to the next. -/
theorem Ready.reaches (ready : w.Ready forms opens target lo pieces hi)
    (reaches : Reaches (reduceRange depth) ⟨lo, hi⟩ target w ahead w') :
    ∃ forms' pieces', w'.Ready forms' opens target lo pieces' hi ∧ w.Advances forms w' forms' target lo hi := by
  obtain ⟨done, inOrder, visited⟩ := reaches
  have inRange : ∀ stop ∈ stops ⟨lo, hi⟩, lo ≤ stop.2 ∧ stop.2 < hi := fun stop => mem_stops
  obtain ⟨forms', pieces', ready', advances, _⟩ := ready.visit_steps (reduceRange_simulates depth)
    (fun stop member => inRange stop (inOrder ▸ List.mem_append_left _ member)) visited
  exact ⟨forms', pieces', ready', advances⟩

/-- The inside of a pair is a range under reduction once the node of the pair is made. -/
theorem Ready.inside {bracket : Bracket} {close opener : Nat}
    (ready : w.Ready forms opens target lo pieces hi) (low : lo ≤ close) (high : close < hi)
    (bare : w.isClaimed close = false) (isToken : w.token? close = some (.closing bracket))
    (found : w.opener? ⟨lo, hi⟩ bracket close = some opener) :
    lo ≤ opener ∧ w.Step (w.openPair target bracket opener close) target lo hi ∧
      ∃ within, (w.openPair target bracket opener close).Ready forms (w.nodes.size :: opens) w.nodes.size
        (opener + 1) within close := by
  replace bare : w.owner? close = none := by simpa [isClaimed] using bare
  obtain ⟨left, t, right, site⟩ := ready.site low high bare
  cases isToken.symm.trans site.isToken
  rcases site.ready.opener_cases bracket site.before (fun n => Site.inLeft) with
    ⟨noOpener, _⟩ | ⟨within, outside, s, rfl, found', _, before, isOpening, bareOpener, between⟩
  · cases noOpener.symm.trans found
  · cases found'.symm.trans found
    have opening := site.opening before isOpening bareOpener between
    exact ⟨before.le, opening.step, within.reverse, opening.ready_inside between⟩

/-- Every call finds its range ready for reduction. -/
theorem Calls.ready (call : Calls lexemes level depth w range target) :
    ∃ forms opens pieces, w.Ready forms opens target range.start pieces range.stop := by
  induction call with
  | whole => exact ⟨fun _ => ⟨.void⟩, [0], _, start_ready _ lexemes⟩
  | inside _ reaches bare isToken found ih =>
      obtain ⟨forms, opens, pieces, ready⟩ := ih
      obtain ⟨forms', pieces', ready', _⟩ := ready.reaches reaches
      obtain ⟨done, inOrder, _⟩ := reaches
      have inRange := mem_stops (inOrder ▸ List.mem_append_right done List.mem_cons_self)
      obtain ⟨_, _, within, inside⟩ := ready'.inside inRange.1 inRange.2 bare isToken found
      exact ⟨forms', _, within, inside⟩

/-- The range under reduction is tiled at any time. -/
theorem Underway.ready (underway : Underway lexemes w range target) :
    ∃ forms opens pieces, w.Ready forms opens target range.start pieces range.stop := by
  cases underway with
  | called call => exact call.ready
  | visiting call reaches =>
      obtain ⟨forms, opens, pieces, ready⟩ := call.ready
      obtain ⟨forms', pieces', ready', _⟩ := ready.reaches reaches
      exact ⟨forms', opens, pieces', ready'⟩

/-! ## A pair inside a pair -/

/-- The lexemes of `((1+2))`. -/
def nestedSum : List Lexeme :=
  [⟨.opening .paren, ⟨0, 1⟩⟩, ⟨.opening .paren, ⟨1, 2⟩⟩, ⟨.int 1, ⟨2, 3⟩⟩, ⟨.plus, ⟨3, 4⟩⟩, ⟨.int 2, ⟨4, 5⟩⟩,
    ⟨.closing .paren, ⟨5, 6⟩⟩, ⟨.closing .paren, ⟨6, 7⟩⟩]

/-- What they are when the second closing bracket is visited. -/
def innerClosed : Workspace where
  lexemes := nestedSum.toArray
  owners := #[none, some 1, some 2, some 4, some 3, some 1, none]
  nodes := #[⟨.root [], ⟨0, 7⟩, ⟨0, 7⟩, none⟩, ⟨.paren [4], ⟨1, 6⟩, ⟨1, 6⟩, some 0⟩,
    ⟨.int 1, ⟨2, 3⟩, ⟨2, 3⟩, some 4⟩, ⟨.int 2, ⟨4, 5⟩, ⟨4, 5⟩, some 4⟩, ⟨.sum 2 3, ⟨2, 5⟩, ⟨2, 5⟩, some 1⟩]

/-- The call for the outer pair. The inner one is already claimed, and the ids of its nodes go up and down on the way to
the target: 2, 4, 1, 5. -/
theorem nestedSum_calls : Calls nestedSum 2 7 (innerClosed.openPair 0 .paren 0 6) ⟨1, 6⟩ 5 := by
  have reaches : Reaches (reduceRange 7) ⟨0, 7⟩ 0 (start nestedSum)
      ((.bracket, 6) :: (stops ⟨0, 7⟩).drop 7) innerClosed := ⟨(stops ⟨0, 7⟩).take 6, by decide, by decide⟩
  exact .inside .whole reaches (by decide) (by decide) (by decide)

end Workspace

end Rill

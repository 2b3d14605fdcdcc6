import Mathlib
import Rill.Proofs.Reduction.Items

/-!
# Forms in the middle of a reduction

Each pass makes its own constructs, so after some passes a form is seen in part: what these passes
make is there as a whole, and the rest is still spread out. `Form.view` is this list of items, from the
bare tokens (`view_zero`) to the form itself.

A form settles in a pass when the pass turns its view before into its view after (`Settles`). This
depends on the items around the form only through `Clear`: an arrow must not be followed by braces
that are not its own, nor a type by a colon that is not its own. A form that the pass does not make
settles when its parts do (`settles_of_parts`).
-/

namespace Rill

/-- The place of the group in the order of passes. -/
def Group.level : Group → Nat
  | bracket => 0
  | leaf => 1
  | arrow => 2
  | sum => 3
  | word => 4
  | binding => 5
  | assign => 6
  | terminator => 7

theorem Group.level_inj : ∀ {a b : Group}, a.level = b.level → a = b := by
  intro a b
  cases a <;> cases b <;> decide

/-- The group that a token belongs to. -/
def Group.of? : Token → Option Group
  | .closing _ => some bracket
  | .ident _ | .int _ | .void | .u64 => some leaf
  | .arrow => some arrow
  | .plus => some sum
  | .printWord | .returnWord => some word
  | .doubleColon | .colon => some binding
  | .equals => some assign
  | .semicolon | .comma => some terminator
  | .opening _ => none

theorem Group.of?_of_accepts {group : Group} {t : Token} (accepted : group.accepts t = true) :
    of? t = some group := by
  cases group <;> cases t <;> (try cases accepted) <;> rfl

namespace Construct

variable {α : Type}

/-- The place of the pass that makes the construct; the root is made by none. -/
def level : Construct α → Nat
  | paren _ | curly _ | call .. => Group.bracket.level
  | ident _ | int _ | void | u64 => Group.leaf.level
  | function .. | functionType .. => Group.arrow.level
  | sum .. => Group.sum.level
  | printU64 _ | returnWith _ => Group.word.level
  | binding .. => Group.binding.level
  | assign .. => Group.assign.level
  | statement _ | separator _ => Group.terminator.level
  | root _ => Group.terminator.level + 1

/-- Whether the construct ends in a terminator. -/
def isTerminated : Construct α → Bool
  | statement _ | separator _ => true
  | _ => false

/-- The tokens of a construct belong to the group that makes it, or to none. -/
theorem level_of_accepts {c : Construct α} {t : Token} {group : Group} (inLayout : .token t ∈ c.layout)
    (accepted : group.accepts t = true) : c.level = group.level := by
  have owner := Group.of?_of_accepts accepted
  cases c with
  | paren children | curly children =>
      simp only [layout, List.mem_cons, List.mem_append, List.mem_map, reduceCtorEq, and_false,
        exists_false, List.not_mem_nil, or_false, false_or, Piece.token.injEq] at inLayout
      rcases inLayout with rfl | rfl <;> cases owner
      rfl
  | returnWith operand =>
      cases operand <;> simp [layout] at inLayout <;> subst inLayout <;> cases owner <;> rfl
  | binding name type? value? =>
      cases type? <;> cases value? <;> simp [layout] at inLayout <;> subst inLayout <;> cases owner <;> rfl
  | _ => simp [layout] at inLayout <;> subst inLayout <;> cases owner <;> rfl

theorem level_of_opening {c : Construct α} {bracket : Bracket}
    (inLayout : .token (.opening bracket) ∈ c.layout) : c.level = Group.bracket.level := by
  cases c with
  | paren | curly => rfl
  | returnWith operand => cases operand <;> simp [layout] at inLayout
  | binding name type? value? => cases type? <;> cases value? <;> simp [layout] at inLayout
  | _ => simp [layout] at inLayout

end Construct

namespace Form

/-- The items of a form after the first `k` passes. -/
def view (k : Nat) (f : Form) : List Item :=
  if f.construct.level < k then [.part f]
  else f.construct.layout.attach.flatMap fun piece =>
    match piece with
    | ⟨.token t, _⟩ => [.token t]
    | ⟨.part g, _⟩ => g.view k
termination_by sizeOf f
decreasing_by exact sizeOf_part_lt ‹_›

/-- The items of a piece after the first `k` passes. -/
def shown (k : Nat) : Item → List Item
  | .token t => [.token t]
  | .part f => f.view k

variable {f : Form} {k : Nat}

theorem view_made (made : f.construct.level < k) : f.view k = [.part f] := by
  rw [view, if_pos made]

theorem view_unmade (unmade : k ≤ f.construct.level) :
    f.view k = f.construct.layout.flatMap (shown k) := by
  rw [view, if_neg (Nat.not_lt.mpr unmade)]
  exact flatMap_attach fun piece => by rcases piece with ⟨_ | _, _⟩ <;> rfl

/-- The root is made by no pass. -/
theorem view_root (children : List Form) (bounded : k ≤ Group.terminator.level + 1) :
    (⟨.root children⟩ : Form).view k = children.flatMap (view k) := by
  rw [view_unmade bounded, Construct.layout, List.flatMap_map]
  rfl

/-- A bare token of a view belongs to a construct that is still to be made. -/
theorem layout_of_view {t : Token} (member : .token t ∈ f.view k) :
    ∃ c : Construct Form, k ≤ c.level ∧ .token t ∈ c.layout := by
  induction size : sizeOf f using Nat.strong_induction_on generalizing f with
  | _ size ih =>
    by_cases made : f.construct.level < k
    · rw [view_made made] at member
      cases List.mem_singleton.mp member
    · have unmade := Nat.not_lt.mp made
      rw [view_unmade unmade, List.mem_flatMap] at member
      obtain ⟨piece, inLayout, member⟩ := member
      cases piece with
      | token t' =>
          cases List.mem_singleton.mp member
          exact ⟨f.construct, unmade, inLayout⟩
      | part g => exact ih (sizeOf g) (size ▸ sizeOf_part_lt inLayout) member rfl

/-- Before the first pass a form is its tokens. -/
theorem view_zero (f : Form) : f.view 0 = f.tokens.map .token := by
  induction size : sizeOf f using Nat.strong_induction_on generalizing f with
  | _ size ih =>
    rw [view_unmade (Nat.zero_le _), tokens_eq, List.map_flatMap]
    refine List.flatMap_congr fun piece member => ?_
    cases piece with
    | token t => rfl
    | part g => exact ih (sizeOf g) (size ▸ sizeOf_part_lt member) g rfl

end Form

namespace Items

variable {inner : Inner} {group : Group} {left right : List Item} {t : Token} {f : Form}

/-! ## One step of a walk -/

theorem scanRight_part : scanRight inner group left (.part f :: right) =
    scanRight inner group (.part f :: left) right := by
  rw [scanRight]

theorem scanLeft_part : scanLeft inner group right (.part f :: left) =
    scanLeft inner group (.part f :: right) left := by
  rw [scanLeft]

theorem scanRight_other (refused : group.accepts t = false) :
    scanRight inner group left (.token t :: right) = scanRight inner group (.token t :: left) right := by
  rw [scanRight, if_neg (by simp [refused])]

theorem scanLeft_other (refused : group.accepts t = false) :
    scanLeft inner group right (.token t :: left) = scanLeft inner group (.token t :: right) left := by
  rw [scanLeft, if_neg (by simp [refused])]

theorem scanRight_act {fold : Fold} (accepted : group.accepts t = true)
    (acts : act inner left t right = .ok fold) :
    scanRight inner group left (.token t :: right) =
      scanRight inner group (.part fold.form :: left.drop fold.before) (right.drop fold.after) := by
  rw [scanRight, if_pos accepted, acts]
  rfl

theorem scanLeft_act {fold : Fold} (accepted : group.accepts t = true)
    (acts : act inner left t right = .ok fold) :
    scanLeft inner group right (.token t :: left) =
      scanLeft inner group (.part fold.form :: right.drop fold.after) (left.drop fold.before) := by
  rw [scanLeft, if_pos accepted, acts]
  rfl

/-! ## Settling -/

/-- The pass of a group turns `before` into `after`, between the items on both sides. -/
def Moves (inner : Inner) (group : Group) (left before after right : List Item) : Prop :=
  match group.direction with
  | .leftToRight => scanRight inner group left (before ++ right) =
      scanRight inner group (after.reverse ++ left) right
  | .rightToLeft => scanLeft inner group right (before.reverse ++ left) =
      scanLeft inner group (after ++ right) left

theorem moves_nil : Moves inner group left [] [] right := by
  unfold Moves
  cases group.direction <;> rfl

theorem moves_part : Moves inner group left [.part f] [.part f] right := by
  unfold Moves
  cases group.direction with
  | leftToRight => exact scanRight_part
  | rightToLeft => exact scanLeft_part

theorem moves_other (refused : group.accepts t = false) :
    Moves inner group left [.token t] [.token t] right := by
  unfold Moves
  cases group.direction with
  | leftToRight => exact scanRight_other refused
  | rightToLeft => exact scanLeft_other refused

/-- Two lists next to each other, each of which moves whether the other has moved or not. -/
theorem Moves.append {a a' b b' : List Item} (first : Moves inner group left a a' (b ++ right))
    (first' : Moves inner group left a a' (b' ++ right))
    (second : ∀ left, Moves inner group left b b' right) :
    Moves inner group left (a ++ b) (a' ++ b') right := by
  unfold Moves at *
  cases direction : group.direction with
  | leftToRight =>
      simp only [direction] at first second ⊢
      rw [List.append_assoc, first, second, List.reverse_append, List.append_assoc]
  | rightToLeft =>
      simp only [direction] at first' second ⊢
      rw [List.reverse_append, List.append_assoc, second, first', List.append_assoc]

/-- What may follow a form in the pass of a group: not a node that an arrow or a return would take, and
not a colon that a type would take. -/
def Clear (group : Group) : List Item → Prop
  | [] => True
  | .part _ :: _ => group ≠ .arrow ∧ group ≠ .word
  | .token t :: _ => group = .binding → t ≠ .colon

/-- The pass of a group makes what it makes of the form, wherever the form may stand. -/
def Settles (inner : Inner) (group : Group) (f : Form) : Prop :=
  ∀ left right, f.construct.isTerminated = true ∨ Clear group right →
    Moves inner group left (f.view group.level) (f.view (group.level + 1)) right

/-- Every part of the list may stand where it stands, with `right` behind the list. -/
def Spaced (group : Group) (right : List Item) : List Item → Prop
  | [] => True
  | .token _ :: rest => Spaced group right rest
  | .part g :: rest =>
      (g.construct.isTerminated = true ∨ ∀ k, Clear group (rest.flatMap (Form.shown k) ++ right)) ∧
        Spaced group right rest

/-- Pieces move one by one. -/
theorem moves_pieces {pieces : List Item} (refused : ∀ t, .token t ∈ pieces → group.accepts t = false)
    (settles : ∀ g, .part g ∈ pieces → Settles inner group g) (spaced : Spaced group right pieces) :
    Moves inner group left (pieces.flatMap (Form.shown group.level))
      (pieces.flatMap (Form.shown (group.level + 1))) right := by
  induction pieces generalizing left with
  | nil => exact moves_nil
  | cons piece pieces ih =>
      have refused' : ∀ t, .token t ∈ pieces → group.accepts t = false :=
        fun t member => refused t (List.mem_cons_of_mem _ member)
      have settles' : ∀ g, .part g ∈ pieces → Settles inner group g :=
        fun g member => settles g (List.mem_cons_of_mem _ member)
      rw [List.flatMap_cons, List.flatMap_cons]
      cases piece with
      | token t =>
          have moves : ∀ right, Moves inner group left [.token t] [.token t] right :=
            fun right => moves_other (refused t (by simp))
          exact (moves _).append (moves _) fun left => ih refused' settles' spaced
      | part g =>
          have here := settles g (by simp) left
          refine Moves.append (here _ ?_) (here _ ?_) fun left => ih refused' settles' spaced.2
          · exact spaced.1.imp_right fun clear => clear group.level
          · exact spaced.1.imp_right fun clear => clear (group.level + 1)

/-- A form that an earlier pass has made stays as it is. -/
theorem settles_of_made (made : f.construct.level < group.level) : Settles inner group f := by
  intro left right _
  rw [Form.view_made made, Form.view_made (Nat.lt_succ_of_lt made)]
  exact moves_part

/-- A form that this pass makes settles when its view becomes the form. -/
theorem settles_of_now (now : f.construct.level = group.level)
    (moves : ∀ left right, f.construct.isTerminated = true ∨ Clear group right →
      Moves inner group left (f.construct.layout.flatMap (Form.shown group.level)) [.part f] right) :
    Settles inner group f := by
  intro left right clear
  rw [Form.view_unmade (Nat.le_of_eq now.symm), Form.view_made (Nat.lt_succ_of_le (Nat.le_of_eq now))]
  exact moves left right clear

/-- A form that a later pass makes settles when its parts do. -/
theorem settles_of_parts (later : group.level < f.construct.level)
    (parts : ∀ g ∈ f.construct.parts, Settles inner group g)
    (spaced : ∀ right, f.construct.isTerminated = true ∨ Clear group right →
      Spaced group right f.construct.layout) : Settles inner group f := by
  intro left right clear
  rw [Form.view_unmade (Nat.le_of_lt later), Form.view_unmade later]
  refine moves_pieces (fun t member => ?_)
    (fun g member => parts g (Construct.part_mem_layout.mp member))
    (spaced right clear)
  by_contra accepted
  have sameLevel := Construct.level_of_accepts member (Bool.eq_true_of_not_eq_false accepted)
  exact Nat.ne_of_gt later sameLevel

/-- Nothing is asked of the surroundings of a form in these passes. -/
theorem spaced_of_clear {pieces : List Item} (clear : ∀ items, Clear group items) :
    Spaced group right pieces := by
  induction pieces with
  | nil => trivial
  | cons piece pieces ih =>
      cases piece with
      | token t => exact ih
      | part g => exact ⟨Or.inr fun k => clear _, ih⟩

end Items

end Rill

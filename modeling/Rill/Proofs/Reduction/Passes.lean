import Mathlib
import Rill.Proofs.Reduction.Views

/-!
# Well-formed programs are read back

A form is well-formed when the parts of every construct in it may stand where they stand
(`Construct.Fits`): an arrow has parentheses before it and a type behind it, the right operand of a sum
is no sum, and so on.

Every pass settles every well-formed form (`settles`, and `pairs` for the first one), so the
eight passes lead from the tokens of a program to its children (`reduce_tokens`).
-/

namespace Rill

/-! ## Well-formed forms -/

namespace Construct

/-- A list of children: a terminator closes each but the last, and may close that one too. -/
def Row (children : List Form) : Prop :=
  (∀ f ∈ children, f.construct.isTerminated = true ∨ f.construct.isExpression = true) ∧
    ∀ f ∈ children.dropLast, f.construct.isTerminated = true

/-- Whether the parts of a construct may stand where they stand. -/
def Fits : Construct Form → Prop
  | root children | paren children | curly children => Row children
  | ident _ | int _ | void | u64 => True
  | call callee args => callee.construct.isIdent = true ∧ args.construct.isParen = true
  | function params result body => params.construct.isParen = true ∧ result.construct.isType = true ∧
      result.construct.level = Group.leaf.level ∧ body.construct.isCurly = true
  | functionType params result => params.construct.isParen = true ∧ result.construct.isType = true
  | sum left right => left.construct.isValue = true ∧ right.construct.isValue = true ∧
      right.construct.level < Group.sum.level
  | printU64 operand => operand.construct.isValue = true
  | returnWith operand => ∀ value ∈ operand, value.construct.isValue = true
  | binding name type? value? => name.construct.isIdent = true ∧
      (∀ type ∈ type?, type.construct.isType = true) ∧
      (∀ value ∈ value?, value.construct.isValue = true) ∧
      (type?.isSome = true ∨ value?.isSome = true)
  | assign target value => target.construct.isIdent = true ∧ value.construct.isValue = true
  | statement operand | separator operand => operand.construct.isExpression = true

variable {α : Type} {c : Construct α}

theorem isValue_of_isType (isType : c.isType = true) : c.isValue = true := by
  cases c <;> cases isType <;> rfl

theorem isExpression_of_isValue (isValue : c.isValue = true) : c.isExpression = true := by
  cases c <;> cases isValue <;> rfl

theorem level_of_isIdent (isIdent : c.isIdent = true) : c.level = 1 := by
  cases c <;> cases isIdent
  rfl

theorem level_of_isParen (isParen : c.isParen = true) : c.level = 0 := by
  cases c <;> cases isParen
  rfl

theorem level_of_isCurly (isCurly : c.isCurly = true) : c.level = 0 := by
  cases c <;> cases isCurly
  rfl

theorem level_of_isType (isType : c.isType = true) : c.level ≤ 2 := by
  cases c <;> cases isType <;> simp [level, Group.level]

theorem level_of_isValue (isValue : c.isValue = true) : c.level ≤ 3 := by
  cases c <;> cases isValue <;> simp [level, Group.level]

theorem level_of_isExpression (isExpression : c.isExpression = true) : c.level ≤ 6 := by
  cases c <;> cases isExpression <;> simp [level, Group.level]

theorem level_of_isTerminated (isTerminated : c.isTerminated = true) : c.level = 7 := by
  cases c <;> cases isTerminated <;> rfl

end Construct

/-- Every construct in the form fits. -/
inductive Form.Well : Form → Prop
  | mk {f : Form} : f.construct.Fits → (∀ g ∈ f.construct.parts, g.Well) → f.Well

/-- Every construct in the form fits that does not stand between two brackets of it. -/
inductive Form.Framed : Form → Prop
  | group {f : Form} : f.construct.level = Group.bracket.level → f.Framed
  | mk {f : Form} : f.construct.Fits → (∀ g ∈ f.construct.parts, g.Framed) → f.Framed

theorem Form.Well.framed {f : Form} (well : f.Well) : f.Framed := by
  induction well with
  | mk fits _ ih => exact .mk fits ih

namespace Items

variable {inner : Inner} {group : Group} {left right : List Item} {t : Token} {f : Form}

/-! ## What the passes make -/

theorem first?_part {property : Construct Form → Bool} (holds : property f.construct = true) :
    first? property (.part f :: right) = some f := by
  simp [first?, Option.filter, holds]

/-- In the passes of arrows and words no node follows. -/
theorem noPart_of_clear (clear : Clear group right) (takes : group = .arrow ∨ group = .word) :
    right.head?.bind Piece.part? = none := by
  cases right with
  | nil => rfl
  | cons item right =>
      cases item with
      | token t => rfl
      | part f =>
          rcases takes with rfl | rfl
          · exact absurd rfl clear.1
          · exact absurd rfl clear.2

theorem settles_leaf {c : Construct Form} (layout : c.layout = [.token t])
    (now : c.level = Group.leaf.level)
    (acts : ∀ left right, act inner left t right = .ok ⟨0, ⟨c⟩, 0⟩)
    (accepted : Group.leaf.accepts t = true) :
    Settles inner .leaf ⟨c⟩ := by
  refine settles_of_now now fun left right _ => ?_
  rw [layout]
  exact scanRight_act accepted (acts left right)

theorem settles_functionType {params result : Form} (isParen : params.construct.isParen = true)
    (isType : result.construct.isType = true) (settles : Settles inner .arrow result) :
    Settles inner .arrow ⟨.functionType params result⟩ := by
  refine settles_of_now rfl fun left right clear => ?_
  have clear : Clear .arrow right := clear.resolve_left (by simp [Construct.isTerminated])
  have noPart : right.head?.bind Piece.part? = none := noPart_of_clear clear (by simp)
  have paramsLevel := Construct.level_of_isParen isParen
  have resultLevel := Construct.level_of_isType isType
  have pieces : (Construct.functionType params result).layout.flatMap (Form.shown Group.arrow.level) =
      .part params :: .token .arrow :: result.view Group.arrow.level := by
    simp [Construct.layout, Form.shown, Form.view_made, paramsLevel, Group.level]
  have acts : act inner (.part params :: left) .arrow (.part result :: right) =
      .ok ⟨1, ⟨.functionType params result⟩, 1⟩ := by
    simp only [act, arrow, first?_part isParen, first?_part isType, List.tail_cons, noPart]
    rfl
  have moved : scanLeft inner .arrow right ((result.view Group.arrow.level).reverse ++
      (.token .arrow :: .part params :: left)) = scanLeft inner .arrow (.part result :: right)
        (.token .arrow :: .part params :: left) := by
    have moves := settles (.token .arrow :: .part params :: left) right (Or.inr clear)
    rw [Form.view_made (Nat.lt_succ_of_le resultLevel : _ < Group.arrow.level + 1)] at moves
    exact moves
  rw [pieces]
  show scanLeft inner .arrow right ((.part params :: .token .arrow :: result.view _).reverse ++ left) = _
  rw [List.reverse_cons, List.reverse_cons, List.append_assoc, List.append_assoc]
  exact moved.trans (scanLeft_act rfl acts)

theorem act_function {params result body : Form} (isParen : params.construct.isParen = true)
    (isType : result.construct.isType = true) (isCurly : body.construct.isCurly = true) :
    act inner (.part params :: left) .arrow (.part result :: .part body :: right) =
      .ok ⟨1, ⟨.function params result body⟩, 2⟩ := by
  simp only [act, arrow, first?_part isParen, first?_part isType, List.tail_cons, List.head?_cons,
    Option.bind_some, Piece.part?_part, isCurly]
  rfl

theorem settles_function {params result body : Form} (isParen : params.construct.isParen = true)
    (isType : result.construct.isType = true) (isLeaf : result.construct.level = Group.leaf.level)
    (isCurly : body.construct.isCurly = true) : Settles inner .arrow ⟨.function params result body⟩ := by
  refine settles_of_now rfl fun left right _ => ?_
  have paramsLevel := Construct.level_of_isParen isParen
  have bodyLevel := Construct.level_of_isCurly isCurly
  have pieces : (Construct.function params result body).layout.flatMap (Form.shown Group.arrow.level) =
      [.part params, .token .arrow, .part result, .part body] := by
    simp [Construct.layout, Form.shown, Form.view_made, paramsLevel, isLeaf, bodyLevel, Group.level]
  rw [pieces]
  show scanLeft inner .arrow right
    (.part body :: .part result :: .token .arrow :: .part params :: left) = _
  rw [scanLeft_part, scanLeft_part]
  exact scanLeft_act rfl (act_function isParen isType isCurly)

theorem settles_sum {l r : Form} (isLeft : l.construct.isValue = true)
    (isRight : r.construct.isValue = true)
    (noSum : r.construct.level < Group.sum.level) (settles : Settles inner .sum l) :
    Settles inner .sum ⟨.sum l r⟩ := by
  refine settles_of_now rfl fun left right _ => ?_
  have leftLevel := Construct.level_of_isValue isLeft
  have pieces : (Construct.sum l r).layout.flatMap (Form.shown Group.sum.level) =
      l.view Group.sum.level ++ [.token .plus, .part r] := by
    simp [Construct.layout, Form.shown, Form.view_made noSum]
  have acts : act inner (.part l :: left) .plus (.part r :: right) = .ok ⟨1, ⟨.sum l r⟩, 1⟩ := by
    simp only [act, sum, first?_part isLeft, first?_part isRight]
    rfl
  have moved : scanRight inner .sum left (l.view Group.sum.level ++ (.token .plus :: .part r :: right)) =
      scanRight inner .sum (.part l :: left) (.token .plus :: .part r :: right) := by
    have moves := settles left (.token .plus :: .part r :: right) (Or.inr (by simp [Clear]))
    rw [Form.view_made (Nat.lt_succ_of_le leftLevel : _ < Group.sum.level + 1)] at moves
    exact moves
  rw [pieces]
  show scanRight inner .sum left (l.view Group.sum.level ++ [.token .plus, .part r] ++ right) = _
  rw [List.append_assoc]
  exact moved.trans (scanRight_act rfl acts)

theorem settles_print {operand : Form} (isValue : operand.construct.isValue = true) :
    Settles inner .word ⟨.printU64 operand⟩ := by
  refine settles_of_now rfl fun left right _ => ?_
  have made : operand.construct.level < Group.word.level :=
    Nat.lt_succ_of_le (Construct.level_of_isValue isValue)
  have acts : act inner left .printWord (.part operand :: right) = .ok ⟨0, ⟨.printU64 operand⟩, 1⟩ := by
    simp only [act, print, first?_part isValue]
    rfl
  rw [Construct.layout, List.flatMap_cons, List.flatMap_cons, Form.shown, Form.shown,
    Form.view_made made]
  show scanLeft inner .word right (.part operand :: .token .printWord :: left) = _
  rw [scanLeft_part]
  exact scanLeft_act rfl acts

theorem settles_return {operand : Option Form}
    (isValue : ∀ value ∈ operand, value.construct.isValue = true) :
    Settles inner .word ⟨.returnWith operand⟩ := by
  refine settles_of_now rfl fun left right clear => ?_
  cases operand with
  | none =>
      have clear : Clear .word right := clear.resolve_left (by simp [Construct.isTerminated])
      have acts : act inner left .returnWord right = .ok ⟨0, ⟨.returnWith none⟩, 0⟩ := by
        simp only [act, returnWith, first?, noPart_of_clear clear (Or.inr rfl), Option.filter_none]
      exact scanLeft_act rfl acts
  | some operand =>
      replace isValue := isValue operand rfl
      have made : operand.construct.level < Group.word.level :=
        Nat.lt_succ_of_le (Construct.level_of_isValue isValue)
      have acts : act inner left .returnWord (.part operand :: right) =
          .ok ⟨0, ⟨.returnWith (some operand)⟩, 1⟩ := by
        simp only [act, returnWith, first?_part isValue]
      rw [Construct.layout, List.flatMap_cons, List.flatMap_cons, Form.shown, Form.shown,
        Form.view_made made]
      show scanLeft inner .word right (.part operand :: .token .returnWord :: left) = _
      rw [scanLeft_part]
      exact scanLeft_act rfl acts

theorem settles_inferred {name value : Form} (isIdent : name.construct.isIdent = true)
    (isValue : value.construct.isValue = true) :
    Settles inner .binding ⟨.binding name none (some value)⟩ := by
  refine settles_of_now rfl fun left right _ => ?_
  have nameLevel := Construct.level_of_isIdent isIdent
  have valueLevel := Construct.level_of_isValue isValue
  have pieces :
      (Construct.binding name none (some value)).layout.flatMap (Form.shown Group.binding.level) =
      [.part name, .token .doubleColon, .part value] := by
    simp only [Construct.layout, List.flatMap_cons, List.flatMap_nil, Form.shown, Group.level]
    rw [Form.view_made (by omega), Form.view_made (by omega)]
    rfl
  have acts : act inner (.part name :: left) .doubleColon (.part value :: right) =
      .ok ⟨1, ⟨.binding name none (some value)⟩, 1⟩ := by
    simp only [act, inferred, first?_part isIdent, first?_part isValue]
    rfl
  rw [pieces]
  show scanRight inner .binding left (.part name :: .token .doubleColon :: .part value :: right) = _
  rw [scanRight_part]
  exact scanRight_act rfl acts

theorem settles_annotated {name type : Form} {value? : Option Form}
    (isIdent : name.construct.isIdent = true)
    (isType : type.construct.isType = true)
    (isValue : ∀ value ∈ value?, value.construct.isValue = true) :
    Settles inner .binding ⟨.binding name (some type) value?⟩ := by
  refine settles_of_now rfl fun left right clear => ?_
  have nameLevel := Construct.level_of_isIdent isIdent
  have typeLevel := Construct.level_of_isType isType
  cases value? with
  | none =>
      have clear : Clear .binding right := clear.resolve_left (by simp [Construct.isTerminated])
      have noColon : behindColon? right = none := by
        unfold behindColon?
        split
        · exact absurd rfl (clear rfl)
        · rfl
      have pieces : (Construct.binding name (some type) none).layout.flatMap
          (Form.shown Group.binding.level) = [.part name, .token .colon, .part type] := by
        simp only [Construct.layout, List.flatMap_cons, List.flatMap_nil, Form.shown, Group.level]
        rw [Form.view_made (by omega), Form.view_made (by omega)]
        rfl
      have acts : act inner (.part name :: left) .colon (.part type :: right) =
          .ok ⟨1, ⟨.binding name (some type) none⟩, 1⟩ := by
        simp only [act, annotated, first?_part isIdent, first?_part isType, List.tail_cons, noColon]
        rfl
      rw [pieces]
      show scanRight inner .binding left (.part name :: .token .colon :: .part type :: right) = _
      rw [scanRight_part]
      exact scanRight_act rfl acts
  | some value =>
      replace isValue := isValue value rfl
      have valueLevel := Construct.level_of_isValue isValue
      have pieces : (Construct.binding name (some type) (some value)).layout.flatMap
          (Form.shown Group.binding.level) =
          [.part name, .token .colon, .part type, .token .colon, .part value] := by
        simp only [Construct.layout, List.flatMap_cons, List.flatMap_nil, Form.shown, Group.level]
        rw [Form.view_made (by omega), Form.view_made (by omega), Form.view_made (by omega)]
        rfl
      have acts : act inner (.part name :: left) .colon
          (.part type :: .token .colon :: .part value :: right) =
          .ok ⟨1, ⟨.binding name (some type) (some value)⟩, 3⟩ := by
        simp only [act, annotated, first?_part isIdent, first?_part isType, List.tail_cons, behindColon?,
          first?_part isValue]
        rfl
      rw [pieces]
      show scanRight inner .binding left
        (.part name :: .token .colon :: .part type :: .token .colon :: .part value :: right) = _
      rw [scanRight_part]
      exact scanRight_act rfl acts

theorem settles_assign {name value : Form} (isIdent : name.construct.isIdent = true)
    (isValue : value.construct.isValue = true) : Settles inner .assign ⟨.assign name value⟩ := by
  refine settles_of_now rfl fun left right _ => ?_
  have nameLevel := Construct.level_of_isIdent isIdent
  have valueLevel := Construct.level_of_isValue isValue
  have pieces : (Construct.assign name value).layout.flatMap (Form.shown Group.assign.level) =
      [.part name, .token .equals, .part value] := by
    simp only [Construct.layout, List.flatMap_cons, List.flatMap_nil, Form.shown, Group.level]
    rw [Form.view_made (by omega), Form.view_made (by omega)]
    rfl
  have acts : act inner (.part name :: left) .equals (.part value :: right) =
      .ok ⟨1, ⟨.assign name value⟩, 1⟩ := by
    simp only [act, assign, first?_part isIdent, first?_part isValue]
    rfl
  rw [pieces]
  show scanLeft inner .assign right (.part value :: .token .equals :: .part name :: left) = _
  rw [scanLeft_part]
  exact scanLeft_act rfl acts

theorem settles_terminated (wrap : Form → Construct Form) {operand : Form}
    (isExpression : operand.construct.isExpression = true)
    (layout : (wrap operand).layout = [.part operand, .token t])
    (now : (wrap operand).level = Group.terminator.level) (accepted : Group.terminator.accepts t = true)
    (acts : ∀ left right, act inner left t right = terminated t wrap left) :
    Settles inner .terminator ⟨wrap operand⟩ := by
  refine settles_of_now now fun left right _ => ?_
  have made : operand.construct.level < Group.terminator.level :=
    Nat.lt_succ_of_le (Construct.level_of_isExpression isExpression)
  have acts : act inner (.part operand :: left) t right = .ok ⟨1, ⟨wrap operand⟩, 0⟩ := by
    rw [acts, terminated, first?_part isExpression]
    rfl
  rw [layout, List.flatMap_cons, Form.shown, Form.view_made made]
  show scanRight inner .terminator left (.part operand :: .token t :: right) = _
  rw [scanRight_part]
  exact scanRight_act accepted acts

/-! ## Every pass settles every well-formed form -/

theorem clear_token (notColon : t ≠ .colon) : Clear group (.token t :: right) := fun _ => notColon

theorem spaced_row {children : List Form} (row : Construct.Row children) (clear : Clear group right) :
    Spaced group right (children.map .part) := by
  have terminated := row.2
  clear row
  induction children with
  | nil => trivial
  | cons f children ih =>
      cases children with
      | nil => exact ⟨Or.inr fun k => clear, trivial⟩
      | cons g children =>
          refine ⟨Or.inl (terminated f (by simp)), ih fun h member => terminated h ?_⟩
          rw [List.dropLast_cons_of_ne_nil (by simp)]
          exact List.mem_cons_of_mem _ member

/-- The parts of a construct that a later pass makes may stand where they stand. -/
theorem spaced_layout {c : Construct Form} (fits : c.Fits) (later : group.level < c.level)
    (notFirst : 0 < group.level) (clear : c.isTerminated = true ∨ Clear group right) :
    Spaced group right c.layout := by
  cases c with
  | paren | curly | call => exact absurd later (Nat.not_lt_zero _)
  | ident | int | void | u64 => exact absurd later (Nat.not_lt.mpr notFirst)
  | function | functionType =>
      cases group <;> simp only [Construct.level, Group.level] at later notFirst <;> try omega
      exact spaced_of_clear fun items => by rcases items with _ | ⟨_ | _, _⟩ <;> simp [Clear]
  | root children => exact spaced_row fits (clear.resolve_left (by simp [Construct.isTerminated]))
  | sum l r =>
      replace clear := clear.resolve_left (by simp [Construct.isTerminated])
      exact ⟨Or.inr fun k => clear_token (by simp), Or.inr fun k => clear, trivial⟩
  | printU64 operand =>
      replace clear := clear.resolve_left (by simp [Construct.isTerminated])
      exact ⟨Or.inr fun k => clear, trivial⟩
  | returnWith operand =>
      replace clear := clear.resolve_left (by simp [Construct.isTerminated])
      cases operand with
      | none => trivial
      | some operand => exact ⟨Or.inr fun k => clear, trivial⟩
  | binding name type? value? =>
      replace clear := clear.resolve_left (by simp [Construct.isTerminated])
      have anyToken : ∀ {t items}, Clear group (.token t :: items) := by
        intro t items same
        subst same
        exact absurd later (Nat.lt_irrefl _)
      cases type? with
      | none =>
          cases value? with
          | none => exact absurd fits.2.2.2 (by simp)
          | some value => exact ⟨Or.inr fun k => anyToken, Or.inr fun k => clear, trivial⟩
      | some type =>
          cases value? with
          | none => exact ⟨Or.inr fun k => anyToken, Or.inr fun k => clear, trivial⟩
          | some value =>
              exact ⟨Or.inr fun k => anyToken, Or.inr fun k => anyToken, Or.inr fun k => clear, trivial⟩
  | assign target value =>
      replace clear := clear.resolve_left (by simp [Construct.isTerminated])
      exact ⟨Or.inr fun k => clear_token (by simp), Or.inr fun k => clear, trivial⟩
  | statement operand | separator operand => exact ⟨Or.inr fun k => clear_token (by simp), trivial⟩

theorem settles_now (fits : f.construct.Fits) (parts : ∀ g ∈ f.construct.parts, Settles inner group g)
    (notFirst : 0 < group.level) (now : f.construct.level = group.level) : Settles inner group f := by
  obtain ⟨construct⟩ := f
  cases construct with
  | root children => cases group <;> cases now
  | paren | curly | call => exact absurd notFirst (Nat.not_lt.mpr (Nat.le_of_eq now.symm))
  | ident | int | void | u64 =>
      obtain rfl : Group.leaf = group := Group.level_inj now
      exact settles_leaf rfl rfl (fun _ _ => rfl) rfl
  | function params result body =>
      obtain rfl : Group.arrow = group := Group.level_inj now
      exact settles_function fits.1 fits.2.1 fits.2.2.1 fits.2.2.2
  | functionType params result =>
      obtain rfl : Group.arrow = group := Group.level_inj now
      exact settles_functionType fits.1 fits.2 (parts result (by simp [Construct.parts]))
  | sum l r =>
      obtain rfl : Group.sum = group := Group.level_inj now
      exact settles_sum fits.1 fits.2.1 fits.2.2 (parts l (by simp [Construct.parts]))
  | printU64 operand =>
      obtain rfl : Group.word = group := Group.level_inj now
      exact settles_print fits
  | returnWith operand =>
      obtain rfl : Group.word = group := Group.level_inj now
      exact settles_return fits
  | binding name type? value? =>
      obtain rfl : Group.binding = group := Group.level_inj now
      obtain ⟨isIdent, isType, isValue, some⟩ := fits
      cases type? with
      | some type => exact settles_annotated isIdent (isType type rfl) isValue
      | none =>
          cases value? with
          | none => exact absurd some (by simp)
          | some value => exact settles_inferred isIdent (isValue value rfl)
  | assign target value =>
      obtain rfl : Group.assign = group := Group.level_inj now
      exact settles_assign fits.1 fits.2
  | statement operand =>
      obtain rfl : Group.terminator = group := Group.level_inj now
      exact settles_terminated .statement fits rfl rfl rfl fun _ _ => rfl
  | separator operand =>
      obtain rfl : Group.terminator = group := Group.level_inj now
      exact settles_terminated .separator fits rfl rfl rfl fun _ _ => rfl

/-- Every pass but the first settles every well-formed form. It does not look between brackets. -/
theorem settles (notFirst : 0 < group.level) (framed : f.Framed) : Settles inner group f := by
  induction framed with
  | group made => exact settles_of_made (made ▸ notFirst)
  | @mk f fits _ ih =>
      rcases Nat.lt_trichotomy f.construct.level group.level with made | now | later
      · exact settles_of_made made
      · exact settles_now fits ih notFirst now
      · exact settles_of_parts later ih fun right => spaced_layout fits later notFirst

/-! ## Brackets -/

/-- No bare name stands right before. -/
def NoName (left : List Item) : Prop :=
  ∀ name rest, left ≠ .token (.ident name) :: rest

/-- Every part of the list may follow what stands before it, with `left` before the list: a name would
turn parentheses into a call, but not braces. -/
def Led (left : List Item) : List Item → Prop
  | [] => True
  | .token t :: rest => Led (.token t :: left) rest
  | .part g :: rest => (NoName left ∨ g.construct.isCurly = true) ∧ Led ((g.view 1).reverse ++ left) rest

/-- The pass of the brackets makes what it makes of the form, wherever the form may stand. -/
def Pairs (inner : Inner) (f : Form) : Prop :=
  ∀ left right, NoName left ∨ f.construct.isCurly = true →
    scanRight inner .bracket left (f.view 0 ++ right) =
      scanRight inner .bracket ((f.view 1).reverse ++ left) right

theorem pairs_pieces {pieces : List Item}
    (refused : ∀ t, .token t ∈ pieces → Group.bracket.accepts t = false)
    (pairs : ∀ g, .part g ∈ pieces → Pairs inner g) (led : Led left pieces) :
    scanRight inner .bracket left (pieces.flatMap (Form.shown 0) ++ right) =
      scanRight inner .bracket ((pieces.flatMap (Form.shown 1)).reverse ++ left) right := by
  induction pieces generalizing left with
  | nil => rfl
  | cons piece pieces ih =>
      have refused' : ∀ t, .token t ∈ pieces → Group.bracket.accepts t = false :=
        fun t member => refused t (List.mem_cons_of_mem _ member)
      have pairs' : ∀ g, .part g ∈ pieces → Pairs inner g :=
        fun g member => pairs g (List.mem_cons_of_mem _ member)
      rw [List.flatMap_cons, List.flatMap_cons, List.append_assoc, List.reverse_append,
        List.append_assoc]
      cases piece with
      | token t => exact (scanRight_other (refused t (by simp))).trans (ih refused' pairs' led)
      | part g => exact (pairs g (by simp) left _ led.1).trans (ih refused' pairs' led.2)

theorem noName_token (notName : ∀ name, t ≠ .ident name) : NoName (.token t :: left) := by
  intro name rest same
  cases same
  exact notName name rfl

/-- No opening bracket is bare once the brackets are paired. -/
theorem noOpener_view {bracket : Bracket} {item : Item} (member : item ∈ f.view 1) :
    isOpener bracket item = false := by
  cases item with
  | part g => rfl
  | token t =>
      by_contra isOpening
      have isOpening : t = .opening bracket := by simpa [isOpener] using isOpening
      subst isOpening
      obtain ⟨c, unmade, inLayout⟩ := Form.layout_of_view member
      rw [Construct.level_of_opening inLayout] at unmade
      exact absurd unmade (by decide)

/-- No closing bracket is bare once the brackets are paired. -/
theorem noCloser_view (member : .token t ∈ f.view 1) : Group.bracket.accepts t = false := by
  by_contra accepted
  obtain ⟨c, unmade, inLayout⟩ := Form.layout_of_view member
  rw [Construct.level_of_accepts inLayout (Bool.eq_true_of_not_eq_false accepted)] at unmade
  exact absurd unmade (by decide)

/-- A list without tokens of the group is left as it is. -/
theorem scanRight_others {items : List Item}
    (refused : ∀ t, .token t ∈ items → group.accepts t = false) :
    scanRight inner group left items = .ok (left.reverse ++ items) := by
  induction items generalizing left with
  | nil => rw [scanRight, List.append_nil]
  | cons item items ih =>
      have refused' : ∀ t, .token t ∈ items → group.accepts t = false :=
        fun t member => refused t (List.mem_cons_of_mem _ member)
      cases item with
      | token t =>
          rw [scanRight_other (refused t (by simp)), ih refused', List.reverse_cons,
            List.append_assoc]
          rfl
      | part f => rw [scanRight_part, ih refused', List.reverse_cons, List.append_assoc]; rfl

/-- A closing bracket behind items without an opener of its kind, with one right before them. -/
theorem scanRight_close {bracket : Bracket} {inside : List Item} {children : List Form}
    (noOpener : ∀ item ∈ inside, isOpener bracket item = false) (reduces : inner inside = .ok children) :
    scanRight inner .bracket (inside.reverse ++ .token (.opening bracket) :: left)
        (.token (.closing bracket) :: right) =
      scanRight inner .bracket (.part (closed bracket children 0 left).form ::
        (.token (.opening bracket) :: left).drop (closed bracket children 0 left).before) right := by
  have notInside : inside.reverse.findIdx? (isOpener bracket) = none := by
    rw [List.findIdx?_eq_none_iff]
    exact fun item member => noOpener item (List.mem_reverse.mp member)
  have index : (inside.reverse ++ .token (.opening bracket) :: left).findIdx? (isOpener bracket) =
      some inside.length := by
    rw [List.findIdx?_append, notInside, List.findIdx?_cons, List.length_reverse]
    simp [isOpener]
  have taken :
      ((inside.reverse ++ .token (.opening bracket) :: left).take inside.length).reverse = inside := by
    rw [List.take_left' List.length_reverse, List.reverse_reverse]
  have dropped : ∀ n, (inside.reverse ++ .token (.opening bracket) :: left).drop (inside.length + n) =
      (.token (.opening bracket) :: left).drop n := by
    intro n
    rw [← List.drop_drop, List.drop_left' List.length_reverse]
  have acts : act inner (inside.reverse ++ .token (.opening bracket) :: left) (.closing bracket) right =
      .ok (closed bracket children inside.length left) := by
    show close inner bracket _ = _
    simp only [close, index, taken, reduces, dropped, List.drop_one, List.tail_cons]
    rfl
  rw [scanRight_act rfl acts, closed_after, closed_eq, dropped, List.drop_zero]

/-- A pair of brackets around children that are reduced to themselves. -/
theorem scanRight_pair {bracket : Bracket} {children : List Form} (pairs : Pairs inner ⟨.root children⟩)
    (reduces : inner ((⟨.root children⟩ : Form).view 1) = .ok children) :
    scanRight inner .bracket left (.token (.opening bracket) ::
        ((⟨.root children⟩ : Form).view 0 ++ .token (.closing bracket) :: right)) =
      scanRight inner .bracket (.part (closed bracket children 0 left).form ::
        (.token (.opening bracket) :: left).drop (closed bracket children 0 left).before) right := by
  rw [scanRight_other rfl, pairs _ _ (Or.inl (noName_token (by simp)))]
  exact scanRight_close (fun _ => noOpener_view) reduces

theorem view_group (bracket : Bracket) (children : List Form) : (groupOf bracket children).view 0 =
    .token (.opening bracket) :: ((⟨.root children⟩ : Form).view 0 ++ [.token (.closing bracket)]) := by
  rw [Form.view_root children (Nat.zero_le _), Form.view_unmade (Nat.zero_le _)]
  cases bracket <;> simp [groupOf, Construct.layout, Form.shown, List.flatMap_map, List.flatMap_append]

theorem pairs_group (bracket : Bracket) {children : List Form} (pairs : Pairs inner ⟨.root children⟩)
    (reduces : inner ((⟨.root children⟩ : Form).view 1) = .ok children) :
    Pairs inner (groupOf bracket children) := by
  intro left right led
  have made : (groupOf bracket children).view 1 = [.part (groupOf bracket children)] :=
    Form.view_made (by cases bracket <;> exact Nat.zero_lt_one)
  have group : closed bracket children 0 left = ⟨1, groupOf bracket children, 0⟩ := by
    cases bracket with
    | brace => rfl
    | paren => exact closed_of_no_name (led.resolve_right (by simp [groupOf, Construct.isCurly]))
  rw [made, view_group, List.cons_append, List.append_assoc]
  refine (scanRight_pair pairs reduces).trans ?_
  rw [group]
  rfl

theorem pairs_call {name : String} {children : List Form} (pairs : Pairs inner ⟨.root children⟩)
    (reduces : inner ((⟨.root children⟩ : Form).view 1) = .ok children) :
    Pairs inner ⟨.call ⟨.ident name⟩ ⟨.paren children⟩⟩ := by
  intro left right _
  have made : (⟨.call ⟨.ident name⟩ ⟨.paren children⟩⟩ : Form).view 1 =
      [.part ⟨.call ⟨.ident name⟩ ⟨.paren children⟩⟩] := Form.view_made Nat.zero_lt_one
  have isName : (⟨.ident name⟩ : Form).view 0 = [.token (.ident name)] :=
    Form.view_unmade (Nat.zero_le _)
  have pieces : (⟨.call ⟨.ident name⟩ ⟨.paren children⟩⟩ : Form).view 0 =
      .token (.ident name) :: (groupOf .paren children).view 0 := by
    rw [Form.view_unmade (Nat.zero_le _), Construct.layout, List.flatMap_cons, List.flatMap_cons,
      Form.shown, isName, List.flatMap_nil, List.append_nil]
    rfl
  rw [made, pieces, view_group, List.cons_append, scanRight_other rfl, List.cons_append,
    List.append_assoc]
  exact scanRight_pair pairs reduces

theorem noName_of_terminated (terminated : f.construct.isTerminated = true) :
    NoName ((f.view 1).reverse ++ left) := by
  rw [Form.view_unmade (by rw [Construct.level_of_isTerminated terminated]; decide)]
  obtain ⟨construct⟩ := f
  cases construct <;> cases terminated <;> simp [Construct.layout, Form.shown, NoName]

theorem led_row {children : List Form} (row : Construct.Row children) (noName : NoName left) :
    Led left (children.map .part) := by
  have terminated := row.2
  clear row
  induction children generalizing left with
  | nil => trivial
  | cons f children ih =>
      refine ⟨Or.inl noName, ?_⟩
      cases children with
      | nil => trivial
      | cons g children =>
          refine ih (noName_of_terminated (terminated f (by simp))) fun h member => terminated h ?_
          rw [List.dropLast_cons_of_ne_nil (by simp)]
          exact List.mem_cons_of_mem _ member

/-- The parts of a construct that later passes make may follow what stands before them. -/
theorem led_layout {c : Construct Form} (fits : c.Fits) (later : 0 < c.level) (noName : NoName left) :
    Led left c.layout := by
  cases c with
  | paren | curly | call => exact absurd later (Nat.lt_irrefl 0)
  | ident | int | void | u64 => trivial
  | root children => exact led_row fits noName
  | function params result body =>
      exact ⟨Or.inl noName, Or.inl (noName_token (by simp)), Or.inr fits.2.2.2, trivial⟩
  | functionType | sum | assign => exact ⟨Or.inl noName, Or.inl (noName_token (by simp)), trivial⟩
  | printU64 => exact ⟨Or.inl (noName_token (by simp)), trivial⟩
  | statement | separator => exact ⟨Or.inl noName, trivial⟩
  | returnWith operand =>
      cases operand with
      | none => trivial
      | some operand => exact ⟨Or.inl (noName_token (by simp)), trivial⟩
  | binding name type? value? =>
      cases type? with
      | none =>
          cases value? with
          | none => exact ⟨Or.inl noName, trivial⟩
          | some value => exact ⟨Or.inl noName, Or.inl (noName_token (by simp)), trivial⟩
      | some type =>
          cases value? with
          | none => exact ⟨Or.inl noName, Or.inl (noName_token (by simp)), trivial⟩
          | some value =>
              exact ⟨Or.inl noName, Or.inl (noName_token (by simp)),
                Or.inl (noName_token (by simp)), trivial⟩

theorem pairs_of_parts (fits : f.construct.Fits) (later : 0 < f.construct.level)
    (parts : ∀ g ∈ f.construct.parts, Pairs inner g) : Pairs inner f := by
  intro left right led
  have noName : NoName left := led.resolve_right fun isCurly =>
    Nat.ne_of_gt later (Construct.level_of_isCurly isCurly)
  rw [Form.view_unmade (Nat.zero_le _), Form.view_unmade later]
  refine pairs_pieces (fun t member => ?_)
    (fun g member => parts g (Construct.part_mem_layout.mp member))
    (led_layout fits later noName)
  by_contra accepted
  exact Nat.ne_of_gt later (Construct.level_of_accepts member (Bool.eq_true_of_not_eq_false accepted))

/-- The first pass pairs the brackets of every well-formed form, if what stands between two brackets is
reduced to itself. -/
theorem pairs (rows : ∀ children : List Form, (⟨.root children⟩ : Form).Well →
      inner ((⟨.root children⟩ : Form).view 1) = .ok children) (well : f.Well) :
    Pairs inner f ∧ ∀ g ∈ f.construct.parts, Pairs inner g := by
  induction well with
  | @mk f fits wells ih =>
      refine ⟨?_, fun g member => (ih g member).1⟩
      obtain ⟨construct⟩ := f
      cases construct with
      | paren children =>
          have row : Pairs inner ⟨.root children⟩ :=
            pairs_of_parts fits (Nat.succ_pos _) fun g member => (ih g member).1
          exact pairs_group .paren row (rows children (.mk fits wells))
      | curly children =>
          have row : Pairs inner ⟨.root children⟩ :=
            pairs_of_parts fits (Nat.succ_pos _) fun g member => (ih g member).1
          exact pairs_group .brace row (rows children (.mk fits wells))
      | call callee args =>
          obtain ⟨isIdent, isParen⟩ := fits
          have wellArgs := wells args (by simp [Construct.parts])
          have pairArgs := (ih args (by simp [Construct.parts])).2
          obtain ⟨calleeConstruct⟩ := callee
          obtain ⟨argsConstruct⟩ := args
          cases calleeConstruct <;> cases isIdent
          cases argsConstruct <;> cases isParen
          cases wellArgs with
          | mk fitsArgs wellsArgs =>
              exact pairs_call (pairs_of_parts fitsArgs (Nat.succ_pos _) pairArgs)
                (rows _ (.mk fitsArgs wellsArgs))
      | _ =>
          exact pairs_of_parts fits (by simp [Construct.level, Group.level])
            fun g member => (ih g member).1

/-! ## Reducing a program -/

theorem pass_eq {children : List Form} (settles : Settles inner group ⟨.root children⟩) :
    pass inner ((⟨.root children⟩ : Form).view group.level) group =
      .ok ((⟨.root children⟩ : Form).view (group.level + 1)) := by
  have moves : Moves inner group [] _ _ [] := settles [] [] (Or.inr trivial)
  unfold pass
  unfold Moves at moves
  cases direction : group.direction with
  | leftToRight =>
      simp only [direction] at moves ⊢
      rw [List.append_nil, List.append_nil] at moves
      rw [moves, scanRight, List.reverse_reverse]
  | rightToLeft =>
      simp only [direction] at moves ⊢
      rw [List.append_nil, List.append_nil] at moves
      rw [moves, scanLeft]

theorem finish_parts (children : List Form) : finish (children.map .part) = .ok children := by
  induction children with
  | nil => rfl
  | cons f children ih =>
      rw [List.map_cons, finish, ih]
      rfl

/-- Passes in their order lead from one view to the next. -/
theorem passes_eq {children : List Form} (framed : (⟨.root children⟩ : Form).Framed) :
    ∀ (groups : List Group) (k : Nat), groups.map Group.level = List.range' (k + 1) groups.length →
      groups.foldlM (pass inner) ((⟨.root children⟩ : Form).view (k + 1)) =
        .ok ((⟨.root children⟩ : Form).view (k + 1 + groups.length)) := by
  intro groups
  induction groups with
  | nil => exact fun _ _ => rfl
  | cons group groups ih =>
      intro k levels
      rw [List.map_cons, List.length_cons, List.range'_succ, List.cons.injEq] at levels
      obtain ⟨level, levels⟩ := levels
      have notFirst : 0 < group.level := level ▸ Nat.succ_pos k
      have passed : pass inner _ group = _ := pass_eq (settles notFirst framed)
      rw [List.foldlM_cons, ← level, passed, level]
      exact (ih (k + 1) levels).trans
        (by rw [List.length_cons, Nat.add_right_comm (k + 1), Nat.add_assoc])

/-- After all passes the children are made. -/
theorem view_children {children : List Form} (framed : (⟨.root children⟩ : Form).Framed) :
    (⟨.root children⟩ : Form).view 8 = children.map .part := by
  rw [Form.view_root children (by decide), List.map_eq_flatMap]
  refine List.flatMap_congr fun f member => Form.view_made ?_
  cases framed with
  | group made => cases made
  | mk fits _ =>
      rcases fits.1 f member with terminated | isExpression
      · exact Nat.lt_succ_of_le (Nat.le_of_eq (Construct.level_of_isTerminated terminated))
      · exact Nat.lt_of_le_of_lt (Construct.level_of_isExpression isExpression) (by decide)

/-- Once the brackets are paired, the other passes lead to the children. -/
theorem reduce_paired {d : Nat} {children : List Form} {items : List Item}
    (framed : (⟨.root children⟩ : Form).Framed)
    (paired : pass (reduce d) items .bracket = .ok ((⟨.root children⟩ : Form).view 1)) :
    reduce (d + 1) items = .ok children := by
  have passed : Group.byPriority.tail.foldlM (pass (reduce d)) _ = _ := passes_eq framed _ 0 (by decide)
  have all : Group.byPriority.foldlM (pass (reduce d)) items = .ok (children.map .part) := by
    rw [← view_children framed, Group.byPriority, List.foldlM_cons, paired]
    exact passed
  rw [reduce, all]
  exact finish_parts children

theorem reduce_view {d : Nat} {children : List Form} (well : (⟨.root children⟩ : Form).Well) :
    reduce (d + 1) ((⟨.root children⟩ : Form).view 1) = .ok children :=
  reduce_paired well.framed (scanRight_others fun _ => noCloser_view)

theorem scan_tokens {d : Nat} {children : List Form} (well : (⟨.root children⟩ : Form).Well) :
    scanRight (reduce (d + 1)) .bracket [] ((⟨.root children⟩ : Form).tokens.map .token) =
      .ok ((⟨.root children⟩ : Form).view 1) := by
  have paired : scanRight (reduce (d + 1)) .bracket [] (_ ++ []) = _ :=
    (pairs (fun children => reduce_view) well).1 [] [] (Or.inl (by simp [NoName]))
  rw [List.append_nil, List.append_nil, Form.view_zero] at paired
  rw [paired, scanRight, List.reverse_reverse]

/-- The tokens of a well-formed program are reduced to its children. No more brackets are nested than
there are tokens. -/
theorem reduce_tokens {n : Nat} {children : List Form} (well : (⟨.root children⟩ : Form).Well)
    (enough : (⟨.root children⟩ : Form).tokens.length ≤ n) :
    reduce (n + 1) ((⟨.root children⟩ : Form).tokens.map .token) = .ok children := by
  cases n with
  | succ d => exact reduce_paired well.framed (scan_tokens well)
  | zero =>
      have scanned := scan_tokens (d := 0) well
      have noTokens := List.length_eq_zero_iff.mp (Nat.le_zero.mp enough)
      rw [noTokens, List.map_nil, scanRight, List.reverse_nil] at scanned
      rw [noTokens, List.map_nil, Except.ok.inj scanned]
      exact reduce_view well

end Items

end Rill

import Mathlib
import Rill.Proofs.Basic
import Rill.Proofs.Reduction.Faithful
import Rill.Proofs.Reduction.Passes

/-!
# The shapes of an accepted parse

`Construct.Shaped` says of a construct what later stages take for granted about its parts: a call has a
name and parentheses, a function returns `void`, `u64` or a name, the right operand of a sum is no sum,
and so on. Every node of a tree that reduction returns has its shape (`reduce_shapes`).

An action checks the parts it takes, so most of a shape is what the action has seen. Two shapes need
the pass as a whole.

* The right operand of a sum lies ahead of the walk, where no sum has been made yet.
* An arrow takes a function type for its result only if no part follows: the walk goes from right to
  left, and an arrow behind it has already taken the braces that follow its own result (`Ended`).
-/

namespace Rill

/-! ## Shapes -/

namespace Construct

variable {α β : Type}

/-- Whether the construct is a type other than a function type. -/
def isPlainType : Construct α → Bool
  | void | u64 | ident _ => true
  | _ => false

/-- Whether the construct is a sum. -/
def isSum : Construct α → Bool
  | sum .. => true
  | _ => false

/-- Whether the construct is a whole source. -/
def isRoot : Construct α → Bool
  | root _ => true
  | _ => false

/-- What later stages take for granted about the parts of a construct. `has` says whether the construct
of a part has a property. -/
def Shaped (has : α → (Construct α → Bool) → Bool) : Construct α → Prop
  | root _ | ident _ | int _ | void | u64 | paren _ | curly _ => True
  | call callee args => has callee isIdent = true ∧ has args isParen = true
  | function params result body =>
      has params isParen = true ∧ has result isPlainType = true ∧ has body isCurly = true
  | functionType params result => has params isParen = true ∧ has result isType = true
  | sum left right =>
      has left isValue = true ∧ has right isValue = true ∧ has right isSum = false
  | printU64 operand => has operand isValue = true
  | returnWith operand => ∀ value ∈ operand, has value isValue = true
  | binding name type? value? => has name isIdent = true ∧ (∀ type ∈ type?, has type isType = true) ∧
      (∀ value ∈ value?, has value isValue = true) ∧ (type?.isSome = true ∨ value?.isSome = true)
  | assign target value => has target isIdent = true ∧ has value isValue = true
  | statement operand | separator operand => has operand isExpression = true

@[simp] theorem isPlainType_map (f : α → β) (c : Construct α) :
    (c.map f).isPlainType = c.isPlainType := by
  cases c <;> rfl

@[simp] theorem isSum_map (f : α → β) (c : Construct α) : (c.map f).isSum = c.isSum := by
  cases c <;> rfl

@[simp] theorem isRoot_map (f : α → β) (c : Construct α) : (c.map f).isRoot = c.isRoot := by
  cases c <;> rfl

variable {c : Construct α}

theorem isPlainType_of_leaf (isType : c.isType = true) (early : c.level < Group.arrow.level) :
    c.isPlainType = true := by
  cases c with
  | void | u64 | ident => rfl
  | functionType => exact absurd early (by simp [level])
  | _ => cases isType

theorem isSum_of_level (early : c.level < Group.sum.level) : c.isSum = false := by
  cases c with
  | sum => exact absurd early (by simp [level])
  | _ => rfl

/-- A shape only depends on what is said about the parts. -/
theorem Shaped.of_map {f : α → β} {has : α → (Construct α → Bool) → Bool}
    {has' : β → (Construct β → Bool) → Bool} (look : α → Construct α)
    (seen : ∀ a ∈ c.parts, ∀ property, has a property = property (look a))
    (seen' : ∀ a ∈ c.parts, ∀ property, has' (f a) property = property ((look a).map f))
    (shaped : (c.map f).Shaped has') : c.Shaped has := by
  cases c with
  | returnWith operand =>
      simp only [map, Shaped] at shaped ⊢
      cases operand <;> simp_all [parts]
  | binding name type? value? =>
      simp only [map, Shaped] at shaped ⊢
      cases type? <;> cases value? <;> simp_all [parts]
  | root | ident | int | void | u64 | paren | curly => trivial
  | _ =>
      simp only [map, Shaped] at shaped ⊢
      simp_all [parts]

end Construct

/-- Every construct in the form has its shape, and none is a whole source. -/
inductive Form.Sound : Form → Prop
  | mk {f : Form} : f.construct.isRoot = false →
      f.construct.Shaped (fun g property => property g.construct) →
      (∀ g ∈ f.construct.parts, g.Sound) → f.Sound

namespace Form.Sound

variable {f : Form}

theorem notRoot (sound : f.Sound) : f.construct.isRoot = false := by
  cases sound
  assumption

theorem shaped (sound : f.Sound) : f.construct.Shaped fun g property => property g.construct := by
  cases sound
  assumption

theorem parts (sound : f.Sound) : ∀ g ∈ f.construct.parts, g.Sound := by
  cases sound
  assumption

end Form.Sound

namespace Items

/-! ## Actions -/

section Actions

variable {left right items : List Item} {f : Form} {fold : Fold} {property : Construct Form → Bool}

theorem first?_eq_some_iff :
    first? property items = some f ↔ ∃ rest, items = .part f :: rest ∧ property f.construct = true := by
  constructor
  · intro found
    cases items with
    | nil => cases found
    | cons item rest =>
        cases item with
        | token t => cases found
        | part g =>
            obtain ⟨same, holds⟩ := Option.filter_eq_some_iff.mp found
            cases same
            exact ⟨rest, rfl, holds⟩
  · rintro ⟨rest, rfl, holds⟩
    exact first?_part holds

/-- A checked neighbour: what follows ran because the neighbour is there. -/
theorem first?_bind_eq_ok {α : Type} {kind : ReduceErrorKind} {next : Form → Except ReduceErrorKind α}
    {result : α}
    (acted : (match first? property items with
      | some f => next f
      | _ => throw kind) = .ok result) :
    ∃ f rest, items = .part f :: rest ∧ property f.construct = true ∧ next f = .ok result := by
  cases found : first? property items with
  | none =>
      rw [found] at acted
      cases acted
  | some f =>
      rw [found] at acted
      obtain ⟨rest, same, holds⟩ := first?_eq_some_iff.mp found
      exact ⟨f, rest, same, holds, acted⟩

/-- Whether a part comes next. -/
def Followed (items : List Item) : Prop := ∃ f rest, items = .part f :: rest

theorem arrow_eq_ok (acted : arrow left right = .ok fold) :
    ∃ params behind result ahead, left = .part params :: behind ∧ params.construct.isParen = true ∧
      right = .part result :: ahead ∧ result.construct.isType = true ∧
      ((∃ body rest, ahead = .part body :: rest ∧ body.construct.isCurly = true ∧
          fold = ⟨1, ⟨.function params result body⟩, 2⟩) ∨
        (¬ Followed ahead ∧ fold = ⟨1, ⟨.functionType params result⟩, 1⟩)) := by
  unfold arrow at acted
  obtain ⟨params, behind, rfl, isParen, acted⟩ := first?_bind_eq_ok acted
  obtain ⟨result, ahead, rfl, isType, acted⟩ := first?_bind_eq_ok acted
  refine ⟨params, behind, result, ahead, rfl, isParen, rfl, isType, ?_⟩
  rw [List.tail_cons] at acted
  cases ahead with
  | nil =>
      cases acted
      exact Or.inr ⟨by simp [Followed], rfl⟩
  | cons item rest =>
      cases item with
      | token t =>
          cases acted
          exact Or.inr ⟨by simp [Followed], rfl⟩
      | part body =>
          simp only [List.head?_cons, Option.bind_some, Piece.part?_part] at acted
          split at acted
          · next isCurly =>
            cases acted
            exact Or.inl ⟨body, rest, rfl, isCurly, rfl⟩
          · cases acted

theorem sum_eq_ok (acted : sum left right = .ok fold) :
    ∃ l behind r ahead, left = .part l :: behind ∧ l.construct.isValue = true ∧
      right = .part r :: ahead ∧ r.construct.isValue = true ∧ fold = ⟨1, ⟨.sum l r⟩, 1⟩ := by
  unfold sum at acted
  obtain ⟨l, behind, rfl, isLeft, acted⟩ := first?_bind_eq_ok acted
  obtain ⟨r, ahead, rfl, isRight, acted⟩ := first?_bind_eq_ok acted
  cases acted
  exact ⟨l, behind, r, ahead, rfl, isLeft, rfl, isRight, rfl⟩

theorem annotated_eq_ok (acted : annotated left right = .ok fold) :
    ∃ name behind type ahead, left = .part name :: behind ∧ name.construct.isIdent = true ∧
      right = .part type :: ahead ∧ type.construct.isType = true ∧
      ((∃ value rest, ahead = .token .colon :: .part value :: rest ∧ value.construct.isValue = true ∧
          fold = ⟨1, ⟨.binding name (some type) (some value)⟩, 3⟩) ∨
        fold = ⟨1, ⟨.binding name (some type) none⟩, 1⟩) := by
  unfold annotated at acted
  obtain ⟨name, behind, rfl, isIdent, typed⟩ := first?_bind_eq_ok acted
  obtain ⟨type, ahead, rfl, isType, made⟩ := first?_bind_eq_ok typed
  refine ⟨name, behind, type, ahead, rfl, isIdent, rfl, isType, ?_⟩
  rw [List.tail_cons] at made
  cases colon : behindColon? ahead with
  | none =>
      rw [colon] at made
      cases made
      exact Or.inr rfl
  | some more =>
      rw [colon] at made
      unfold behindColon? at colon
      split at colon
      · cases colon
        obtain ⟨value, rest, isNext, isValue, done⟩ := first?_bind_eq_ok made
        cases done
        exact Or.inl ⟨value, rest, by rw [isNext], isValue, rfl⟩
      · cases colon

theorem close_eq_ok {inner : Inner} {bracket : Bracket} (acted : close inner bracket left = .ok fold) :
    ∃ inside children, inner (left.take inside).reverse = .ok children ∧
      (fold.form = groupOf bracket children ∨
        ∃ name, fold.form = ⟨.call ⟨.ident name⟩ ⟨.paren children⟩⟩) := by
  unfold close at acted
  split at acted
  · cases acted
  · next inside _ =>
    cases within : inner (left.take inside).reverse with
    | error kind =>
        rw [within] at acted
        cases acted
    | ok children =>
        rw [within] at acted
        cases acted
        refine ⟨inside, children, within, ?_⟩
        unfold closed
        split
        · exact Or.inr ⟨_, rfl⟩
        · exact Or.inl rfl

end Actions

/-! ## Passes -/

variable {inner : Inner} {group : Group} {left right items after : List Item} {t : Token} {f : Form}
  {fold : Fold} {k l : Nat}

/-- The parts of the list are sound, and made by the first `k` passes. -/
def Made (k : Nat) (items : List Item) : Prop :=
  ∀ f, .part f ∈ items → f.Sound ∧ f.construct.level < k

theorem Made.mono (made : Made k items) (fewer : k ≤ l) : Made l items :=
  fun f member => ⟨(made f member).1, lt_of_lt_of_le (made f member).2 fewer⟩

theorem Made.sublist (made : Made k items) (sub : after ⊆ items) : Made k after :=
  fun f member => made f (sub member)

theorem made_token : Made k (.token t :: items) ↔ Made k items := by
  simp [Made]

theorem made_part :
    Made k (.part f :: items) ↔ (f.Sound ∧ f.construct.level < k) ∧ Made k items := by
  simp [Made]

theorem made_reverse : Made k items.reverse ↔ Made k items := by
  simp [Made]

/-- No function type stands right before a part. -/
def Ended (items : List Item) : Prop :=
  ∀ f rest, .part f :: rest <:+ items → f.construct.isType = true → f.construct.isPlainType = true ∨
    ¬ Followed rest

theorem Ended.suffix (ended : Ended items) (suffix : after <:+ items) : Ended after :=
  fun f rest isSuffix => ended f rest (isSuffix.trans suffix)

theorem Ended.token (ended : Ended items) : Ended (.token t :: items) := by
  intro f rest isSuffix
  rcases List.suffix_cons_iff.mp isSuffix with same | later
  · cases same
  · exact ended f rest later

theorem Ended.part (ended : Ended items)
    (here : f.construct.isType = true → f.construct.isPlainType = true ∨ ¬ Followed items) :
    Ended (.part f :: items) := by
  intro g rest isSuffix
  rcases List.suffix_cons_iff.mp isSuffix with same | later
  · cases same
    exact here
  · exact ended g rest later

/-- What a pass needs to know about the items to the right of its token. -/
def Prepared : Group → List Item → Prop
  | .arrow, right => Ended right
  | .sum, right => Made Group.sum.level right
  | _, _ => True

theorem terminated_sound {terminator : Token} {wrap : Form → Construct Form}
    (shape : ∀ operand : Form, operand.Sound → operand.construct.isExpression = true →
      Form.Sound ⟨wrap operand⟩)
    (level : ∀ operand, (wrap operand).level = Group.terminator.level) (behind : Made k left)
    (acted : terminated terminator wrap left = .ok fold) :
    fold.form.Sound ∧ fold.form.construct.level = Group.terminator.level := by
  unfold terminated at acted
  obtain ⟨operand, rest, rfl, isExpression, acted⟩ := first?_bind_eq_ok acted
  cases acted
  exact ⟨shape operand (made_part.mp behind).1.1 isExpression, level operand⟩

theorem arrow_sound (before : Made k left) (behind : Made l right) (ended : Ended right)
    (acted : arrow left right = .ok fold) :
    fold.form.Sound ∧ fold.form.construct.level = Group.arrow.level ∧
      Ended (.part fold.form :: right.drop fold.after) := by
  obtain ⟨params, _, result, ahead, rfl, isParen, rfl, isType, cases_⟩ := arrow_eq_ok acted
  have paramsSound := (made_part.mp before).1.1
  obtain ⟨⟨resultSound, _⟩, aheadMade⟩ := made_part.mp behind
  rcases cases_ with ⟨body, rest, rfl, isCurly, rfl⟩ | ⟨alone, rfl⟩
  · have bodySound := (made_part.mp aheadMade).1.1
    have isPlain : result.construct.isPlainType = true :=
      (ended result _ (List.suffix_refl _) isType).resolve_right fun notFollowed =>
        notFollowed ⟨body, rest, rfl⟩
    refine ⟨.mk rfl ⟨isParen, isPlain, isCurly⟩ ?_, rfl, ?_⟩
    · simp [Construct.parts, paramsSound, resultSound, bodySound]
    · exact (ended.suffix (List.drop_suffix 2 _)).part fun isType => by cases isType
  · refine ⟨.mk rfl ⟨isParen, isType⟩ ?_, rfl, ?_⟩
    · simp [Construct.parts, paramsSound, resultSound]
    · exact (ended.suffix (List.drop_suffix 1 _)).part fun _ => Or.inr alone

theorem close_sound {bracket : Bracket} (before : Made 1 left)
    (insides : ∀ items children, Made 1 items → inner items = .ok children → ∀ f ∈ children, f.Sound)
    (acted : close inner bracket left = .ok fold) :
    fold.form.Sound ∧ fold.form.construct.level = Group.bracket.level := by
  obtain ⟨inside, children, within, made⟩ := close_eq_ok acted
  have sound := insides _ _ (made_reverse.mpr (before.sublist (List.take_subset _ _))) within
  have group : (groupOf bracket children).Sound := by
    cases bracket <;> exact .mk rfl trivial sound
  rcases made with isGroup | ⟨name, isCall⟩
  · rw [isGroup]
    exact ⟨group, by cases bracket <;> rfl⟩
  · rw [isCall]
    refine ⟨.mk rfl ⟨rfl, rfl⟩ ?_, rfl⟩
    have callee : Form.Sound ⟨.ident name⟩ := .mk rfl trivial (by simp [Construct.parts])
    have args : Form.Sound ⟨.paren children⟩ := .mk rfl trivial sound
    simp [Construct.parts, callee, args]

/-- The right operand was made by an earlier pass, so it is no sum. -/
theorem sum_sound (before : Made k left) (behind : Made Group.sum.level right)
    (acted : sum left right = .ok fold) :
    fold.form.Sound ∧ fold.form.construct.level = Group.sum.level := by
  obtain ⟨l, _, r, _, rfl, isLeft, rfl, isRight, rfl⟩ := sum_eq_ok acted
  have leftSound := (made_part.mp before).1.1
  obtain ⟨rightSound, early⟩ := (made_part.mp behind).1
  refine ⟨.mk rfl ⟨isLeft, isRight, Construct.isSum_of_level early⟩ ?_, rfl⟩
  simp [Construct.parts, leftSound, rightSound]

theorem print_sound (behind : Made k right) (acted : print right = .ok fold) :
    fold.form.Sound ∧ fold.form.construct.level = Group.word.level := by
  obtain ⟨operand, _, rfl, isValue, acted⟩ := first?_bind_eq_ok acted
  cases acted
  have operandSound := (made_part.mp behind).1.1
  exact ⟨.mk rfl isValue (by simp [Construct.parts, operandSound]), rfl⟩

theorem returnWith_sound (behind : Made k right) :
    (returnWith right).form.Sound ∧ (returnWith right).form.construct.level = Group.word.level := by
  unfold returnWith
  split
  · next operand found =>
    obtain ⟨rest, rfl, isValue⟩ := first?_eq_some_iff.mp found
    have operandSound := (made_part.mp behind).1.1
    refine ⟨.mk rfl ?_ (by simp [Construct.parts, operandSound]), rfl⟩
    simpa [Construct.Shaped] using isValue
  · exact ⟨.mk rfl (by simp [Construct.Shaped]) (by simp [Construct.parts]), rfl⟩

theorem inferred_sound (before : Made k left) (behind : Made l right) (acted : inferred left right = .ok fold) :
    fold.form.Sound ∧ fold.form.construct.level = Group.binding.level := by
  obtain ⟨name, _, rfl, isIdent, acted⟩ := first?_bind_eq_ok acted
  obtain ⟨value, _, rfl, isValue, acted⟩ := first?_bind_eq_ok acted
  cases acted
  have nameSound := (made_part.mp before).1.1
  have valueSound := (made_part.mp behind).1.1
  refine ⟨.mk rfl ⟨isIdent, ?_⟩ ?_, rfl⟩
  · simpa using isValue
  · simp [Construct.parts, nameSound, valueSound]

theorem annotated_sound (before : Made k left) (behind : Made l right) (acted : annotated left right = .ok fold) :
    fold.form.Sound ∧ fold.form.construct.level = Group.binding.level := by
  obtain ⟨name, _, type, ahead, rfl, isIdent, rfl, isType, cases_⟩ := annotated_eq_ok acted
  have nameSound := (made_part.mp before).1.1
  obtain ⟨⟨typeSound, _⟩, aheadMade⟩ := made_part.mp behind
  rcases cases_ with ⟨value, rest, rfl, isValue, rfl⟩ | rfl
  · have valueSound := (made_part.mp (made_token.mp aheadMade)).1.1
    refine ⟨.mk rfl ⟨isIdent, ?_⟩ ?_, rfl⟩
    · simpa using ⟨isType, isValue⟩
    · simp [Construct.parts, nameSound, typeSound, valueSound]
  · refine ⟨.mk rfl ⟨isIdent, ?_⟩ ?_, rfl⟩
    · simpa using isType
    · simp [Construct.parts, nameSound, typeSound]

theorem assign_sound (before : Made k left) (behind : Made l right) (acted : assign left right = .ok fold) :
    fold.form.Sound ∧ fold.form.construct.level = Group.assign.level := by
  obtain ⟨target, _, rfl, isIdent, acted⟩ := first?_bind_eq_ok acted
  obtain ⟨value, _, rfl, isValue, acted⟩ := first?_bind_eq_ok acted
  cases acted
  have targetSound := (made_part.mp before).1.1
  have valueSound := (made_part.mp behind).1.1
  exact ⟨.mk rfl ⟨isIdent, isValue⟩ (by simp [Construct.parts, targetSound, valueSound]), rfl⟩

/-- An action makes a sound form of its group. -/
theorem act_sound (accepted : group.accepts t = true) (before : Made (group.level + 1) left)
    (behind : Made (group.level + 1) right) (prepared : Prepared group right)
    (insides : ∀ items children, Made 1 items → inner items = .ok children → ∀ f ∈ children, f.Sound)
    (acted : act inner left t right = .ok fold) :
    fold.form.Sound ∧ fold.form.construct.level = group.level := by
  cases group with
  | bracket =>
      cases t with
      | closing bracket => exact close_sound before insides acted
      | _ => cases accepted
  | leaf =>
      cases t with
      | ident | int | void | u64 =>
          cases acted
          exact ⟨.mk rfl trivial (by simp [Construct.parts]), rfl⟩
      | _ => cases accepted
  | arrow =>
      cases t with
      | arrow =>
          obtain ⟨sound, level, _⟩ := arrow_sound before behind prepared acted
          exact ⟨sound, level⟩
      | _ => cases accepted
  | sum =>
      cases t with
      | plus => exact sum_sound before prepared acted
      | _ => cases accepted
  | word =>
      cases t with
      | printWord => exact print_sound behind acted
      | returnWord =>
          cases acted
          exact returnWith_sound behind
      | _ => cases accepted
  | binding =>
      cases t with
      | doubleColon => exact inferred_sound before behind acted
      | colon => exact annotated_sound before behind acted
      | _ => cases accepted
  | assign =>
      cases t with
      | equals => exact assign_sound before behind acted
      | _ => cases accepted
  | terminator =>
      cases t with
      | semicolon | comma =>
          refine terminated_sound (fun operand sound isExpression => ?_) (fun _ => rfl) before acted
          exact .mk rfl isExpression (by simp [Construct.parts, sound])
      | _ => cases accepted

section Walks

variable
  (insides : ∀ items children, Made 1 items → inner items = .ok children → ∀ f ∈ children, f.Sound)
include insides

/-- From left to right: behind the walk are the parts made so far, ahead of it those of earlier
passes. -/
theorem scanRight_made (notArrow : group ≠ .arrow) (behind : Made (group.level + 1) left)
    (ahead : Made (max 1 group.level) right) (walked : scanRight inner group left right = .ok after) :
    Made (group.level + 1) after := by
  have earlier : max 1 group.level ≤ group.level + 1 := by omega
  fun_induction scanRight inner group left right with
  | case1 left =>
      cases walked
      exact made_reverse.mpr behind
  | case2 left f right ih =>
      obtain ⟨here, ahead⟩ := made_part.mp ahead
      exact ih (made_part.mpr ⟨⟨here.1, lt_of_lt_of_le here.2 earlier⟩, behind⟩) ahead walked
  | case3 left t right accepted ih =>
      have ahead' := made_token.mp ahead
      obtain ⟨fold, acted, rest⟩ := Except.bind_eq_ok walked
      have prepared : Prepared group right := by
        cases group with
        | sum => exact ahead'
        | arrow => exact absurd rfl notArrow
        | _ => trivial
      obtain ⟨sound, level⟩ := act_sound accepted behind (ahead'.mono earlier) prepared insides acted
      refine ih fold ?_ (ahead'.sublist (List.drop_subset _ _)) rest
      exact made_part.mpr ⟨⟨sound, by omega⟩, behind.sublist (List.drop_subset _ _)⟩
  | case4 left t right _ ih => exact ih (made_token.mpr behind) (made_token.mp ahead) walked

/-- From right to left: in the pass of arrows, the function types behind the walk have been made
where no part follows. -/
theorem scanLeft_made (notSum : group ≠ .sum) (behind : Made (group.level + 1) right)
    (ended : group = .arrow → Ended right) (ahead : Made (max 1 group.level) left)
    (walked : scanLeft inner group right left = .ok after) : Made (group.level + 1) after := by
  have earlier : max 1 group.level ≤ group.level + 1 := by omega
  fun_induction scanLeft inner group right left with
  | case1 right =>
      cases walked
      exact behind
  | case2 right f left ih =>
      obtain ⟨here, ahead⟩ := made_part.mp ahead
      refine ih (made_part.mpr ⟨⟨here.1, lt_of_lt_of_le here.2 earlier⟩, behind⟩) ?_ ahead walked
      rintro rfl
      exact (ended rfl).part fun isType => Or.inl (Construct.isPlainType_of_leaf isType here.2)
  | case3 right t left accepted ih =>
      have ahead' := made_token.mp ahead
      obtain ⟨fold, acted, rest⟩ := Except.bind_eq_ok walked
      have prepared : Prepared group right := by
        cases group with
        | arrow => exact ended rfl
        | sum => exact absurd rfl notSum
        | _ => trivial
      obtain ⟨sound, level⟩ := act_sound accepted (ahead'.mono earlier) behind prepared insides acted
      refine ih fold ?_ ?_ (ahead'.sublist (List.drop_subset _ _)) rest
      · exact made_part.mpr ⟨⟨sound, by omega⟩, behind.sublist (List.drop_subset _ _)⟩
      · rintro rfl
        cases t with
        | arrow => exact (arrow_sound (ahead'.mono earlier) behind (ended rfl) acted).2.2
        | _ => cases accepted
  | case4 right t left _ ih =>
      exact ih (made_token.mpr behind) (fun isArrow => (ended isArrow).token) (made_token.mp ahead) walked

theorem pass_made (made : Made (max 1 group.level) items) (passed : pass inner items group = .ok after) :
    Made (group.level + 1) after := by
  have nothing : ∀ k, Made k [] := by simp [Made]
  unfold pass at passed
  split at passed
  · next direction =>
    exact scanRight_made insides (by rintro rfl; cases direction) (nothing _) made passed
  · next direction =>
    refine scanLeft_made insides (by rintro rfl; cases direction) (nothing _) ?_
      (made_reverse.mpr made) passed
    intro _ f rest isSuffix
    exact absurd (List.suffix_nil.mp isSuffix) (List.cons_ne_nil _ _)

end Walks

/-- The passes behind the first `k`. -/
theorem passes_made
    (insides : ∀ items children, Made 1 items → inner items = .ok children → ∀ f ∈ children, f.Sound)
    (made : Made (max 1 k) items) (ran : (Group.byPriority.drop k).foldlM (pass inner) items = .ok after) :
    ∃ l, Made l after := by
  induction ahead : Group.byPriority.drop k generalizing k items with
  | nil =>
      rw [ahead] at ran
      cases ran
      exact ⟨_, made⟩
  | cons group groups ih =>
      have isNext : Group.byPriority[k]? = some group := by
        rw [← List.head?_drop, ahead]
        rfl
      have level : group.level = k := by
        have inBounds := (List.getElem?_eq_some_iff.mp isNext).1
        simp only [Group.byPriority, List.length_cons, List.length_nil] at inBounds
        interval_cases k <;> cases isNext <;> rfl
      have rest : Group.byPriority.drop (k + 1) = groups := by
        rw [← List.tail_drop, ahead]
        rfl
      rw [ahead, List.foldlM_cons] at ran
      obtain ⟨middle, passed, later⟩ := Except.bind_eq_ok ran
      subst level
      exact ih ((pass_made insides made passed).mono (le_max_right _ _)) (rest ▸ later) rest

theorem finish_sound {children : List Form} (made : Made k items)
    (finished : finish items = .ok children) : ∀ f ∈ children, f.Sound := by
  induction items generalizing children with
  | nil =>
      cases finished
      simp
  | cons item items ih =>
      cases item with
      | token t => cases finished
      | part f =>
          obtain ⟨here, later⟩ := made_part.mp made
          obtain ⟨others, finishedLater, same⟩ := Except.bind_eq_ok finished
          cases same
          simpa using ⟨here.1, ih later finishedLater⟩

/-- Bracket pairs inside, reduction makes sound forms of tokens and finished brackets. -/
theorem reduce_sound {depth : Nat} {children : List Form} (made : Made 1 items)
    (reduced : reduce depth items = .ok children) : ∀ f ∈ children, f.Sound := by
  induction depth generalizing items children with
  | zero => exact finish_sound made reduced
  | succ depth ih =>
      obtain ⟨passed, ran, finished⟩ := Except.bind_eq_ok reduced
      obtain ⟨_, done⟩ := passes_made (k := 0) (fun items children made => ih made) made ran
      exact finish_sound done finished

end Items

/-! ## Nodes -/

/-- Whether the construct of a node has a property; a missing node has none. -/
def ParseTree.has (tree : ParseTree) (id : NodeId) (property : Construct NodeId → Bool) : Bool :=
  (tree.nodes[id]?).any fun node => property node.construct

namespace Workspace

variable {w : Workspace} {forms : NodeId → Form} {id : NodeId} {node : Node} {lexemes : List Lexeme}
  {children : List Form} {tree : ParseTree}

/-- Every node but the root is sound if the children of the root are: it is listed by its parent. -/
theorem Parsed.sound (parsed : Parsed lexemes children tree w forms) (sound : ∀ f ∈ children, f.Sound)
    (found : w.nodes[id]? = some node) (notRoot : id ≠ 0) : (forms id).Sound := by
  induction gap : w.nodes.size - w.rank id using Nat.strong_induction_on generalizing id node with
  | _ gap ih =>
    cases isParent : node.parent with
    | none => exact absurd (parsed.valid.root id node found isParent) notRoot
    | some owner =>
        rcases parsed.valid.listed id node owner found isParent with isOpen | ⟨ownerNode, foundOwner, member⟩
        · cases isOpen
        · have form := parsed.valid.form owner ownerNode foundOwner List.not_mem_nil
          have inForm : forms id ∈ (forms owner).construct.parts := by
            rw [form]
            simpa [Construct.parts_map] using ⟨id, member, rfl⟩
          by_cases isFirst : owner = 0
          · subst isFirst
            rw [parsed.form] at inForm
            exact sound _ inForm
          · have higher := parsed.valid.rank_part_lt foundOwner List.not_mem_nil member
            have bounded := rank_lt_size (lt_size foundOwner)
            exact (ih _ (by omega) foundOwner isFirst rfl).parts _ inForm

theorem Parsed.shaped (parsed : Parsed lexemes children tree w forms) (sound : ∀ f ∈ children, f.Sound)
    (found : w.nodes[id]? = some node) : node.construct.Shaped tree.has := by
  have form := parsed.valid.form id node found List.not_mem_nil
  have nodes : tree.nodes = w.nodes := by rw [parsed.tree_eq]
  have partNode : ∀ n ∈ node.construct.parts, ∃ partNode : Node, w.nodes[n]? = some partNode := by
    intro n member
    obtain ⟨partNode, foundPart, _⟩ := (parsed.valid.tiles id node found List.not_mem_nil).part_bounds
      (Construct.part_mem_layout.mpr member)
    exact ⟨partNode, foundPart⟩
  have shaped : (node.construct.map forms).Shaped fun g property => property g.construct := by
    by_cases isFirst : id = 0
    · subst isFirst
      rw [parsed.form] at form
      rw [← (Form.mk.inj form)]
      trivial
    · have := (parsed.sound sound found isFirst).shaped
      rwa [form] at this
  refine Construct.Shaped.of_map (fun n => (w.nodes[n]?).elim .void (·.construct)) ?_ ?_ shaped
  · intro n member property
    obtain ⟨other, foundPart⟩ := partNode n member
    simp [ParseTree.has, nodes, foundPart]
  · intro n member property
    obtain ⟨other, foundPart⟩ := partNode n member
    rw [parsed.valid.form n other foundPart List.not_mem_nil]
    simp [foundPart]

end Workspace

/-- Every node of an accepted parse has its shape, and the whole source is the root and nothing
else. -/
theorem reduce_shapes (lexemes : List Lexeme) (tree : ParseTree) (reduced : reduce lexemes = .ok tree)
    (id : NodeId) (node : Node) (found : tree.nodes[id]? = some node) :
    node.construct.Shaped tree.has ∧ (node.construct.isRoot = true ↔ tree.root = some id) := by
  have agrees := Workspace.reduce_agrees lexemes
  rw [reduced] at agrees
  obtain ⟨children, ran, w, forms, parsed⟩ := agrees.of_ok
  have sound := Items.reduce_sound (by simp [Items.Made, Workspace.bareItems]) ran
  have nodes : tree.nodes = w.nodes := by rw [parsed.tree_eq]
  rw [nodes] at found
  refine ⟨parsed.shaped sound found, ?_⟩
  have form := parsed.valid.form id node found List.not_mem_nil
  rw [parsed.tree_eq, Option.some.injEq, ← Construct.isRoot_map forms]
  constructor
  · intro isRoot
    by_contra notFirst
    have notRoot := (parsed.sound sound found (Ne.symm notFirst)).notRoot
    rw [form] at notRoot
    exact Bool.false_ne_true (notRoot.symm.trans isRoot)
  · rintro rfl
    rw [parsed.form] at form
    rw [← Form.mk.inj form]
    rfl

/-- `f :: (g : () -> () -> void) -> u64 { return 1 + 2 + 3; };`, each token at its own place. -/
def curriedParameter : List Lexeme :=
  let tokens : List Token :=
    [.ident "f", .doubleColon, .opening .paren, .ident "g", .colon, .opening .paren, .closing .paren,
      .arrow, .opening .paren, .closing .paren, .arrow, .void, .closing .paren, .arrow, .u64,
      .opening .brace, .returnWord, .int 1, .plus, .int 2, .plus, .int 3, .semicolon, .closing .brace,
      .semicolon]
  tokens.zipIdx.map fun (token, i) => ⟨token, ⟨2 * i, 2 * i + 1⟩⟩

theorem reduce_shapes_curriedParameter : ∃ tree node, reduce curriedParameter = .ok tree ∧
    tree.nodes[14]? = some node ∧ node.construct = .sum 13 12 ∧
    node.construct.Shaped tree.has ∧ (node.construct.isRoot = true ↔ tree.root = some 14) := by
  have outer : (reduce curriedParameter).toOption.any (fun tree =>
      tree.nodes[14]?.any fun node => decide (node.construct = .sum 13 12)) = true := by
    decide +kernel
  simp only [Option.any_eq_true, toOption_eq_some_iff, decide_eq_true_eq] at outer
  obtain ⟨tree, reduced, node, found, isSum⟩ := outer
  exact ⟨tree, node, reduced, found, isSum, reduce_shapes curriedParameter tree reduced 14 node found⟩

end Rill

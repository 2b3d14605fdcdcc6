import Mathlib
import Rill.Phrase
import Rill.Proofs.Basic
import Rill.Token

/-!
# How a construct is written

The layout of a construct lists what it is written with, from left to right: its own tokens and its
parts. Written out to the end, a layout is a list of tokens.

* A form is a phrase without its places: `Phrase.form` drops them, and `Form.tokens` writes a form
  out.
* `Construct.map` changes the parts of a construct and nothing else; it commutes with everything that
  reads a construct.
-/

namespace Rill

variable {α β : Type}

/-- A token, or a part that is written in its place. -/
inductive Piece (α : Type) where
  | token (token : Token)
  | part (part : α)
deriving DecidableEq

namespace Piece

/-- Changes the part. -/
def map (f : α → β) : Piece α → Piece β
  | token t => token t
  | part a => part (f a)

/-- The part, if the piece is one. -/
def part? : Piece α → Option α
  | token _ => none
  | part a => some a

/-- What is written for the piece. -/
def written (f : α → List Token) : Piece α → List Token
  | token t => [t]
  | part a => f a

@[simp] theorem map_token (f : α → β) (t : Token) : (token t : Piece α).map f = token t := rfl

@[simp] theorem map_part (f : α → β) (a : α) : (part a).map f = part (f a) := rfl

@[simp] theorem part?_token (t : Token) : (token t : Piece α).part? = none := rfl

@[simp] theorem part?_part (a : α) : (part a).part? = some a := rfl

@[simp] theorem map_comp_part (f : α → β) : map f ∘ part = part ∘ f := rfl

theorem filterMap_parts (xs : List α) : (xs.map part).filterMap part? = xs := by
  induction xs with
  | nil => rfl
  | cons x xs ih => rw [List.map_cons, List.filterMap_cons_some (part?_part x), ih]

theorem mem_parts {pieces : List (Piece α)} {a : α} :
    a ∈ pieces.filterMap part? ↔ .part a ∈ pieces := by
  rw [List.mem_filterMap]
  constructor
  · rintro ⟨piece, member, isPart⟩
    cases piece with
    | token t => cases isPart
    | part b =>
        cases isPart
        exact member
  · exact fun member => ⟨.part a, member, rfl⟩

end Piece

namespace Construct

/-! ## Changing parts -/

/-- Changes every part. -/
def map (f : α → β) : Construct α → Construct β
  | root children => root (children.map f)
  | ident name => ident name
  | int value => int value
  | void => void
  | u64 => u64
  | paren children => paren (children.map f)
  | curly children => curly (children.map f)
  | call callee args => call (f callee) (f args)
  | function params result body => function (f params) (f result) (f body)
  | functionType params result => functionType (f params) (f result)
  | sum left right => sum (f left) (f right)
  | printU64 operand => printU64 (f operand)
  | returnWith operand => returnWith (operand.map f)
  | binding name type? value? => binding (f name) (type?.map f) (value?.map f)
  | assign target value => assign (f target) (f value)
  | statement operand => statement (f operand)
  | separator operand => separator (f operand)

@[simp] theorem isType_map (f : α → β) (c : Construct α) : (c.map f).isType = c.isType := by
  cases c <;> rfl

@[simp] theorem isValue_map (f : α → β) (c : Construct α) : (c.map f).isValue = c.isValue := by
  cases c <;> rfl

@[simp] theorem isExpression_map (f : α → β) (c : Construct α) :
    (c.map f).isExpression = c.isExpression := by
  cases c <;> rfl

@[simp] theorem isIdent_map (f : α → β) (c : Construct α) : (c.map f).isIdent = c.isIdent := by
  cases c <;> rfl

@[simp] theorem isParen_map (f : α → β) (c : Construct α) : (c.map f).isParen = c.isParen := by
  cases c <;> rfl

@[simp] theorem isCurly_map (f : α → β) (c : Construct α) : (c.map f).isCurly = c.isCurly := by
  cases c <;> rfl

/-- Only the parts matter to a change. -/
theorem map_congr {f g : α → β} {c : Construct α} (same : ∀ a ∈ c.parts, f a = g a) :
    c.map f = c.map g := by
  cases c with
  | root children | paren children | curly children => exact congrArg _ (List.map_congr_left same)
  | returnWith operand => cases operand <;> simp_all [map, parts]
  | binding name type? value? => cases type? <;> cases value? <;> simp_all [map, parts]
  | _ => simp_all [map, parts]

theorem map_map {γ : Type} (f : α → β) (g : β → γ) (c : Construct α) :
    (c.map f).map g = c.map (g ∘ f) := by
  cases c <;> simp [map]

theorem parts_map (f : α → β) (c : Construct α) : (c.map f).parts = c.parts.map f := by
  cases c with
  | returnWith operand => cases operand <;> rfl
  | binding name type? value? => cases type? <;> cases value? <;> rfl
  | _ => rfl

/-- Reading the parts of a construct one by one gives the changed construct. -/
theorem mapM_eq_ok {ε : Type} {f : α → Except ε β} {g : α → β} {c : Construct α}
    (reads : ∀ a ∈ c.parts, f a = .ok (g a)) : c.mapM f = .ok (c.map g) := by
  have list : ∀ {xs : List α}, (∀ a ∈ xs, f a = .ok (g a)) → xs.mapM f = .ok (xs.map g) := by
    intro xs each
    induction xs with
    | nil => rfl
    | cons x xs ih =>
        rw [List.mapM_cons, each x (by simp), ih fun a member => each a (by simp [member])]
        rfl
  cases c with
  | root children | paren children | curly children =>
      have read : children.mapM f = .ok (children.map g) := list reads
      simp [mapM, map, read, bind, Except.bind, pure, Except.pure]
  | returnWith operand =>
      cases operand <;> simp_all [mapM, map, parts, bind, Except.bind, pure, Except.pure]
  | binding name type? value? =>
      cases type? <;> cases value? <;>
        simp_all [mapM, map, parts, bind, Except.bind, pure, Except.pure]
  | _ => simp_all [mapM, map, parts, bind, Except.bind, pure, Except.pure]

/-- Only the parts of a construct are read. -/
theorem mapM_congr {ε : Type} {f g : α → Except ε β} {c : Construct α}
    (same : ∀ a ∈ c.parts, f a = g a) : c.mapM f = c.mapM g := by
  have list : ∀ {xs : List α}, (∀ a ∈ xs, f a = g a) → xs.mapM f = xs.mapM g := by
    intro xs each
    induction xs with
    | nil => rfl
    | cons x xs ih =>
        rw [List.mapM_cons, List.mapM_cons, each x (by simp), ih fun a member => each a (by simp [member])]
  cases c with
  | root children | paren children | curly children =>
      have read : children.mapM f = children.mapM g := list same
      simp only [mapM, read]
  | returnWith operand => cases operand <;> simp_all [mapM, parts]
  | binding name type? value? => cases type? <;> cases value? <;> simp_all [mapM, parts]
  | _ => simp_all [mapM, parts]

/-! ## Layout -/

/-- What the construct is written with, from left to right. -/
def layout : Construct α → List (Piece α)
  | root children => children.map .part
  | ident name => [.token (.ident name)]
  | int value => [.token (.int value)]
  | void => [.token .void]
  | u64 => [.token .u64]
  | paren children => .token (.opening .paren) :: (children.map .part ++ [.token (.closing .paren)])
  | curly children => .token (.opening .brace) :: (children.map .part ++ [.token (.closing .brace)])
  | call callee args => [.part callee, .part args]
  | function params result body => [.part params, .token .arrow, .part result, .part body]
  | functionType params result => [.part params, .token .arrow, .part result]
  | sum left right => [.part left, .token .plus, .part right]
  | printU64 operand => [.token .printWord, .part operand]
  | returnWith none => [.token .returnWord]
  | returnWith (some operand) => [.token .returnWord, .part operand]
  | binding name none none => [.part name]
  | binding name none (some value) => [.part name, .token .doubleColon, .part value]
  | binding name (some type) none => [.part name, .token .colon, .part type]
  | binding name (some type) (some value) =>
      [.part name, .token .colon, .part type, .token .colon, .part value]
  | assign target value => [.part target, .token .equals, .part value]
  | statement operand => [.part operand, .token .semicolon]
  | separator operand => [.part operand, .token .comma]

theorem layout_map (f : α → β) (c : Construct α) : (c.map f).layout = c.layout.map (Piece.map f) := by
  cases c with
  | returnWith operand => cases operand <;> rfl
  | binding name type? value? => cases type? <;> cases value? <;> rfl
  | _ => simp [map, layout]

/-- The parts are laid out in their order. -/
theorem layout_parts (c : Construct α) : c.layout.filterMap Piece.part? = c.parts := by
  cases c with
  | root children => exact Piece.filterMap_parts children
  | paren children | curly children =>
      rw [layout, List.filterMap_cons_none rfl, List.filterMap_append, Piece.filterMap_parts,
        List.filterMap_cons_none rfl, List.filterMap_nil, List.append_nil, parts]
  | returnWith operand => cases operand <;> rfl
  | binding name type? value? => cases type? <;> cases value? <;> rfl
  | _ => rfl

theorem part_mem_layout {c : Construct α} {a : α} : .part a ∈ c.layout ↔ a ∈ c.parts := by
  rw [← layout_parts, Piece.mem_parts]

/-! ## Parts with something inside -/

/-- The parts but for the name of a binding. -/
def inner : Construct α → List α
  | binding _ type? value? => type?.toList ++ value?.toList
  | c => c.parts

theorem inner_sublist (c : Construct α) : c.inner.Sublist c.parts := by
  cases c with
  | binding name type? value? => exact List.sublist_cons_self _ _
  | _ => exact List.Sublist.refl _

theorem inner_map (f : α → β) (c : Construct α) : (c.map f).inner = c.inner.map f := by
  cases c with
  | returnWith operand => cases operand <;> rfl
  | binding name type? value? => cases type? <;> cases value? <;> rfl
  | _ => rfl

end Construct

/-! ## Forms -/

/-- A construct over forms: a phrase without its places. -/
structure Form where
  construct : Construct Form

namespace Form

theorem sizeOf_part_lt {f g : Form} (member : .part g ∈ f.construct.layout) : sizeOf g < sizeOf f := by
  have smaller := Construct.sizeOf_part_lt (Construct.part_mem_layout.mp member)
  cases f
  simp at smaller ⊢
  omega

/-- The form as a list of tokens. -/
def tokens (f : Form) : List Token :=
  f.construct.layout.attach.flatMap fun piece =>
    match piece with
    | ⟨.token t, _⟩ => [t]
    | ⟨.part g, _⟩ => g.tokens
termination_by sizeOf f
decreasing_by exact sizeOf_part_lt ‹_›

/-- A form is written as its layout says, every part in its place. -/
theorem tokens_eq (f : Form) : f.tokens = f.construct.layout.flatMap (Piece.written tokens) := by
  rw [tokens]
  exact flatMap_attach fun piece => by rcases piece with ⟨_ | _, _⟩ <;> rfl

theorem tokens_mk (c : Construct Form) :
    (⟨c⟩ : Form).tokens = c.layout.flatMap (Piece.written tokens) :=
  tokens_eq ⟨c⟩

end Form

namespace Phrase

mutual

/-- The phrase without its places. -/
def form : Phrase → Form
  | ⟨construct, _⟩ => ⟨formConstruct construct⟩

/-- The construct over forms. -/
def formConstruct : Construct Phrase → Construct Form
  | .root children => .root (formList children)
  | .ident name => .ident name
  | .int value => .int value
  | .void => .void
  | .u64 => .u64
  | .paren children => .paren (formList children)
  | .curly children => .curly (formList children)
  | .call callee args => .call (form callee) (form args)
  | .function params result body => .function (form params) (form result) (form body)
  | .functionType params result => .functionType (form params) (form result)
  | .sum left right => .sum (form left) (form right)
  | .printU64 operand => .printU64 (form operand)
  | .returnWith operand => .returnWith (formOption operand)
  | .binding name type? value? => .binding (form name) (formOption type?) (formOption value?)
  | .assign target value => .assign (form target) (form value)
  | .statement operand => .statement (form operand)
  | .separator operand => .separator (form operand)

/-- The forms of several phrases. -/
def formList : List Phrase → List Form
  | [] => []
  | phrase :: phrases => form phrase :: formList phrases

/-- The form of an optional phrase. -/
def formOption : Option Phrase → Option Form
  | none => none
  | some phrase => some (form phrase)

end

theorem formList_eq_map (phrases : List Phrase) : formList phrases = phrases.map form := by
  induction phrases with
  | nil => rfl
  | cons phrase phrases ih => rw [formList, ih, List.map_cons]

theorem formOption_eq_map (phrase? : Option Phrase) : formOption phrase? = phrase?.map form := by
  cases phrase? <;> rfl

theorem form_construct (phrase : Phrase) : phrase.form.construct = phrase.construct.map form := by
  obtain ⟨construct, span⟩ := phrase
  cases construct <;>
    simp [form, formConstruct, Construct.map, formList_eq_map, formOption_eq_map]

theorem form_eq (phrase : Phrase) : phrase.form = ⟨phrase.construct.map form⟩ := by
  rw [← form_construct]
  cases phrase.form
  rfl

end Phrase

end Rill

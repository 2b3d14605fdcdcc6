import Mathlib
import Rill.Proofs.Reduction.Layout

/-!
# Phrases that differ in names and places

Renaming a form changes its identifiers and nothing else. Two phrases are alike when the form of the
second is the renamed form of the first; their spans need not have anything to do with each other.

`Phrase.Like.construct` takes two phrases apart: their constructs are of the same kind, and their parts
are alike.
-/

namespace Rill

variable {α β : Type}

/-! ## Renaming -/

/-- Renames an identifier; every other token stays as it is. -/
def Token.rename (ρ : String → String) : Token → Token
  | .ident name => .ident (ρ name)
  | token => token

/-- Renames an identifier; every other construct stays as it is. -/
def Construct.relabel (ρ : String → String) : Construct α → Construct α
  | .ident name => .ident (ρ name)
  | construct => construct

namespace Form

mutual

/-- Renames all identifiers of a form. -/
def rename (ρ : String → String) : Form → Form
  | ⟨construct⟩ => ⟨renameConstruct ρ construct⟩

/-- Renames all identifiers of a construct over forms. -/
def renameConstruct (ρ : String → String) : Construct Form → Construct Form
  | .root children => .root (renameList ρ children)
  | .ident name => .ident (ρ name)
  | .int value => .int value
  | .void => .void
  | .u64 => .u64
  | .paren children => .paren (renameList ρ children)
  | .curly children => .curly (renameList ρ children)
  | .call callee args => .call (rename ρ callee) (rename ρ args)
  | .function params result body => .function (rename ρ params) (rename ρ result) (rename ρ body)
  | .functionType params result => .functionType (rename ρ params) (rename ρ result)
  | .sum left right => .sum (rename ρ left) (rename ρ right)
  | .printU64 operand => .printU64 (rename ρ operand)
  | .returnWith operand => .returnWith (renameOption ρ operand)
  | .binding name type? value? =>
      .binding (rename ρ name) (renameOption ρ type?) (renameOption ρ value?)
  | .assign target value => .assign (rename ρ target) (rename ρ value)
  | .statement operand => .statement (rename ρ operand)
  | .separator operand => .separator (rename ρ operand)

/-- Renames all identifiers of several forms. -/
def renameList (ρ : String → String) : List Form → List Form
  | [] => []
  | form :: forms => rename ρ form :: renameList ρ forms

/-- Renames all identifiers of an optional form. -/
def renameOption (ρ : String → String) : Option Form → Option Form
  | none => none
  | some form => some (rename ρ form)

end

theorem renameList_eq_map (ρ : String → String) (forms : List Form) :
    renameList ρ forms = forms.map (rename ρ) := by
  induction forms with
  | nil => rfl
  | cons form forms ih => rw [renameList, ih, List.map_cons]

theorem renameOption_eq_map (ρ : String → String) (form? : Option Form) :
    renameOption ρ form? = form?.map (rename ρ) := by
  cases form? <;> rfl

/-- Renaming reaches the construct and its parts. -/
theorem rename_construct (ρ : String → String) (form : Form) :
    (form.rename ρ).construct = (form.construct.map (rename ρ)).relabel ρ := by
  obtain ⟨construct⟩ := form
  cases construct <;>
    simp [rename, renameConstruct, Construct.map, Construct.relabel, renameList_eq_map,
      renameOption_eq_map]

mutual

theorem rename_id : ∀ form : Form, form.rename id = form
  | ⟨construct⟩ => by rw [rename, renameConstruct_id construct]

theorem renameConstruct_id : ∀ construct : Construct Form, renameConstruct id construct = construct
  | .root children | .paren children | .curly children => by
      rw [renameConstruct, renameList_id children]
  | .ident _ | .int _ | .void | .u64 => rfl
  | .call first second | .functionType first second | .sum first second | .assign first second => by
      rw [renameConstruct, rename_id first, rename_id second]
  | .function params result body => by
      rw [renameConstruct, rename_id params, rename_id result, rename_id body]
  | .printU64 operand | .statement operand | .separator operand => by
      rw [renameConstruct, rename_id operand]
  | .returnWith operand => by rw [renameConstruct, renameOption_id operand]
  | .binding name type? value? => by
      rw [renameConstruct, rename_id name, renameOption_id type?, renameOption_id value?]

theorem renameList_id : ∀ forms : List Form, renameList id forms = forms
  | [] => rfl
  | form :: forms => by rw [renameList, rename_id form, renameList_id forms]

theorem renameOption_id : ∀ form? : Option Form, renameOption id form? = form?
  | none => rfl
  | some form => by rw [renameOption, rename_id form]

end

end Form

/-! ## Constructs over related parts -/

/-- Constructs of one kind whose parts are related one by one, and whose names are renamed. -/
inductive Construct.Like (ρ : String → String) (R : α → β → Prop) : Construct α → Construct β → Prop
  | root {children : List α} {children' : List β} : List.Forall₂ R children children' →
      Like ρ R (.root children) (.root children')
  | ident {name : String} : Like ρ R (.ident name) (.ident (ρ name))
  | int {value : UInt64} : Like ρ R (.int value) (.int value)
  | void : Like ρ R .void .void
  | u64 : Like ρ R .u64 .u64
  | paren {children : List α} {children' : List β} : List.Forall₂ R children children' →
      Like ρ R (.paren children) (.paren children')
  | curly {children : List α} {children' : List β} : List.Forall₂ R children children' →
      Like ρ R (.curly children) (.curly children')
  | call {callee args : α} {callee' args' : β} : R callee callee' → R args args' →
      Like ρ R (.call callee args) (.call callee' args')
  | function {params result body : α} {params' result' body' : β} : R params params' →
      R result result' → R body body' →
      Like ρ R (.function params result body) (.function params' result' body')
  | functionType {params result : α} {params' result' : β} : R params params' → R result result' →
      Like ρ R (.functionType params result) (.functionType params' result')
  | sum {left right : α} {left' right' : β} : R left left' → R right right' →
      Like ρ R (.sum left right) (.sum left' right')
  | printU64 {operand : α} {operand' : β} : R operand operand' →
      Like ρ R (.printU64 operand) (.printU64 operand')
  | returnWith {operand : Option α} {operand' : Option β} : Option.Rel R operand operand' →
      Like ρ R (.returnWith operand) (.returnWith operand')
  | binding {name : α} {name' : β} {type? value? : Option α} {type?' value?' : Option β} :
      R name name' → Option.Rel R type? type?' → Option.Rel R value? value?' →
      Like ρ R (.binding name type? value?) (.binding name' type?' value?')
  | assign {target value : α} {target' value' : β} : R target target' → R value value' →
      Like ρ R (.assign target value) (.assign target' value')
  | statement {operand : α} {operand' : β} : R operand operand' →
      Like ρ R (.statement operand) (.statement operand')
  | separator {operand : α} {operand' : β} : R operand operand' →
      Like ρ R (.separator operand) (.separator operand')

namespace Construct.Like

variable {ρ : String → String} {R : α → β → Prop} {c : Construct α} {c' : Construct β}

/-- Constructs of one kind have one name. -/
theorem name_eq (alike : c.Like ρ R c') : c'.name = c.name := by
  cases alike <;> rfl

theorem isIdent_eq (alike : c.Like ρ R c') : c'.isIdent = c.isIdent := by
  cases alike <;> rfl

theorem isType_eq (alike : c.Like ρ R c') : c'.isType = c.isType := by
  cases alike <;> rfl

theorem isValue_eq (alike : c.Like ρ R c') : c'.isValue = c.isValue := by
  cases alike <;> rfl

theorem isCurly_eq (alike : c.Like ρ R c') : c'.isCurly = c.isCurly := by
  cases alike <;> rfl

end Construct.Like

/-! ## Phrases -/

namespace Phrase

/-- The second phrase is the first one with other names and other places. -/
def Like (ρ : String → String) (phrase phrase' : Phrase) : Prop :=
  phrase'.form = phrase.form.rename ρ

variable {ρ : String → String} {phrase phrase' : Phrase}

theorem forall₂_like {phrases phrases' : List Phrase}
    (same : phrases'.map form = phrases.map fun phrase => phrase.form.rename ρ) :
    List.Forall₂ (Like ρ) phrases phrases' := by
  rw [← List.forall₂_eq_eq_eq, List.forall₂_map_left_iff, List.forall₂_map_right_iff] at same
  exact same.flip

theorem optionRel_like {phrase? phrase?' : Option Phrase}
    (same : phrase?'.map form = phrase?.map fun phrase => phrase.form.rename ρ) :
    Option.Rel (Like ρ) phrase? phrase?' := by
  cases phrase? <;> cases phrase?' <;> simp at same
  · exact .none
  · exact .some same

/-- Phrases that are alike have constructs of one kind with parts that are alike. -/
theorem Like.construct (alike : Like ρ phrase phrase') :
    phrase.construct.Like ρ (Like ρ) phrase'.construct := by
  have same := congrArg Form.construct alike
  rw [Form.rename_construct, form_construct, form_construct, Construct.map_map] at same
  generalize phrase.construct = c at same ⊢
  generalize phrase'.construct = c' at same ⊢
  cases c <;> cases c' <;> simp only [Construct.map, Construct.relabel, reduceCtorEq] at same
  case root.root => exact .root (forall₂_like (Construct.root.inj same))
  case ident.ident =>
    cases same
    exact .ident
  case int.int =>
    cases same
    exact .int
  case void.void => exact .void
  case u64.u64 => exact .u64
  case paren.paren => exact .paren (forall₂_like (Construct.paren.inj same))
  case curly.curly => exact .curly (forall₂_like (Construct.curly.inj same))
  case call.call => exact .call (Construct.call.inj same).1 (Construct.call.inj same).2
  case function.function =>
    obtain ⟨params, result, body⟩ := Construct.function.inj same
    exact .function params result body
  case functionType.functionType =>
    obtain ⟨params, result⟩ := Construct.functionType.inj same
    exact .functionType params result
  case sum.sum => exact .sum (Construct.sum.inj same).1 (Construct.sum.inj same).2
  case printU64.printU64 => exact .printU64 (Construct.printU64.inj same)
  case returnWith.returnWith => exact .returnWith (optionRel_like (Construct.returnWith.inj same))
  case binding.binding =>
    obtain ⟨name, type?, value?⟩ := Construct.binding.inj same
    exact .binding name (optionRel_like type?) (optionRel_like value?)
  case assign.assign => exact .assign (Construct.assign.inj same).1 (Construct.assign.inj same).2
  case statement.statement => exact .statement (Construct.statement.inj same)
  case separator.separator => exact .separator (Construct.separator.inj same)

end Phrase

end Rill

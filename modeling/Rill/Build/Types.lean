import Rill.Build.Context

/-!
# Building types

A phrase in type position becomes a type: `void`, `u64`, a name in scope, or a function type.

The items of a function type's parameter list are types or bindings `name : Type`; the name of such a
binding says nothing. A phrase in place of the parameter list counts as its only item.
-/

namespace Rill

namespace Build

/-- A type without inner types. -/
def plainType (phrase : Phrase) : Build Term :=
  match phrase.construct with
  | .void => return .voidAt phrase.span
  | .u64 => return .u64At phrase.span
  | .ident name => return .untyped (.variable (← resolve name phrase.span)) phrase.span
  | construct => refuse (.notAType construct.name) phrase.span

/-- An item of a parameter list without inner types. -/
def plainItem (phrase : Phrase) : Build Term :=
  match phrase.construct with
  | .binding .. => refuse .invalidArgument phrase.span
  | _ => plainType phrase

mutual

/-- The type that a phrase stands for. -/
def buildType : Phrase → Build Term
  | ⟨.functionType params result, span⟩ => do
      let args ← buildParamTypes params
      let result ← buildType result
      return .untyped (.functionType args result) span
  | phrase => plainType phrase

/-- The types of a parameter list. -/
def buildParamTypes : Phrase → Build (List Term)
  | ⟨.paren items, _⟩ => buildItemTypes items
  | ⟨.binding _ (some type) none, _⟩ => return [← buildType type]
  | ⟨.functionType params result, span⟩ => do
      let args ← buildParamTypes params
      let result ← buildType result
      return [.untyped (.functionType args result) span]
  | phrase => return [← plainItem phrase]

/-- The types of the items between parentheses, from left to right. -/
def buildItemTypes : List Phrase → Build (List Term)
  | [] => return []
  | ⟨.separator item, _⟩ :: items => do
      let type ← buildItemType item
      return type :: (← buildItemTypes items)
  | item :: items => do
      let type ← buildItemType item
      return type :: (← buildItemTypes items)

/-- The type of one item. -/
def buildItemType : Phrase → Build Term
  | ⟨.binding _ (some type) none, _⟩ => buildType type
  | ⟨.functionType params result, span⟩ => do
      let args ← buildParamTypes params
      let result ← buildType result
      return .untyped (.functionType args result) span
  | phrase => plainItem phrase

end

/-! ## Parameters -/

/-- The items of a parameter list without their commas. -/
def paramItems (params : Phrase) : List Phrase :=
  match params.construct with
  | .paren items => items.map fun item =>
      match item.construct with
      | .separator inner => inner
      | _ => item
  | _ => [params]

/-- A parameter `name : Type`. -/
structure Param where
  name : String
  nameSpan : Span
  type : Phrase

/-- Reads a parameter of a function. -/
def readParam (phrase : Phrase) : Build Param :=
  match phrase.construct with
  | .binding namePhrase type? value? => do
      let name ← nameOf namePhrase
      if value?.isSome then refuse (.defaultedArgument name) phrase.span
      else
        match type? with
        | some type => return ⟨name, namePhrase.span, type⟩
        | none => refuse .invalidArgument phrase.span
  | _ => refuse .invalidArgument phrase.span

/-- The type of an unannotated global, when it can be read off its value without building it. -/
def literalType? (value : Phrase) : Build (Option Term) :=
  match value.construct with
  | .int _ => return some (.u64At value.span)
  | .function params result _ => do
      let result ← buildType result
      let args ← (paramItems params).mapM fun item => do buildType (← readParam item).type
      return some (.untyped (.functionType args result) value.span)
  | _ => return none

end Build

end Rill

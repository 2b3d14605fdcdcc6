import Mathlib
import Rill.Build.Values

/-!
# Induction over what is built

Types, values, bodies and statements are built by recursion on phrases. The two induction principles
of this module follow that recursion with one case for each kind of phrase, and the equations beside
them say what is built where the definitions fall through.

* `type_induction`: a function type is built from its result and from the items of its parameter list;
  every other type stands alone.
* `phrase_induction`: values, bodies, lists of statements and statements, together.
-/

namespace Rill

/-- Whether a statement can be built from the construct. -/
def Construct.isStatement {α : Type} : Construct α → Bool
  | binding .. | printU64 _ | returnWith _ | assign .. | call .. => true
  | _ => false

namespace Build

/-! ## Types -/

/-- The phrase that an item of a parameter list gives as a type: the type of a parameter `name : Type`,
or else the item itself. -/
def itemType? (item : Phrase) : Option Phrase :=
  match item.construct with
  | .binding _ (some type) none => some type
  | .binding .. => none
  | _ => some item

theorem buildType_plain {phrase : Phrase}
    (plain : ∀ params result, phrase.construct ≠ .functionType params result) :
    buildType phrase = plainType phrase := by
  refine buildType.eq_2 phrase fun params result span same => ?_
  subst same
  exact plain params result rfl

theorem buildItemType_eq (item : Phrase) :
    buildItemType item = (itemType? item).elim (refuse .invalidArgument item.span) buildType := by
  obtain ⟨construct, span⟩ := item
  cases construct with
  | binding name type? value? =>
      cases type? <;> cases value? <;> simp [buildItemType, itemType?, plainItem]
  | functionType params result => simp [buildItemType, buildType, itemType?]
  | _ => simp [buildItemType, buildType, itemType?, plainItem]

/-- A property of what is built from an item, whether or not the item gives a type. -/
theorem buildItemType_cases {P : Build Term → Prop} {item : Phrase}
    (refused : P (refuse .invalidArgument item.span))
    (typed : ∀ type, itemType? item = some type → P (buildType type)) : P (buildItemType item) := by
  rw [buildItemType_eq]
  cases given : itemType? item with
  | none => exact refused
  | some type => exact typed type given

theorem buildItemTypes_eq (items : List Phrase) (span : Span) :
    buildItemTypes items = (paramItems ⟨.paren items, span⟩).mapM buildItemType := by
  induction items with
  | nil => simp [buildItemTypes, paramItems]
  | cons item items ih =>
      simp only [paramItems, List.map_cons, List.mapM_cons] at ih ⊢
      obtain ⟨construct, itemSpan⟩ := item
      cases construct with
      | separator inner => simp only [buildItemTypes, ih]
      | _ => simp [buildItemTypes, ih]

theorem buildParamTypes_eq (params : Phrase) :
    buildParamTypes params = (paramItems params).mapM buildItemType := by
  obtain ⟨construct, span⟩ := params
  cases construct with
  | paren items => rw [buildParamTypes, buildItemTypes_eq items span]
  | binding name type? value? =>
      cases type? <;> cases value? <;> simp [buildParamTypes, paramItems, buildItemType]
  | _ => simp [buildParamTypes, paramItems, buildItemType]

theorem buildType_functionType (params result : Phrase) (span : Span) :
    buildType ⟨.functionType params result, span⟩ = do
      let args ← (paramItems params).mapM buildItemType
      let result ← buildType result
      return .untyped (.functionType args result) span := by
  rw [buildType, buildParamTypes_eq]

section Gathering

variable {β : Type} {gather : Phrase → List β}

/-- What is gathered from a parameter list is gathered from its items. -/
theorem flatMap_paramItems (paren : ∀ items span, gather ⟨.paren items, span⟩ = items.flatMap gather)
    (separator : ∀ item span, gather ⟨.separator item, span⟩ = gather item) (params : Phrase) :
    (paramItems params).flatMap gather = gather params := by
  obtain ⟨construct, span⟩ := params
  cases construct with
  | paren items =>
      simp only [paramItems, List.flatMap_map]
      rw [paren]
      refine List.flatMap_congr fun item _ => ?_
      obtain ⟨construct, itemSpan⟩ := item
      cases construct with
      | separator inner => exact (separator inner itemSpan).symm
      | _ => rfl
  | _ => simp [paramItems]

theorem gather_itemType
    (binding : ∀ name type span, gather ⟨.binding name (some type) none, span⟩ = gather type)
    {item type : Phrase} (given : itemType? item = some type) : gather item = gather type := by
  obtain ⟨construct, span⟩ := item
  unfold itemType? at given
  split at given
  · next shape =>
    cases shape
    cases given
    exact binding _ _ span
  · cases given
  · cases given
    rfl

end Gathering

theorem sizeOf_item_le {item params : Phrase} (member : item ∈ paramItems params) :
    sizeOf item ≤ sizeOf params := by
  obtain ⟨construct, span⟩ := params
  cases construct with
  | paren items =>
      obtain ⟨listed, inList, rfl⟩ := List.mem_map.mp member
      have inParams : listed ∈ Phrase.parts ⟨.paren items, span⟩ := inList
      have smaller := Phrase.sizeOf_part_lt inParams
      split
      · next inner isSeparator =>
        have inListed : inner ∈ listed.parts := by simp [Phrase.parts, isSeparator, Construct.parts]
        exact ((Phrase.sizeOf_part_lt inListed).trans smaller).le
      · exact smaller.le
  | _ =>
      cases List.mem_singleton.mp member
      exact le_rfl

theorem sizeOf_itemType_le {item type : Phrase} (given : itemType? item = some type) :
    sizeOf type ≤ sizeOf item := by
  unfold itemType? at given
  split at given
  · next shape =>
    cases given
    have inItem : type ∈ item.parts := by simp [Phrase.parts, shape, Construct.parts]
    exact (Phrase.sizeOf_part_lt inItem).le
  · cases given
  · cases given
    exact le_rfl

/-- Induction over a phrase that is read as a type. -/
theorem type_induction {motive : Phrase → Prop}
    (plain : ∀ phrase, (∀ params result, phrase.construct ≠ .functionType params result) → motive phrase)
    (functionType : ∀ params result span,
      (∀ item ∈ paramItems params, ∀ type, itemType? item = some type → motive type) → motive result →
      motive ⟨.functionType params result, span⟩)
    (phrase : Phrase) : motive phrase := by
  induction size : sizeOf phrase using Nat.strong_induction_on generalizing phrase with
  | h n ih =>
      subst size
      obtain ⟨construct, span⟩ := phrase
      cases construct with
      | functionType params result =>
          have parts : sizeOf params < sizeOf (Phrase.mk (.functionType params result) span) ∧
              sizeOf result < sizeOf (Phrase.mk (.functionType params result) span) :=
            ⟨Phrase.sizeOf_part_lt (by simp [Phrase.parts, Construct.parts]),
              Phrase.sizeOf_part_lt (by simp [Phrase.parts, Construct.parts])⟩
          refine functionType params result span (fun item member type given => ?_) (ih _ parts.2 result rfl)
          have below := (sizeOf_itemType_le given).trans (sizeOf_item_le member)
          exact ih _ (below.trans_lt parts.1) type rfl
      | _ => exact plain _ (by simp)

/-! ## Values and statements -/

theorem buildValue_type {phrase : Phrase} (isType : phrase.construct.isType = true)
    (noName : phrase.construct.isIdent = false) : buildValue phrase = buildType phrase := by
  obtain ⟨construct, span⟩ := phrase
  cases construct with
  | void | u64 | functionType => rw [buildValue]
  | ident => cases noName
  | _ => cases isType

theorem buildValue_refused {phrase : Phrase} (noValue : phrase.construct.isValue = false) :
    buildValue phrase = refuse (.notAValue phrase.construct.name) phrase.span := by
  obtain ⟨construct, span⟩ := phrase
  cases construct with
  | int | ident | void | u64 | functionType | function | sum | call => cases noValue
  | _ => rw [buildValue] <;> simp

theorem buildBody_refused {locals : TableId} {phrase : Phrase} (noBlock : phrase.construct.isCurly = false) :
    buildBody locals phrase = refuse (.notAStatement phrase.construct.name) phrase.span := by
  obtain ⟨construct, span⟩ := phrase
  cases construct with
  | curly => cases noBlock
  | _ => rw [buildBody]; simp

theorem buildStatement_refused {locals : TableId} {phrase : Phrase}
    (noStatement : phrase.construct.isStatement = false) :
    buildStatement locals phrase = refuse (.unsupportedStatement phrase.construct.name) phrase.span := by
  obtain ⟨construct, span⟩ := phrase
  cases construct with
  | binding | printU64 | returnWith | assign | call => cases noStatement
  | _ => rw [buildStatement] <;> simp

theorem buildStatements_refused {locals : TableId} {phrase : Phrase} {rest : List Phrase}
    (unclosed : ∀ inner, phrase.construct ≠ .statement inner) :
    buildStatements locals (phrase :: rest) = refuse (.notAStatement phrase.construct.name) phrase.span := by
  obtain ⟨construct, span⟩ := phrase
  exact buildStatements.eq_3 locals construct span rest unclosed

/-- Induction over phrases by the kind of place they stand in. -/
theorem phrase_induction {ofValue : Phrase → Prop} {ofBody : TableId → Phrase → Prop}
    {ofStatements : TableId → List Phrase → Prop} {ofStatement : TableId → Phrase → Prop}
    (int : ∀ value span, ofValue ⟨.int value, span⟩)
    (ident : ∀ name span, ofValue ⟨.ident name, span⟩)
    (type : ∀ phrase, phrase.construct.isType = true → phrase.construct.isIdent = false → ofValue phrase)
    (function : ∀ params result body span, (∀ locals, ofBody locals body) →
      ofValue ⟨.function params result body, span⟩)
    (sum : ∀ left right span, ofValue left → ofValue right → ofValue ⟨.sum left right, span⟩)
    (call : ∀ callee args span, ofValue callee → ofValue ⟨.call callee args, span⟩)
    (noValue : ∀ phrase, phrase.construct.isValue = false → ofValue phrase)
    (block : ∀ locals children span, ofStatements locals children → ofBody locals ⟨.curly children, span⟩)
    (noBlock : ∀ locals phrase, phrase.construct.isCurly = false → ofBody locals phrase)
    (done : ∀ locals, ofStatements locals [])
    (next : ∀ locals inner span rest, ofStatement locals inner → ofStatements locals rest →
      ofStatements locals (⟨.statement inner, span⟩ :: rest))
    (unclosed : ∀ locals phrase rest, (∀ inner, phrase.construct ≠ .statement inner) →
      ofStatements locals (phrase :: rest))
    (binding : ∀ locals name type? value span, ofValue value →
      ofStatement locals ⟨.binding name type? (some value), span⟩)
    (missingValue : ∀ locals name type? span, ofStatement locals ⟨.binding name type? none, span⟩)
    (print : ∀ locals operand span, ofValue operand → ofStatement locals ⟨.printU64 operand, span⟩)
    (bareReturn : ∀ locals span, ofStatement locals ⟨.returnWith none, span⟩)
    (valueReturn : ∀ locals operand span, ofValue operand →
      ofStatement locals ⟨.returnWith (some operand), span⟩)
    (assign : ∀ locals target value span, ofValue value → ofStatement locals ⟨.assign target value, span⟩)
    (callAlone : ∀ locals callee args span, ofValue callee → ofStatement locals ⟨.call callee args, span⟩)
    (noStatement : ∀ locals phrase, phrase.construct.isStatement = false → ofStatement locals phrase) :
    (∀ phrase, ofValue phrase) ∧ (∀ locals phrase, ofBody locals phrase) ∧
    (∀ locals phrases, ofStatements locals phrases) ∧ (∀ locals phrase, ofStatement locals phrase) := by
  refine buildValue.mutual_induct ofValue ofBody ofStatements ofStatement int ident ?void ?u64 ?functionType
    function sum call ?noValue block ?noBlock binding missingValue print bareReturn valueReturn assign callAlone
    ?noStatement done next ?unclosed
  case void | u64 =>
    intro span
    exact type _ rfl rfl
  case functionType =>
    intro params result span
    exact type _ rfl rfl
  case noValue =>
    intro construct span notInt notIdent notVoid notU64 notFunctionType notFunction notSum notCall
    refine noValue _ ?_
    cases construct with
    | int => exact absurd rfl (notInt _)
    | ident => exact absurd rfl (notIdent _)
    | void => exact absurd rfl notVoid
    | u64 => exact absurd rfl notU64
    | functionType => exact absurd rfl (notFunctionType _ _)
    | function => exact absurd rfl (notFunction _ _ _)
    | sum => exact absurd rfl (notSum _ _)
    | call => exact absurd rfl (notCall _ _)
    | _ => rfl
  case noBlock =>
    intro locals construct span notCurly
    refine noBlock locals _ ?_
    cases construct with
    | curly => exact absurd rfl (notCurly _)
    | _ => rfl
  case noStatement =>
    intro locals construct span notBinding notBare notPrint notBareReturn notReturn notAssign notCall
    refine noStatement locals _ ?_
    cases construct with
    | binding name type? value? =>
        cases value? with
        | none => exact absurd rfl (notBare _ _)
        | some value => exact absurd rfl (notBinding _ _ _)
    | printU64 => exact absurd rfl (notPrint _)
    | returnWith operand? =>
        cases operand? with
        | none => exact absurd rfl notBareReturn
        | some operand => exact absurd rfl (notReturn _)
    | assign => exact absurd rfl (notAssign _ _)
    | call => exact absurd rfl (notCall _ _)
    | _ => rfl
  case unclosed =>
    intro locals construct span rest notStatement
    exact unclosed locals _ rest notStatement

end Build

end Rill

import Mathlib
import Rill.Build.Values
import Rill.Proofs.Basic
import Rill.Proofs.TypeEquality

/-!
# Programs that differ in names, places and ids

Two programs may say the same with other names, other spans and other ids. A pairing says which
names, tables, variables and functions of the first stand for which of the second.

* `TypeLike`, `ValueLike` and `StatementLike` say that two terms are the same up to the pairing.
  Spans play no part.
* A pairing grows while two programs are built side by side; what is alike stays alike (`mono`).
* Type equality and satisfaction give the same answer on both sides (`typeEquals_alike`,
  `satisfies_alike`).
-/

namespace Rill

/-- What stands for what in two programs. -/
structure Pairing where
  name : String → String
  table : TableId → TableId → Prop
  var : VarRef → VarRef → Prop
  function : FunctionId → FunctionId → Prop
  /-- The variables of the first program that may be given their values at another time than in the
  second. -/
  late : VarRef → Prop
  name_injective : Function.Injective name
  table_unique : Relator.BiUnique table
  var_unique : Relator.BiUnique var

namespace Pairing

variable {P P' P'' : Pairing}

/-- Every pair of variables and of functions is one of the other pairing too. -/
structure Within (P P' : Pairing) : Prop where
  var : ∀ {ref ref'}, P.var ref ref' → P'.var ref ref'
  function : ∀ {id id'}, P.function id id' → P'.function id id'

/-- The pairing of the same programs with more tables, variables and functions. -/
structure Extends (P P' : Pairing) : Prop extends Within P P' where
  name : P'.name = P.name
  table : ∀ {t t'}, P.table t t' → P'.table t t'
  late : P'.late = P.late

theorem Extends.refl (P : Pairing) : P.Extends P :=
  ⟨⟨id, id⟩, rfl, id, rfl⟩

theorem Extends.trans (first : P.Extends P') (second : P'.Extends P'') : P.Extends P'' :=
  ⟨⟨fun paired => second.var (first.var paired), fun paired => second.function (first.function paired)⟩,
    second.name.trans first.name, fun paired => second.table (first.table paired),
    second.late.trans first.late⟩

/-! ## Terms -/

/-- Types that are the same up to the pairing. -/
inductive TypeLike (P : Pairing) : Term → Term → Prop
  | void {span span' : Span} : P.TypeLike (.voidAt span) (.voidAt span')
  | u64 {span span' : Span} : P.TypeLike (.u64At span) (.u64At span')
  | variable {ref ref' : VarRef} {span span' : Span} : P.var ref ref' →
      P.TypeLike (.untyped (.variable ref) span) (.untyped (.variable ref') span')
  | functionType {args args' : List Term} {result result' : Term} {span span' : Span} :
      args.length = args'.length → (∀ arg arg', (arg, arg') ∈ args.zip args' → P.TypeLike arg arg') →
      P.TypeLike result result' →
      P.TypeLike (.untyped (.functionType args result) span)
        (.untyped (.functionType args' result') span')

/-- Values that are the same up to the pairing, with their types. -/
inductive ValueLike (P : Pairing) : Term → Term → Prop
  | int {value : UInt64} {span span' : Span} : P.ValueLike (.intAt value span) (.intAt value span')
  | type {type type' : Term} : P.TypeLike type type' → (∀ ref, type.shape ≠ .variable ref) →
      P.ValueLike type type'
  | variable {ref ref' : VarRef} {type? type?' : Option Term} {span span' : Span} :
      P.var ref ref' → Option.Rel P.TypeLike type? type?' →
      P.ValueLike ⟨.variable ref, type?, span⟩ ⟨.variable ref', type?', span'⟩
  | function {id id' : FunctionId} {type type' : Term} {span span' : Span} :
      P.function id id' → P.TypeLike type type' →
      P.ValueLike ⟨.function id, some type, span⟩ ⟨.function id', some type', span'⟩
  | sum {left right left' right' : Term} {span span' : Span} :
      P.ValueLike left left' → P.ValueLike right right' →
      P.ValueLike (.typed (.sum left right) (.u64At span) span)
        (.typed (.sum left' right') (.u64At span') span')
  | call {callee callee' : Term} {type? type?' : Option Term} {span span' : Span} :
      P.ValueLike callee callee' → Option.Rel P.TypeLike type? type?' →
      P.ValueLike ⟨.call callee [], type?, span⟩ ⟨.call callee' [], type?', span'⟩

/-- Statements that are the same up to the pairing. -/
inductive StatementLike (P : Pairing) : Term → Term → Prop
  | print {operand operand' : Term} {span span' : Span} : P.ValueLike operand operand' →
      P.StatementLike (.untyped (.printU64 operand) span) (.untyped (.printU64 operand') span')
  | call {callee callee' : Term} {type? type?' : Option Term} {span span' : Span} :
      P.ValueLike ⟨.call callee [], type?, span⟩ ⟨.call callee' [], type?', span'⟩ →
      P.StatementLike ⟨.call callee [], type?, span⟩ ⟨.call callee' [], type?', span'⟩
  | assign {target target' : VarRef} {value value' : Term} {span span' : Span} :
      P.var target target' → P.ValueLike value value' →
      P.StatementLike (.untyped (.assign target value) span) (.untyped (.assign target' value') span')
  | define {target target' : VarRef} {value value' : Term} {span span' : Span} :
      P.var target target' → P.ValueLike value value' →
      P.StatementLike (.untyped (.define target value) span) (.untyped (.define target' value') span')
  | bareReturn {span span' : Span} :
      P.StatementLike (.untyped (.returnWith none) span) (.untyped (.returnWith none) span')
  | valueReturn {value value' : Term} {span span' : Span} : P.ValueLike value value' →
      P.StatementLike (.untyped (.returnWith (some value)) span)
        (.untyped (.returnWith (some value')) span')

/-! ## More pairs -/

section Mono

variable {a b : Term} {a? b? : Option Term}

theorem TypeLike.mono (within : P.Within P') (alike : P.TypeLike a b) : P'.TypeLike a b := by
  induction alike with
  | void => exact .void
  | u64 => exact .u64
  | «variable» paired => exact .variable (within.var paired)
  | functionType lengths _ _ argsIh resultIh => exact .functionType lengths argsIh resultIh

theorem typesLike_mono (within : P.Within P') (alike : Option.Rel P.TypeLike a? b?) :
    Option.Rel P'.TypeLike a? b? :=
  optionRel_mono alike fun _ _ => TypeLike.mono within

theorem ValueLike.mono (within : P.Within P') (alike : P.ValueLike a b) : P'.ValueLike a b := by
  induction alike with
  | int => exact .int
  | type alike noName => exact .type (alike.mono within) noName
  | «variable» paired types => exact .variable (within.var paired) (typesLike_mono within types)
  | function paired types => exact .function (within.function paired) (types.mono within)
  | sum _ _ leftIh rightIh => exact .sum leftIh rightIh
  | call _ types calleeIh => exact .call calleeIh (typesLike_mono within types)

theorem StatementLike.mono (within : P.Within P') (alike : P.StatementLike a b) :
    P'.StatementLike a b := by
  cases alike with
  | print operand => exact .print (operand.mono within)
  | call call => exact .call (call.mono within)
  | assign target value => exact .assign (within.var target) (value.mono within)
  | define target value => exact .define (within.var target) (value.mono within)
  | bareReturn => exact .bareReturn
  | valueReturn value => exact .valueReturn (value.mono within)

end Mono

/-! ## Types -/

section Types

variable {a a' b b' : Term}

theorem exists_mem_zip_left {xs ys : List Term} (lengths : xs.length = ys.length) {x : Term}
    (member : x ∈ xs) : ∃ y, (x, y) ∈ xs.zip ys := by
  obtain ⟨i, inBounds, rfl⟩ := List.mem_iff_getElem.mp member
  have inZip : i < (xs.zip ys).length := by simpa [← lengths] using inBounds
  exact ⟨_, List.getElem_zip (h := inZip) ▸ List.getElem_mem inZip⟩

theorem exists_mem_zip_right {xs ys : List Term} (lengths : xs.length = ys.length) {y : Term}
    (member : y ∈ ys) : ∃ x, (x, y) ∈ xs.zip ys := by
  obtain ⟨i, inBounds, rfl⟩ := List.mem_iff_getElem.mp member
  have inZip : i < (xs.zip ys).length := by simpa [lengths] using inBounds
  exact ⟨_, List.getElem_zip (h := inZip) ▸ List.getElem_mem inZip⟩

/-- Types that are alike are types. -/
theorem TypeLike.isType (alike : P.TypeLike a a') : a.IsType ∧ a'.IsType := by
  induction alike with
  | void => exact ⟨.void, .void⟩
  | u64 => exact ⟨.u64, .u64⟩
  | «variable» _ => exact ⟨.variable, .variable⟩
  | functionType lengths _ _ argsIh resultIh =>
      refine ⟨.functionType (fun arg member => ?_) resultIh.1,
        .functionType (fun arg member => ?_) resultIh.2⟩
      · obtain ⟨arg', paired⟩ := exists_mem_zip_left lengths member
        exact (argsIh arg arg' paired).1
      · obtain ⟨arg', paired⟩ := exists_mem_zip_right lengths member
        exact (argsIh arg' arg paired).2

theorem typeLike_functionType_iff {args args' : List Term} {result result' : Term} {span span' : Span} :
    P.TypeLike (.untyped (.functionType args result) span) (.untyped (.functionType args' result') span') ↔
      List.Forall₂ P.TypeLike args args' ∧ P.TypeLike result result' := by
  rw [List.forall₂_iff_zip]
  constructor
  · intro alike
    cases alike with
    | functionType lengths each resultAlike => exact ⟨⟨lengths, fun paired => each _ _ paired⟩, resultAlike⟩
  · rintro ⟨⟨lengths, each⟩, resultAlike⟩
    exact .functionType lengths (fun _ _ => each) resultAlike

/-- `b` equals `a` when bare if and only if `b'` equals `a'`, for all `b` and `b'` that are alike. -/
def SameTests (P : Pairing) (a a' : Term) : Prop :=
  ∀ b b', P.TypeLike b b' → (a.bare = b.bare ↔ a'.bare = b'.bare)

theorem bareList_iff {args args' others others' : List Term} (first : List.Forall₂ P.SameTests args args')
    (second : List.Forall₂ P.TypeLike others others') :
    args.map Term.bare = others.map Term.bare ↔ args'.map Term.bare = others'.map Term.bare := by
  induction first generalizing others others' with
  | nil => cases second <;> simp
  | cons same _ ih =>
      cases second with
      | nil => simp
      | cons alike rest =>
          simp only [List.map_cons, List.cons.injEq]
          exact and_congr (same _ _ alike) (ih rest)

theorem bare_functionType_iff {args others : List Term} {result other : Term} {span span' : Span} :
    (Term.untyped (.functionType args result) span).bare =
        (Term.untyped (.functionType others other) span').bare ↔
      args.map Term.bare = others.map Term.bare ∧ result.bare = other.bare := by
  simp [Term.untyped, Term.bare, Term.bareShape, Term.bareList_eq_map]

/-- Types are equal when bare if and only if the types that stand for them are. -/
theorem TypeLike.sameTests (alike : P.TypeLike a a') : P.SameTests a a' := by
  induction alike with
  | void | u64 =>
      intro b b' other
      cases other <;> simp [Term.bare_eq_iff, Term.bareShape, Term.voidAt, Term.u64At, Term.untyped]
  | «variable» paired =>
      intro b b' other
      cases other with
      | «variable» paired' =>
          simpa [Term.bare_eq_iff, Term.bareShape, Term.untyped] using
            Relator.rel_eq P.var_unique paired paired'
      | _ => simp [Term.bare_eq_iff, Term.bareShape, Term.voidAt, Term.u64At, Term.untyped]
  | functionType lengths _ _ argsIh resultIh =>
      intro b b' other
      cases other with
      | functionType lengths' each resultAlike =>
          have args := bareList_iff (List.forall₂_iff_zip.mpr ⟨lengths, fun paired => argsIh _ _ paired⟩)
            (List.forall₂_iff_zip.mpr ⟨lengths', fun paired => each _ _ paired⟩)
          rw [bare_functionType_iff, bare_functionType_iff]
          exact and_congr args (resultIh _ _ resultAlike)
      | _ => simp [Term.bare_eq_iff, Term.bareShape, Term.voidAt, Term.u64At, Term.untyped]

/-- Comparing types gives the same answer on both sides. -/
theorem TypeLike.typeEquals_alike (first : P.TypeLike a a') (second : P.TypeLike b b') :
    ∃ answer, a.typeEquals b = .ok answer ∧ a'.typeEquals b' = .ok answer := by
  obtain ⟨answer, equal, iff⟩ := Term.typeEquals_iff_bare first.isType.1 second.isType.1
  obtain ⟨answer', equal', iff'⟩ := Term.typeEquals_iff_bare first.isType.2 second.isType.2
  have same : answer = answer' :=
    Bool.eq_iff_iff.mpr (iff.trans ((first.sameTests b b' second).trans iff'.symm))
  exact ⟨answer, equal, same ▸ equal'⟩

theorem isU64?_alike {a? b? : Option Term} (alike : Option.Rel P.TypeLike a? b?) :
    Term.isU64? a? = Term.isU64? b? := by
  cases alike with
  | none => rfl
  | some alike => cases alike <;> rfl

end Types

/-! ## Values -/

section Values

variable {a a' : Term}

theorem ValueLike.types (alike : P.ValueLike a a') : Option.Rel P.TypeLike a.type? a'.type? := by
  cases alike with
  | int | sum => exact .some .u64
  | type alike => cases alike <;> exact .none
  | «variable» _ types | call _ types => exact types
  | function _ types => exact .some types

/-- Asking whether a value satisfies a type gives the same answer on both sides. -/
theorem satisfies_alike {type type' : Term} (types : P.TypeLike type type') (values : P.ValueLike a a') :
    ∃ answer, type.satisfies a = .ok answer ∧ type'.satisfies a' = .ok answer := by
  have valueTypes := values.types
  have compared : ∀ {b b' : Term}, P.TypeLike b b' → ∃ answer, type.typeEquals b = .ok answer ∧
      type'.typeEquals b' = .ok answer := types.typeEquals_alike
  cases types with
  | void => exact ⟨false, rfl, rfl⟩
  | «variable» | functionType =>
      -- The answer depends on the recorded type of the value alone.
      obtain ⟨shape, type?, span⟩ := a
      obtain ⟨shape', type?', span'⟩ := a'
      cases valueTypes with
      | none => exact ⟨false, rfl, rfl⟩
      | some found => exact compared found
  | u64 =>
      cases values with
      | int | sum => exact ⟨true, rfl, rfl⟩
      | type alike => cases alike <;> exact ⟨false, rfl, rfl⟩
      | «variable» _ types | call _ types => exact ⟨_, rfl, congrArg _ (isU64?_alike types).symm⟩
      | function _ types => exact ⟨_, rfl, congrArg _ (isU64?_alike (.some types)).symm⟩

theorem namesType_alike (alike : P.ValueLike a a') : a.namesType = a'.namesType := by
  cases alike with
  | int | function | sum | call => rfl
  | type alike noName =>
      cases alike with
      | void | u64 | functionType => rfl
      | «variable» => exact absurd rfl (noName _)
  | «variable» _ types => cases types <;> rfl

end Values

end Pairing

end Rill

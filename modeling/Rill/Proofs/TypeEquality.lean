import Mathlib
import Rill.Typing

/-!
# Type equality

A type is compared without its places and without the types recorded in it. `Term.bare` drops both,
and on types the comparison is exactly equality of what is left.

* `typeEquals_iff_bare`: comparing two types never faults, and answers whether they are equal when
  bare.
* `satisfies_bare`: a value that satisfies a type has a type that is equal to it when bare.
* `typeEquals_is_bare_identity`: so types fall into classes, and of a value only the class of its type counts
  for a function type or a named type.
-/

namespace Rill

namespace Term

mutual

/-- A term without spans and without types, throughout. -/
def bare : Term → Term
  | ⟨shape, _, _⟩ => ⟨bareShape shape, none, ⟨0, 0⟩⟩

/-- A shape whose inner terms are bare. -/
def bareShape : Shape Term → Shape Term
  | .void => .void
  | .u64 => .u64
  | .int value => .int value
  | .functionType args result => .functionType (bareList args) (bare result)
  | .function id => .function id
  | .variable ref => .variable ref
  | .call callee params => .call (bare callee) (bareList params)
  | .sum left right => .sum (bare left) (bare right)
  | .printU64 operand => .printU64 (bare operand)
  | .assign target value => .assign target (bare value)
  | .define target value => .define target (bare value)
  | .returnWith operand => .returnWith (bareOption operand)

/-- A list of terms, each bare. -/
def bareList : List Term → List Term
  | [] => []
  | term :: terms => bare term :: bareList terms

/-- An optional term, bare. -/
def bareOption : Option Term → Option Term
  | none => none
  | some term => some (bare term)

end

theorem bare_eq_iff {a b : Term} : a.bare = b.bare ↔ bareShape a.shape = bareShape b.shape := by
  obtain ⟨shape, type?, span⟩ := a
  obtain ⟨shape', type?', span'⟩ := b
  simp [bare]

theorem bareList_eq_map (terms : List Term) : bareList terms = terms.map bare := by
  induction terms with
  | nil => rfl
  | cons term terms ih => rw [bareList, ih, List.map_cons]

/-! ## Types -/

/-- A term that denotes a type: `void`, `u64`, a name, or a function type over types. -/
inductive IsType : Term → Prop
  | void {type? : Option Term} {span : Span} : IsType ⟨.void, type?, span⟩
  | u64 {type? : Option Term} {span : Span} : IsType ⟨.u64, type?, span⟩
  | variable {ref : VarRef} {type? : Option Term} {span : Span} : IsType ⟨.variable ref, type?, span⟩
  | functionType {args : List Term} {result : Term} {type? : Option Term} {span : Span} :
      (∀ arg ∈ args, IsType arg) → IsType result → IsType ⟨.functionType args result, type?, span⟩

/-- The comparison of `a` with any type answers whether the two are equal when bare. -/
def Comparable (a : Term) : Prop :=
  ∀ b : Term, b.IsType → ∃ answer, typeEquals a b = .ok answer ∧ (answer = true ↔ a.bare = b.bare)

theorem typesEqual_iff_bare {as bs : List Term} (comparable : ∀ a ∈ as, Comparable a)
    (types : ∀ b ∈ bs, b.IsType) (lengths : as.length = bs.length) :
    ∃ answer, typesEqual as bs = .ok answer ∧ (answer = true ↔ bareList as = bareList bs) := by
  induction as generalizing bs with
  | nil =>
      cases bs with
      | nil => exact ⟨true, rfl, by simp⟩
      | cons b bs => simp at lengths
  | cons a as ih =>
      cases bs with
      | nil => simp at lengths
      | cons b bs =>
          obtain ⟨first, firstEq, firstIff⟩ := comparable a (by simp) b (types b (by simp))
          obtain ⟨rest, restEq, restIff⟩ := @ih bs
            (fun a' member => comparable a' (by simp [member]))
            (fun b' member => types b' (by simp [member])) (by simpa using lengths)
          cases first with
          | false =>
              refine ⟨false, by simp [typesEqual, firstEq, bind, Except.bind, pure, Except.pure], ?_⟩
              simp only [Bool.false_eq_true, false_iff] at firstIff ⊢
              intro equal
              simp only [bareList, List.cons.injEq] at equal
              exact firstIff equal.1
          | true =>
              refine ⟨rest, by simp [typesEqual, firstEq, restEq, bind, Except.bind], ?_⟩
              simp only [true_iff] at firstIff
              simp only [bareList, List.cons.injEq, firstIff, true_and]
              exact restIff

theorem isType_comparable {a : Term} (type : a.IsType) : Comparable a := by
  induction type with
  | void | u64 | «variable» =>
      intro b type
      cases type <;>
        simp [typeEquals, bare, bareShape, pure, Except.pure, Shape.isType]
  | @functionType args result type? span _ _ argsIh resultIh =>
      intro b type
      cases type with
      | void | u64 | «variable» =>
          simp [typeEquals, bare, bareShape, pure, Except.pure, Shape.isType]
      | @functionType args' result' type?' span' argTypes resultType =>
          by_cases lengths : args.length = args'.length
          · obtain ⟨first, firstEq, firstIff⟩ := typesEqual_iff_bare argsIh argTypes lengths
            obtain ⟨second, secondEq, secondIff⟩ := resultIh result' resultType
            cases first with
            | false =>
                refine ⟨false, ?_, ?_⟩
                · simp [typeEquals, lengths, firstEq, bind, Except.bind, pure, Except.pure]
                · simp only [Bool.false_eq_true, false_iff] at firstIff ⊢
                  intro equal
                  simp only [bare, bareShape, mk.injEq, Shape.functionType.injEq] at equal
                  exact firstIff equal.1.1
            | true =>
                refine ⟨second, ?_, ?_⟩
                · simp [typeEquals, lengths, firstEq, secondEq, bind, Except.bind]
                · simp only [true_iff] at firstIff
                  simp [bare_eq_iff (a := ⟨.functionType args result, type?, span⟩), bareShape, firstIff,
                    secondIff]
          · refine ⟨false, by simp [typeEquals, lengths, pure, Except.pure], ?_⟩
            simp only [Bool.false_eq_true, false_iff]
            intro equal
            simp only [bare, bareShape, mk.injEq, Shape.functionType.injEq] at equal
            have sameLength := congrArg List.length equal.1.1
            rw [bareList_eq_map, bareList_eq_map, List.length_map, List.length_map] at sameLength
            exact lengths sameLength

/-- Comparing two types never faults, and tells whether they are equal when bare. -/
theorem typeEquals_iff_bare {a b : Term} (typeA : a.IsType) (typeB : b.IsType) :
    ∃ answer, typeEquals a b = .ok answer ∧ (answer = true ↔ a.bare = b.bare) :=
  isType_comparable typeA b typeB

theorem bare_of_typeEquals {a b : Term} (typeA : a.IsType) (typeB : b.IsType)
    (equal : typeEquals a b = .ok true) : a.bare = b.bare := by
  obtain ⟨answer, answerEq, answerIff⟩ := typeEquals_iff_bare typeA typeB
  rw [equal] at answerEq
  cases answerEq
  exact answerIff.mp rfl

/-! ## Satisfaction -/

theorem Shape.isU64_iff {shape : Shape Term} : shape.isU64 = true ↔ shape = .u64 := by
  cases shape <;> simp [Shape.isU64]

theorem isU64?_iff {type? : Option Term} :
    isU64? type? = true ↔ ∃ type, type? = some type ∧ type.shape = .u64 := by
  simp only [isU64?, Option.any_eq_true, Shape.isU64_iff]

/-- Asking whether a value satisfies a type never faults. -/
theorem satisfies_total {type value : Term} (isType : type.IsType)
    (valueType : ∀ found, value.type? = some found → found.IsType) :
    ∃ answer, type.satisfies value = .ok answer := by
  cases isType with
  | void => exact ⟨false, rfl⟩
  | u64 =>
      cases shape : value.shape <;> simp [satisfies, shape, pure, Except.pure]
  | «variable» =>
      cases found : value.type? with
      | none => exact ⟨false, by simp [satisfies, found, pure, Except.pure]⟩
      | some type =>
          obtain ⟨answer, equal, _⟩ := typeEquals_iff_bare .variable (valueType type found)
          exact ⟨answer, by simpa [satisfies, found] using equal⟩
  | functionType args result =>
      cases found : value.type? with
      | none => exact ⟨false, by simp [satisfies, found, pure, Except.pure]⟩
      | some type =>
          obtain ⟨answer, equal, _⟩ := typeEquals_iff_bare (.functionType args result)
            (valueType type found)
          exact ⟨answer, by simpa [satisfies, found] using equal⟩

/-- A value that satisfies a type is an integer where `u64` is expected, or has an equal type. -/
theorem satisfies_bare {type value : Term} (isType : type.IsType)
    (valueType : ∀ found, value.type? = some found → found.IsType)
    (satisfied : type.satisfies value = .ok true) :
    (type.shape = .u64 ∧ ∃ n, value.shape = .int n) ∨
      (type.shape ≠ .void ∧ ∃ found, value.type? = some found ∧ found.bare = type.bare) := by
  cases isType with
  | void => simp [satisfies, pure, Except.pure] at satisfied
  | u64 =>
      by_cases int : ∃ n, value.shape = .int n
      · exact Or.inl ⟨rfl, int⟩
      · have isU64 : isU64? value.type? = true := by
          cases shape : value.shape <;> simp_all [satisfies, pure, Except.pure]
        obtain ⟨found, foundEq, foundShape⟩ := isU64?_iff.mp isU64
        refine Or.inr ⟨by simp, found, foundEq, ?_⟩
        rw [bare_eq_iff, foundShape]
  | «variable» =>
      cases found : value.type? with
      | none => simp [satisfies, found, pure, Except.pure] at satisfied
      | some type =>
          have equal := bare_of_typeEquals .variable (valueType type found)
            (by simpa [satisfies, found] using satisfied)
          exact Or.inr ⟨by simp, type, rfl, equal.symm⟩
  | functionType args result =>
      cases found : value.type? with
      | none => simp [satisfies, found, pure, Except.pure] at satisfied
      | some type =>
          have equal := bare_of_typeEquals (.functionType args result) (valueType type found)
            (by simpa [satisfies, found] using satisfied)
          exact Or.inr ⟨by simp, type, rfl, equal.symm⟩

/-! ## Classes of types -/

/-- The comparison finds the two types equal. -/
def SameType (a b : Term) : Prop :=
  typeEquals a b = .ok true

theorem sameType_iff_bare {a b : Term} (typeA : a.IsType) (typeB : b.IsType) :
    SameType a b ↔ a.bare = b.bare := by
  obtain ⟨answer, answerEq, answerIff⟩ := typeEquals_iff_bare typeA typeB
  rw [SameType, answerEq, ← answerIff, Except.ok.injEq]

theorem typeEquals_comm {a b : Term} (typeA : a.IsType) (typeB : b.IsType) :
    typeEquals a b = typeEquals b a := by
  obtain ⟨answer, answerEq, answerIff⟩ := typeEquals_iff_bare typeA typeB
  obtain ⟨answer', answerEq', answerIff'⟩ := typeEquals_iff_bare typeB typeA
  have same : answer = answer' := Bool.eq_iff_iff.mpr (answerIff.trans (eq_comm.trans answerIff'.symm))
  rw [answerEq, answerEq', same]

/-- Types of one class compare alike with every type. -/
theorem typeEquals_congr {a b c : Term} (typeA : a.IsType) (typeB : b.IsType) (typeC : c.IsType)
    (same : SameType b c) : typeEquals a b = typeEquals a c := by
  rw [sameType_iff_bare typeB typeC] at same
  obtain ⟨answer, answerEq, answerIff⟩ := typeEquals_iff_bare typeA typeB
  obtain ⟨answer', answerEq', answerIff'⟩ := typeEquals_iff_bare typeA typeC
  rw [← same] at answerIff'
  rw [answerEq, answerEq', Bool.eq_iff_iff.mpr (answerIff.trans answerIff'.symm)]

/-- The type of the value, if it has one, is a type. -/
def TypedByType (value : Term) : Prop :=
  ∀ found, value.type? = some found → found.IsType

/-- A function type or a named type is satisfied by the values of an equal type. -/
theorem satisfies_eq {type : Term} (isType : type.IsType) (notVoid : type.shape ≠ .void)
    (notU64 : type.shape ≠ .u64) (value : Term) :
    type.satisfies value = value.type?.elim (.ok false) (typeEquals type) := by
  cases isType with
  | void => exact absurd rfl notVoid
  | u64 => exact absurd rfl notU64
  | «variable» | functionType => cases found : value.type? <;> simp [satisfies, found, pure, Except.pure]

theorem satisfies_congr {type v w : Term} (isType : type.IsType) (notVoid : type.shape ≠ .void)
    (notU64 : type.shape ≠ .u64) (typedV : v.TypedByType) (typedW : w.TypedByType)
    (same : Option.Rel SameType v.type? w.type?) : type.satisfies v = type.satisfies w := by
  rw [satisfies_eq isType notVoid notU64, satisfies_eq isType notVoid notU64]
  unfold TypedByType at typedV typedW
  generalize v.type? = typeV at typedV same ⊢
  generalize w.type? = typeW at typedW same ⊢
  cases same with
  | none => rfl
  | some same => exact typeEquals_congr isType (typedV _ rfl) (typedW _ rfl) same

/-- Types are compared as what is left of them without spans and types. The comparison never faults, and
finds two types equal exactly if they are the same when bare, so it is reflexive, symmetric and transitive.
For a function type or a named type, of a value only the class of its type counts. -/
theorem typeEquals_is_bare_identity {a b c : Term} (typeA : a.IsType) (typeB : b.IsType)
    (typeC : c.IsType) :
    (∃ answer, typeEquals a b = .ok answer ∧ (answer = true ↔ a.bare = b.bare)) ∧
    SameType a a ∧ typeEquals a b = typeEquals b a ∧ (SameType a b → SameType b c → SameType a c) ∧
    (a.shape ≠ .void → a.shape ≠ .u64 → ∀ v w : Term, v.TypedByType → w.TypedByType →
      Option.Rel SameType v.type? w.type? → a.satisfies v = a.satisfies w) := by
  refine ⟨typeEquals_iff_bare typeA typeB, (sameType_iff_bare typeA typeA).mpr rfl,
    typeEquals_comm typeA typeB, fun first second => ?_, fun notVoid notU64 v w typedV typedW same => ?_⟩
  · rw [sameType_iff_bare typeA typeB] at first
    rw [sameType_iff_bare typeB typeC] at second
    exact (sameType_iff_bare typeA typeC).mpr (first.trans second)
  · exact satisfies_congr typeA notVoid notU64 typedV typedW same

/-- A function type somewhere in a source, with a number in the place of its own type. -/
def signatureAt (place : Nat) : Term :=
  typed (.functionType [u64At ⟨place, place⟩, untyped (.variable ⟨0, 1⟩) ⟨place, place + 1⟩]
    (voidAt ⟨place, place⟩)) (intAt 7 ⟨place, place⟩) ⟨place, place + 2⟩

theorem signatureAt_isType (place : Nat) : (signatureAt place).IsType := by
  refine .functionType (fun arg member => ?_) .void
  rcases List.mem_cons.mp member with rfl | member
  · exact .u64
  · rw [List.mem_singleton.mp member]
    exact .variable

theorem typeEquals_is_bare_identity_elsewhere :
    (signatureAt 0).IsType ∧ (signatureAt 5).IsType ∧ typeEquals (signatureAt 0) (signatureAt 5) = .ok true ∧
    (signatureAt 0).satisfies (typed (.function 3) (signatureAt 5) ⟨9, 9⟩) =
      (signatureAt 0).satisfies (typed (.function 4) (signatureAt 8) ⟨2, 7⟩) := by
  have types := signatureAt_isType
  obtain ⟨⟨answer, compared, isSame⟩, -, -, -, satisfied⟩ :=
    typeEquals_is_bare_identity (types 0) (types 5) (types 8)
  rw [isSame.mpr rfl] at compared
  refine ⟨types 0, types 5, compared, satisfied (by simp [signatureAt, typed]) (by simp [signatureAt, typed]) _ _
    ?_ ?_ (.some ?_)⟩
  · rintro found ⟨⟩
    exact types 5
  · rintro found ⟨⟩
    exact types 8
  · rw [sameType_iff_bare (types 5) (types 8)]
    rfl

end Term

end Rill

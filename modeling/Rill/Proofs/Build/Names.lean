import Mathlib
import Rill.Proofs.Build.Induction
import Rill.Proofs.Build.Scene

/-!
# Names and types while building

Building a type looks names up and changes nothing.

* `lastIndex?_eq_some_iff`: looking for the last element with a property finds it.
* `wp_resolve`: a name that is found stands for a variable of a table in scope.
* `wp_buildType`, `wp_literalType?`: types built in a context are types of its program.
* `wp_expect`, `wp_expectU64`: the checks of a value against a type meet no fault, and a value that
  passes satisfies the type.
-/

namespace Rill

/-! ## Last positions -/

section Last

variable {α β : Type} {property : α → Bool} {xs : List α} {index : Nat}

theorem lastIndex?_congr {property' : β → Bool} {ys : List β} (same : xs.map property = ys.map property') :
    lastIndex? property xs = lastIndex? property' ys := by
  induction xs generalizing ys with
  | nil =>
      cases ys with
      | nil => rfl
      | cons => simp at same
  | cons x xs ih =>
      cases ys with
      | nil => simp at same
      | cons y ys =>
          simp only [List.map_cons, List.cons.injEq] at same
          rw [lastIndex?, lastIndex?, ih same.2, same.1]

theorem lastIndex?_append_singleton (property : α → Bool) (xs : List α) (x : α) :
    lastIndex? property (xs ++ [x]) =
      if property x then some xs.length else lastIndex? property xs := by
  induction xs with
  | nil => simp [lastIndex?]
  | cons y ys ih =>
      rw [List.cons_append, lastIndex?, ih, lastIndex?]
      by_cases holds : property x <;> simp [holds]

theorem lastIndex?_eq_none_iff : lastIndex? property xs = none ↔ ∀ x ∈ xs, property x = false := by
  induction xs with
  | nil => simp [lastIndex?]
  | cons x xs ih =>
      rw [lastIndex?, List.forall_mem_cons, ← ih]
      cases lastIndex? property xs <;> simp

/-- What is found has the property, and nothing behind it has. -/
theorem lastIndex?_spec (found : lastIndex? property xs = some index) :
    (∃ x, xs[index]? = some x ∧ property x = true) ∧
      ∀ (j : Nat) (y : α), index < j → xs[j]? = some y → property y = false := by
  induction xs generalizing index with
  | nil => cases found
  | cons x xs ih =>
      rw [lastIndex?] at found
      cases rest : lastIndex? property xs with
      | some inner =>
          rw [rest] at found
          cases found
          obtain ⟨here, later⟩ := ih rest
          refine ⟨here, fun j y behind isY => ?_⟩
          cases j with
          | zero => cases behind
          | succ j => exact later j y (Nat.lt_of_succ_lt_succ behind) isY
      | none =>
          simp only [rest, Option.ite_none_right_eq_some] at found
          obtain ⟨holds, isFirst⟩ := found
          cases isFirst
          refine ⟨⟨x, rfl, holds⟩, fun j y behind isY => ?_⟩
          cases j with
          | zero => cases behind
          | succ j => exact lastIndex?_eq_none_iff.mp rest y (List.mem_of_getElem? isY)

/-- The position is that of an element with the property, and no element behind it has it. -/
theorem lastIndex?_eq_some_iff : lastIndex? property xs = some index ↔
    (∃ x, xs[index]? = some x ∧ property x = true) ∧
      ∀ (j : Nat) (y : α), index < j → xs[j]? = some y → property y = false := by
  refine ⟨lastIndex?_spec, ?_⟩
  rintro ⟨⟨x, here, holds⟩, later⟩
  cases found : lastIndex? property xs with
  | none => cases (lastIndex?_eq_none_iff.mp found x (List.mem_of_getElem? here)).symm.trans holds
  | some last =>
      obtain ⟨⟨y, lastAt, lastHolds⟩, behind⟩ := lastIndex?_spec found
      rcases Nat.lt_trichotomy last index with before | rfl | after
      · cases (behind index x before here).symm.trans holds
      · rfl
      · cases (later last y after lastAt).symm.trans lastHolds

theorem lastIndex?_of_nodup [DecidableEq α] (distinct : xs.Nodup) (x : α) (index : Nat) :
    lastIndex? (· == x) xs = some index ↔ xs[index]? = some x := by
  rw [lastIndex?_eq_some_iff]
  constructor
  · rintro ⟨⟨y, here, isX⟩, _⟩
    exact eq_of_beq isX ▸ here
  · intro here
    refine ⟨⟨x, here, beq_self_eq_true x⟩, fun j y behind isY => beq_false_of_ne ?_⟩
    rintro rfl
    obtain ⟨inBounds, _⟩ := List.getElem?_eq_some_iff.mp here
    exact Nat.ne_of_lt behind ((List.getElem?_inj inBounds distinct).mp (here.trans isY.symm))

end Last

/-! ## Looking names up -/

/-- A name that is found in a chain of existing tables stands for a variable of one of them. -/
theorem ScopeChain.lookup?_spec {program : Program} {chain : ScopeChain} (name : String)
    (exist : ∀ t ∈ chain, t < program.tables.size) :
    ∃ answer, ScopeChain.lookup? program name chain = .ok answer ∧
      ∀ ref, answer = some ref →
        ref.table ∈ chain ∧ ∃ var, slotIn? program.tables ref = some var := by
  induction chain with
  | nil => exact ⟨none, rfl, by simp⟩
  | cons id outer ih =>
      have inTables : id < program.tables.size := exist id (by simp)
      have fetched : program.table id = .ok program.tables[id] :=
        fetch_eq_ok_iff.mpr (Array.getElem?_eq_getElem inTables)
      cases found : VariableTable.lookup? program.tables[id] name with
      | some index =>
          refine ⟨some ⟨id, index⟩, ?_, ?_⟩
          · simp [ScopeChain.lookup?, fetched, found, bind, Except.bind, pure, Except.pure]
          · intro ref equal
            cases equal
            obtain ⟨⟨var, varAt, _⟩, _⟩ := lastIndex?_spec found
            rw [Array.getElem?_toList] at varAt
            exact ⟨by simp, var, slotIn?_eq_some_iff.mpr
              ⟨program.tables[id], Array.getElem?_eq_getElem inTables, varAt⟩⟩
      | none =>
          obtain ⟨answer, answerEq, spec⟩ := ih fun t member => exist t (by simp [member])
          refine ⟨answer, ?_, ?_⟩
          · simp [ScopeChain.lookup?, fetched, found, answerEq, bind, Except.bind]
          · intro ref equal
            obtain ⟨member, slot⟩ := spec ref equal
            exact ⟨by simp [member], slot⟩

/-- Every table in scope exists. -/
def BuildContext.ScopeIn (context : BuildContext) : Prop :=
  ∀ t ∈ context.scope, t < context.program.tables.size

namespace Build

variable {context : BuildContext}

@[simp] theorem wp_typeText (type? : Option Term) (post : String → BuildContext → Prop)
    (context : BuildContext) :
    wp (typeText type?) post context ↔
      ∃ text, context.program.typeNameOf type? = .ok text ∧ post text context := by
  simp only [typeText, wp_bind, wp_get, wp_ofFault]

theorem wp_nameOf (phrase : Phrase) : wp (nameOf phrase) (fun _ after => after = context) context := by
  unfold nameOf
  cases phrase.construct <;> simp

theorem wp_resolve (name : String) (span : Span) (scope : context.ScopeIn) :
    wp (resolve name span)
      (fun ref after => after = context ∧ ref.table ∈ context.scope ∧
        ∃ var, slotIn? context.program.tables ref = some var) context := by
  obtain ⟨answer, answerEq, spec⟩ := ScopeChain.lookup?_spec name scope
  unfold resolve
  simp only [wp_bind, wp_get, wp_ofFault]
  refine ⟨answer, answerEq, ?_⟩
  cases answer with
  | none => simp
  | some ref => exact ⟨rfl, spec ref rfl⟩

/-! ## Types -/

theorem wp_plainType (phrase : Phrase) (scope : context.ScopeIn) :
    wp (plainType phrase)
      (fun type after => after = context ∧ TypeIn context.program.tables type) context := by
  obtain ⟨construct, span⟩ := phrase
  cases construct with
  | void => exact ⟨rfl, .void⟩
  | u64 => exact ⟨rfl, .u64⟩
  | ident name =>
      simp only [plainType, wp_bind]
      refine wp_mono (wp_resolve name span scope) ?_
      rintro ref after ⟨same, _, var, found⟩
      exact ⟨same, .variable found⟩
  | _ => simp [plainType]

theorem wp_consTypes {first : Build Term} {rest : Build (List Term)}
    (firstIh : wp first (fun type after => after = context ∧ TypeIn context.program.tables type) context)
    (restIh : wp rest
      (fun types after => after = context ∧
        ∀ type ∈ types, TypeIn context.program.tables type) context) :
    wp (do
        let type ← first
        return type :: (← rest))
      (fun types after => after = context ∧ ∀ type ∈ types, TypeIn context.program.tables type)
      context := by
  simp only [wp_bind, wp_pure]
  refine wp_mono firstIh ?_
  rintro type after ⟨rfl, inTables⟩
  refine wp_mono restIh ?_
  rintro types after ⟨same, allIn⟩
  refine ⟨same, ?_⟩
  simpa using ⟨inTables, allIn⟩

theorem wp_mapTypes {items : List Phrase} {f : Phrase → Build Term}
    (each : ∀ item ∈ items, wp (f item)
      (fun type after => after = context ∧ TypeIn context.program.tables type) context) :
    wp (items.mapM f)
      (fun types after => after = context ∧ ∀ type ∈ types, TypeIn context.program.tables type)
      context := by
  induction items with
  | nil => simp
  | cons item items ih =>
      rw [List.mapM_cons]
      exact wp_consTypes (each item (by simp)) (ih fun other member => each other (by simp [member]))

theorem wp_itemTypes {items : List Phrase}
    (each : ∀ item ∈ items, ∀ type, itemType? item = some type → wp (buildType type)
      (fun type after => after = context ∧ TypeIn context.program.tables type) context) :
    wp (items.mapM buildItemType)
      (fun types after => after = context ∧ ∀ type ∈ types, TypeIn context.program.tables type)
      context :=
  wp_mapTypes fun item member => buildItemType_cases (P := fun m => wp m _ context) trivial (each item member)

/-- Building a type gives a type of the program and leaves the context as it is. -/
theorem wp_buildType (phrase : Phrase) (scope : context.ScopeIn) :
    wp (buildType phrase)
      (fun type after => after = context ∧ TypeIn context.program.tables type) context := by
  induction phrase using type_induction with
  | plain phrase plain =>
      rw [buildType_plain plain]
      exact wp_plainType phrase scope
  | functionType params result span itemsIh resultIh =>
      rw [buildType_functionType]
      simp only [wp_bind, wp_pure]
      refine wp_mono (wp_itemTypes itemsIh) ?_
      rintro args after ⟨rfl, argTypes⟩
      refine wp_mono resultIh ?_
      rintro type after ⟨same, resultType⟩
      exact ⟨same, .functionType argTypes resultType⟩

theorem wp_readParam (phrase : Phrase) :
    wp (readParam phrase) (fun _ after => after = context) context := by
  unfold readParam
  split
  · simp only [wp_bind]
    refine wp_mono (wp_nameOf _) fun name after same => ?_
    split
    · simp
    · split <;> simp [same]
  · simp

theorem wp_paramTypes (items : List Phrase) (scope : context.ScopeIn) :
    wp (items.mapM fun item => do buildType (← readParam item).type)
      (fun types after => after = context ∧ ∀ type ∈ types, TypeIn context.program.tables type)
      context := by
  refine wp_mapTypes fun item _ => ?_
  simp only [wp_bind]
  refine wp_mono (wp_readParam item) fun param after same => ?_
  subst same
  exact wp_buildType param.type scope

/-- A type read off a value is a type of the program. -/
theorem wp_literalType? (value : Phrase) (scope : context.ScopeIn) :
    wp (literalType? value)
      (fun type? after => after = context ∧
        ∀ type, type? = some type → TypeIn context.program.tables type)
      context := by
  unfold literalType?
  split
  · simp only [wp_pure, true_and]
    intro type equal
    cases equal
    exact .u64
  · next params result body _ =>
    simp only [wp_bind]
    refine wp_mono (wp_buildType result scope) ?_
    rintro result after ⟨rfl, resultType⟩
    refine wp_mono (wp_paramTypes (paramItems params) scope) ?_
    rintro args after ⟨same, argTypes⟩
    simp only [wp_pure]
    refine ⟨same, fun type equal => ?_⟩
    cases equal
    exact .functionType argTypes resultType
  · simp

/-! ## Checks -/

theorem wp_expect {type value : Term} {mismatch : (expected found : String) → BuildErrorKind}
    {post : Unit → BuildContext → Prop} (isType : TypeIn context.program.tables type)
    (valueType : ∀ found, value.type? = some found → TypeIn context.program.tables found)
    (passes : type.satisfies value = .ok true → post () context) :
    wp (expect type value mismatch) post context := by
  obtain ⟨answer, answerEq⟩ := Term.satisfies_total isType.isType fun found equal =>
    (valueType found equal).isType
  unfold expect
  simp only [wp_bind, wp_ofFault]
  refine ⟨answer, answerEq, ?_⟩
  cases answer with
  | true => simpa using passes answerEq
  | false =>
      obtain ⟨expected, expectedEq⟩ := TypeIn.typeNameOf_total context.program (some type)
        (by simpa using isType)
      obtain ⟨found, foundEq⟩ := TypeIn.typeNameOf_total context.program value.type? valueType
      simp [expectedEq, foundEq]

theorem wp_expectU64 {value : Term} {place : U64Place} {post : Unit → BuildContext → Prop}
    (valueType : ∀ found, value.type? = some found → TypeIn context.program.tables found)
    (passes : Term.isU64? value.type? = true → post () context) :
    wp (expectU64 place value) post context := by
  unfold expectU64
  cases isU64 : Term.isU64? value.type? with
  | true => simpa using passes isU64
  | false =>
      obtain ⟨found, foundEq⟩ := TypeIn.typeNameOf_total context.program value.type? valueType
      simp [foundEq]

end Build

end Rill

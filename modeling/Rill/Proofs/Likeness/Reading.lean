import Mathlib
import Rill.Proofs.Build.Persistence
import Rill.Proofs.Likeness.Contexts
import Rill.Proofs.Likeness.Phrases

/-!
# Reading two contexts side by side

Steps of a build that only read give answers that are alike, or are refused for the same reason, when
they are taken in contexts that are alike (`ReadsAlike`). Names, the texts of types, types and
parameters are read in this way; `readsAlike_buildType` is the result for types.

An error may mention names, alone or inside the text of a type. `BuildErrorKind.Renamed` says that two
errors are the same but for these names.
-/

namespace Rill

/-! ## Errors that differ in names -/

/-- Texts of types that are the same but for the names in them. -/
inductive Retold (ρ : String → String) : String → String → Prop
  | void : Retold ρ "void" "void"
  | u64 : Retold ρ "u64" "u64"
  /-- What is shown for the type of a term without a type. -/
  | untyped : Retold ρ "untyped" "untyped"
  /-- What is shown for the type of a binding that names a type. -/
  | type : Retold ρ "type" "type"
  | name (name : String) : Retold ρ name (ρ name)
  | function {args args' : List String} {result result' : String} : List.Forall₂ (Retold ρ) args args' →
      Retold ρ result result' →
      Retold ρ ("(" ++ String.intercalate ", " args ++ ") -> " ++ result)
        ("(" ++ String.intercalate ", " args' ++ ") -> " ++ result')

/-- Errors that are the same but for the names they mention. -/
inductive BuildErrorKind.Renamed (ρ : String → String) : BuildErrorKind → BuildErrorKind → Prop
  | undefinedName (name : String) : Renamed ρ (.undefinedName name) (.undefinedName (ρ name))
  | mismatch (name : String) {expected expected' found found' : String} : Retold ρ expected expected' →
      Retold ρ found found' →
      Renamed ρ (.mismatch name expected found) (.mismatch (ρ name) expected' found')
  | returnMismatch {expected expected' found found' : String} : Retold ρ expected expected' →
      Retold ρ found found' → Renamed ρ (.returnMismatch expected found) (.returnMismatch expected' found')
  | bareReturn {expected expected' : String} : Retold ρ expected expected' →
      Renamed ρ (.bareReturn expected) (.bareReturn expected')
  | notU64 (place : U64Place) {found found' : String} : Retold ρ found found' →
      Renamed ρ (.notU64 place found) (.notU64 place found')
  | notCallable (name : String) {type type' : String} : Retold ρ type type' →
      Renamed ρ (.notCallable name type) (.notCallable (ρ name) type')
  | arityMismatch (expected found : Nat) :
      Renamed ρ (.arityMismatch expected found) (.arityMismatch expected found)
  | notAType (found : String) : Renamed ρ (.notAType found) (.notAType found)
  | notAValue (found : String) : Renamed ρ (.notAValue found) (.notAValue found)
  | topLevelNotBinding (found : String) :
      Renamed ρ (.topLevelNotBinding found) (.topLevelNotBinding found)
  | missingValue (name : String) : Renamed ρ (.missingValue name) (.missingValue (ρ name))
  | invalidArgument : Renamed ρ .invalidArgument .invalidArgument
  | defaultedArgument (name : String) :
      Renamed ρ (.defaultedArgument name) (.defaultedArgument (ρ name))
  | notAStatement (found : String) : Renamed ρ (.notAStatement found) (.notAStatement found)
  | unsupportedStatement (found : String) :
      Renamed ρ (.unsupportedStatement found) (.unsupportedStatement found)
  | unsupportedCallee : Renamed ρ .unsupportedCallee .unsupportedCallee
  | callArguments : Renamed ρ .callArguments .callArguments

theorem Construct.Like.isStatement_eq {α β : Type} {ρ : String → String} {R : α → β → Prop}
    {c : Construct α} {c' : Construct β} (alike : c.Like ρ R c') : c'.isStatement = c.isStatement := by
  cases alike <;> rfl

namespace Build

open Pairing (TypeLike ValueLike ContextLike SlotLike)

variable {α α' β β' : Type} {P : Pairing} {context context' : BuildContext} {m : Build α} {m' : Build α'}
  {R : α → α' → Prop}

/-- Two steps read answers that are alike, or are refused for the same reason. -/
inductive ReadsAlike (P : Pairing) (m : Build α) (m' : Build α') (context context' : BuildContext)
    (R : α → α' → Prop) : Prop
  | both {a : α} {a' : α'} : m context = .ok (a, context) → m' context' = .ok (a', context') → R a a' →
      ReadsAlike P m m' context context' R
  | refused {error error' : BuildError} : m context = .error (.reported error) →
      m' context' = .error (.reported error') → error.kind.Renamed P.name error'.kind →
      ReadsAlike P m m' context context' R

namespace ReadsAlike

theorem pure {a : α} {a' : α'} (holds : R a a') :
    ReadsAlike P (Pure.pure a) (Pure.pure a') context context' R :=
  .both rfl rfl holds

theorem refuse {kind kind' : BuildErrorKind} {span span' : Span} (renamed : kind.Renamed P.name kind') :
    ReadsAlike P (Build.refuse kind span) (Build.refuse kind' span') context context' R :=
  .refused rfl rfl renamed

theorem bind {f : α → Build β} {f' : α' → Build β'} {S : β → β' → Prop}
    (first : ReadsAlike P m m' context context' R)
    (next : ∀ a a', R a a' → ReadsAlike P (f a) (f' a') context context' S) :
    ReadsAlike P (m >>= f) (m' >>= f') context context' S := by
  cases first with
  | both run run' holds =>
      cases next _ _ holds with
      | both rest rest' holds' =>
          exact .both ((bind_of_ok run).trans rest) ((bind_of_ok run').trans rest') holds'
      | refused rest rest' renamed =>
          exact .refused ((bind_of_ok run).trans rest) ((bind_of_ok run').trans rest') renamed
  | refused run run' renamed => exact .refused (bind_of_error run) (bind_of_error run') renamed

theorem mono {R' : α → α' → Prop} (alike : ReadsAlike P m m' context context' R)
    (weaker : ∀ a a', R a a' → R' a a') : ReadsAlike P m m' context context' R' := by
  cases alike with
  | both run run' holds => exact .both run run' (weaker _ _ holds)
  | refused run run' renamed => exact .refused run run' renamed

theorem map {f : α → β} {f' : α' → β'} {S : β → β' → Prop}
    (alike : ReadsAlike P m m' context context' R) (maps : ∀ a a', R a a' → S (f a) (f' a')) :
    ReadsAlike P (f <$> m) (f' <$> m') context context' S := by
  rw [map_eq_pure_bind, map_eq_pure_bind]
  exact alike.bind fun a a' holds => .pure (maps a a' holds)

theorem mapM {f : α → Build β} {f' : α' → Build β'} {S : β → β' → Prop} {xs : List α} {xs' : List α'}
    (items : List.Forall₂ R xs xs')
    (each : ∀ x x', R x x' → ReadsAlike P (f x) (f' x') context context' S) :
    ReadsAlike P (xs.mapM f) (xs'.mapM f') context context' (List.Forall₂ S) := by
  induction items with
  | nil => exact .pure .nil
  | cons first _ ih =>
      rw [List.mapM_cons, List.mapM_cons]
      exact (each _ _ first).bind fun _ _ head => ih.bind fun _ _ tail => .pure (.cons head tail)

/-- Going on with results that are alike and no faults. -/
theorem ofFault {result : Except Fault α} {result' : Except Fault α'} {a : α} {a' : α'}
    (equal : result = .ok a) (equal' : result' = .ok a') (holds : R a a') :
    ReadsAlike P (Build.ofFault result) (Build.ofFault result') context context' R := by
  subst equal equal'
  exact .pure holds

/-- Steps that look at their contexts. -/
theorem withContext {f : BuildContext → Build α} {f' : BuildContext → Build α'}
    (next : ReadsAlike P (f context) (f' context') context context' R) :
    ReadsAlike P (get >>= f) (get >>= f') context context' R := by
  cases next with
  | both run run' holds => exact .both run run' holds
  | refused run run' renamed => exact .refused run run' renamed

end ReadsAlike

/-! ## Variables and names -/

theorem readsAlike_readVar {ref ref' : VarRef} (alike : P.ContextLike context context')
    (paired : P.var ref ref') :
    ReadsAlike P (readVar ref) (readVar ref') context context' (P.SlotLike ref) := by
  obtain ⟨var, var', found, found', slots⟩ := alike.program.vars ref ref' paired
  exact .withContext (.ofFault (Program.var_eq_ok_iff.mpr found) (Program.var_eq_ok_iff.mpr found') slots)

theorem lookup?_alike (alike : P.ScopeLike context context') (name : String) {chain chain' : ScopeChain}
    (tables : List.Forall₂ P.table chain chain') :
    ∃ ref? ref?', ScopeChain.lookup? context.program name chain = .ok ref? ∧
      ScopeChain.lookup? context'.program (P.name name) chain' = .ok ref?' ∧
      Option.Rel P.var ref? ref?' := by
  induction tables with
  | nil => exact ⟨none, none, rfl, rfl, .none⟩
  | @cons t t' _ _ paired _ ih =>
      obtain ⟨vars, vars', tableAt, tableAt', finds⟩ := alike.tables t t' paired
      unfold ScopeChain.lookup?
      simp only [Program.table, fetch_eq_ok_iff.mpr tableAt, fetch_eq_ok_iff.mpr tableAt', Bind.bind, Except.bind]
      have found := finds name
      generalize vars.lookup? name = index? at found ⊢
      generalize vars'.lookup? (P.name name) = index?' at found ⊢
      cases found with
      | some pairedVars => exact ⟨_, _, rfl, rfl, .some pairedVars⟩
      | none => exact ih

theorem readsAlike_resolve (alike : P.ScopeLike context context') (name : String) (span span' : Span) :
    ReadsAlike P (resolve name span) (resolve (P.name name) span') context context' P.var := by
  obtain ⟨ref?, ref?', found, found', paired⟩ := lookup?_alike alike name alike.scope
  refine .withContext ((ReadsAlike.ofFault found found' paired).bind fun ref? ref?' paired => ?_)
  cases paired with
  | some paired => exact .pure paired
  | none => exact .refuse (.undefinedName name)

section Phrases

variable {phrase phrase' : Phrase}

theorem readsAlike_nameOf (alike : Phrase.Like P.name phrase phrase') :
    ReadsAlike P (nameOf phrase) (nameOf phrase') context context' fun name name' => name' = P.name name := by
  have kinds := alike.construct
  unfold nameOf
  generalize phrase.construct = c at kinds ⊢
  generalize phrase'.construct = c' at kinds ⊢
  cases kinds with
  | ident => exact .pure rfl
  | _ => exact .refuse (.notAValue _)

end Phrases

/-! ## The texts of types -/

section Texts

variable {type type' : Term} {program program' : Program}

theorem typeNames_alike {types types' : List Term}
    (each : List.Forall₂ (fun type type' => ∃ text text', program.typeName type = .ok text ∧
      program'.typeName type' = .ok text' ∧ Retold P.name text text') types types') :
    ∃ texts texts', program.typeNames types = .ok texts ∧ program'.typeNames types' = .ok texts' ∧
      List.Forall₂ (Retold P.name) texts texts' := by
  induction each with
  | nil => exact ⟨[], [], rfl, rfl, .nil⟩
  | cons first _ ih =>
      obtain ⟨text, text', equal, equal', retold⟩ := first
      obtain ⟨texts, texts', rest, rest', retolds⟩ := ih
      refine ⟨text :: texts, text' :: texts', ?_, ?_, .cons retold retolds⟩
      · simp [Program.typeNames, equal, rest, Bind.bind, Except.bind, pure, Except.pure]
      · simp [Program.typeNames, equal', rest', Bind.bind, Except.bind, pure, Except.pure]

theorem typeName_alike (alike : P.ProgramLike program program') (types : P.TypeLike type type') :
    ∃ text text', program.typeName type = .ok text ∧ program'.typeName type' = .ok text' ∧
      Retold P.name text text' := by
  induction types with
  | void => exact ⟨_, _, rfl, rfl, .void⟩
  | u64 => exact ⟨_, _, rfl, rfl, .u64⟩
  | @«variable» ref ref' _ _ paired =>
      obtain ⟨var, var', found, found', slots⟩ := alike.vars ref ref' paired
      refine ⟨var.name, var'.name, ?_, ?_, slots.name ▸ .name var.name⟩
      · simp [Term.untyped, Program.typeName, Program.var_eq_ok_iff.mpr found, Bind.bind, Except.bind, pure,
          Except.pure]
      · simp [Term.untyped, Program.typeName, Program.var_eq_ok_iff.mpr found', Bind.bind, Except.bind, pure,
          Except.pure]
  | functionType lengths _ _ argsIh resultIh =>
      obtain ⟨texts, texts', args, args', retolds⟩ :=
        typeNames_alike (List.forall₂_iff_zip.mpr ⟨lengths, fun paired => argsIh _ _ paired⟩)
      obtain ⟨text, text', result, result', retold⟩ := resultIh
      refine ⟨_, _, ?_, ?_, .function retolds retold⟩
      · simp [Term.untyped, Program.typeName, args, result, Bind.bind, Except.bind, pure, Except.pure]
      · simp [Term.untyped, Program.typeName, args', result', Bind.bind, Except.bind, pure, Except.pure]

theorem readsAlike_typeText {type? type?' : Option Term} (alike : P.ContextLike context context')
    (types : Option.Rel P.TypeLike type? type?') :
    ReadsAlike P (typeText type?) (typeText type?') context context' (Retold P.name) := by
  refine .withContext ?_
  cases types with
  | none => exact .ofFault rfl rfl .untyped
  | some types =>
      obtain ⟨text, text', equal, equal', retold⟩ := typeName_alike alike.program types
      exact .ofFault equal equal' retold

end Texts

/-! ## Checks -/

section Checks

variable {type type' value value' : Term}

theorem readsAlike_expect {mismatch mismatch' : (expected found : String) → BuildErrorKind}
    (alike : P.ContextLike context context') (types : P.TypeLike type type')
    (values : P.ValueLike value value')
    (renamed : ∀ {expected expected' found found'}, Retold P.name expected expected' →
      Retold P.name found found' → (mismatch expected found).Renamed P.name (mismatch' expected' found')) :
    ReadsAlike P (expect type value mismatch) (expect type' value' mismatch') context context'
      fun _ _ => True := by
  obtain ⟨answer, equal, equal'⟩ := Pairing.satisfies_alike types values
  refine (ReadsAlike.ofFault (R := fun b b' => b = answer ∧ b' = answer) equal equal' ⟨rfl, rfl⟩).bind ?_
  rintro b b' ⟨rfl, rfl⟩
  split
  · exact .pure trivial
  · refine (readsAlike_typeText alike (.some types)).bind fun _ _ expected => ?_
    exact (readsAlike_typeText alike values.types).bind fun _ _ found => .refuse (renamed expected found)

theorem readsAlike_checkFor {ref : VarRef} {var var' : Variable} (alike : P.ContextLike context context')
    (slots : P.SlotLike ref var var') (values : P.ValueLike value value') :
    ReadsAlike P (checkFor var value) (checkFor var' value') context context' fun _ _ => True := by
  have types := slots.types
  unfold checkFor
  rw [slots.name]
  generalize var.type? = type? at types ⊢
  generalize var'.type? = type?' at types ⊢
  cases types with
  | none => exact .pure trivial
  | some types =>
      exact readsAlike_expect alike types values fun expected found => .mismatch var.name expected found

theorem readsAlike_expectU64 (place : U64Place) (alike : P.ContextLike context context')
    (values : P.ValueLike value value') :
    ReadsAlike P (expectU64 place value) (expectU64 place value') context context' fun _ _ => True := by
  unfold expectU64
  rw [Pairing.isU64?_alike values.types]
  split
  · exact .pure trivial
  · exact (readsAlike_typeText alike values.types).bind fun _ _ found => .refuse (.notU64 place found)

end Checks

/-! ## Types -/

section Types

variable {phrase phrase' : Phrase}

theorem readsAlike_plainType (alike : P.ScopeLike context context')
    (phrases : Phrase.Like P.name phrase phrase') :
    ReadsAlike P (plainType phrase) (plainType phrase') context context' P.TypeLike := by
  have kinds := phrases.construct
  unfold plainType
  generalize phrase.construct = c at kinds ⊢
  generalize phrase'.construct = c' at kinds ⊢
  cases kinds with
  | void => exact .pure .void
  | u64 => exact .pure .u64
  | ident =>
      exact (readsAlike_resolve alike _ _ _).bind fun _ _ paired => .pure (.variable paired)
  | _ => exact .refuse (.notAType _)

theorem readsAlike_functionType {args args' : Build (List Term)} {result result' : Build Term}
    {span span' : Span}
    (argsAlike : ReadsAlike P args args' context context' (List.Forall₂ P.TypeLike))
    (resultAlike : ReadsAlike P result result' context context' P.TypeLike) :
    ReadsAlike P (do return .untyped (.functionType (← args) (← result)) span)
      (do return .untyped (.functionType (← args') (← result')) span') context context' P.TypeLike :=
  argsAlike.bind fun _ _ args => resultAlike.bind fun _ _ result =>
    .pure (Pairing.typeLike_functionType_iff.mpr ⟨args, result⟩)

theorem readsAlike_consTypes {first first' : Build Term} {rest rest' : Build (List Term)}
    (firstAlike : ReadsAlike P first first' context context' P.TypeLike)
    (restAlike : ReadsAlike P rest rest' context context' (List.Forall₂ P.TypeLike)) :
    ReadsAlike P (do return (← first) :: (← rest)) (do return (← first') :: (← rest')) context context'
      (List.Forall₂ P.TypeLike) :=
  firstAlike.bind fun _ _ head => restAlike.bind fun _ _ tail => .pure (.cons head tail)

theorem paramItems_alike (phrases : Phrase.Like P.name phrase phrase') :
    List.Forall₂ (Phrase.Like P.name) (paramItems phrase) (paramItems phrase') := by
  have kinds := phrases.construct
  unfold paramItems
  generalize phrase.construct = c at kinds ⊢
  generalize phrase'.construct = c' at kinds ⊢
  cases kinds with
  | paren items =>
      rw [List.forall₂_map_left_iff, List.forall₂_map_right_iff]
      refine items.imp fun item item' alike => ?_
      have itemKinds := alike.construct
      generalize item.construct = k at itemKinds ⊢
      generalize item'.construct = k' at itemKinds ⊢
      cases itemKinds with
      | separator inner => exact inner
      | _ => exact alike
  | _ => exact .cons phrases .nil

theorem itemType?_alike (phrases : Phrase.Like P.name phrase phrase') :
    Option.Rel (Phrase.Like P.name) (itemType? phrase) (itemType? phrase') := by
  have kinds := phrases.construct
  unfold itemType?
  generalize phrase.construct = c at kinds ⊢
  generalize phrase'.construct = c' at kinds ⊢
  cases kinds with
  | binding _ type value =>
      cases type with
      | none => exact .none
      | some type =>
          cases value with
          | none => exact .some type
          | some => exact .none
  | _ => exact .some phrases

theorem readsAlike_itemType (phrases : Phrase.Like P.name phrase phrase')
    (typed : ∀ type, itemType? phrase = some type → ∀ {type'}, Phrase.Like P.name type type' →
      ReadsAlike P (buildType type) (buildType type') context context' P.TypeLike) :
    ReadsAlike P (buildItemType phrase) (buildItemType phrase') context context' P.TypeLike := by
  have types := itemType?_alike phrases
  rw [buildItemType_eq, buildItemType_eq]
  generalize itemType? phrase = type? at types typed ⊢
  generalize itemType? phrase' = type?' at types ⊢
  cases types with
  | none => exact .refuse .invalidArgument
  | some type => exact typed _ rfl type

theorem readsAlike_itemTypes {items items' : List Phrase}
    (alike : List.Forall₂ (Phrase.Like P.name) items items')
    (typed : ∀ item ∈ items, ∀ type, itemType? item = some type → ∀ {type'}, Phrase.Like P.name type type' →
      ReadsAlike P (buildType type) (buildType type') context context' P.TypeLike) :
    ReadsAlike P (items.mapM buildItemType) (items'.mapM buildItemType) context context'
      (List.Forall₂ P.TypeLike) := by
  induction alike with
  | nil => exact .pure .nil
  | cons first _ ih =>
      rw [List.mapM_cons, List.mapM_cons]
      exact readsAlike_consTypes (readsAlike_itemType first (typed _ (by simp)))
        (ih fun item member => typed item (by simp [member]))

/-- Building types from phrases that are alike. -/
theorem readsAlike_buildType (alike : P.ScopeLike context context')
    (phrases : Phrase.Like P.name phrase phrase') :
    ReadsAlike P (buildType phrase) (buildType phrase') context context' P.TypeLike := by
  induction phrase using type_induction generalizing phrase' with
  | plain phrase plain =>
      have kinds := phrases.construct
      rw [buildType_plain plain, buildType_plain]
      · exact readsAlike_plainType alike phrases
      · intro params result isFunctionType
        rw [isFunctionType] at kinds
        generalize phrase.construct = c at kinds plain
        cases kinds
        exact plain _ _ rfl
  | functionType params result span itemsIh resultIh =>
      obtain ⟨construct', span'⟩ := phrase'
      cases phrases.construct with
      | functionType params result =>
          rw [buildType_functionType, buildType_functionType]
          exact readsAlike_functionType (readsAlike_itemTypes (paramItems_alike params) itemsIh)
            (resultIh result)

theorem readsAlike_optionalType {type? type?' : Option Phrase} (alike : P.ScopeLike context context')
    (types : Option.Rel (Phrase.Like P.name) type? type?') :
    ReadsAlike P (type?.mapM buildType) (type?'.mapM buildType) context context'
      (Option.Rel P.TypeLike) := by
  cases types with
  | none => exact .pure .none
  | some type => exact (readsAlike_buildType alike type).map fun _ _ => .some

end Types

/-! ## Parameters -/

section Parameters

variable {phrase phrase' : Phrase}

/-- Parameters whose types are alike, with their names renamed. -/
structure ParamLike (P : Pairing) (param param' : Param) : Prop where
  name : param'.name = P.name param.name
  type : Phrase.Like P.name param.type param'.type

theorem readsAlike_readParam (phrases : Phrase.Like P.name phrase phrase') :
    ReadsAlike P (readParam phrase) (readParam phrase') context context' (ParamLike P) := by
  have kinds := phrases.construct
  unfold readParam
  generalize phrase.construct = c at kinds ⊢
  generalize phrase'.construct = c' at kinds ⊢
  cases kinds with
  | binding name type value =>
      refine (readsAlike_nameOf name).bind ?_
      rintro text _ rfl
      cases value with
      | some => exact .refuse (.defaultedArgument text)
      | none =>
          cases type with
          | some type => exact .pure ⟨rfl, type⟩
          | none => exact .refuse .invalidArgument
  | _ => exact .refuse .invalidArgument

theorem readsAlike_literalType? (alike : P.ScopeLike context context')
    (phrases : Phrase.Like P.name phrase phrase') :
    ReadsAlike P (literalType? phrase) (literalType? phrase') context context'
      (Option.Rel P.TypeLike) := by
  have kinds := phrases.construct
  unfold literalType?
  generalize phrase.construct = c at kinds ⊢
  generalize phrase'.construct = c' at kinds ⊢
  cases kinds with
  | int => exact .pure (.some .u64)
  | function params result body =>
      refine (readsAlike_buildType alike result).bind fun _ _ result => ?_
      refine (ReadsAlike.mapM (paramItems_alike params) fun item item' items => ?_).bind fun _ _ args =>
        .pure (.some (Pairing.typeLike_functionType_iff.mpr ⟨args, result⟩))
      exact (readsAlike_readParam items).bind fun _ _ param => readsAlike_buildType alike param.type
  | _ => exact .pure .none

end Parameters

end Build

end Rill

import Mathlib
import Rill.Pipeline
import Rill.Proofs.Basic
import Rill.Proofs.Build.Resolution

/-!
# Signatures of literals

The type of an unannotated global is read off its value when the value is an integer or a function,
before any value is built. Building the value gives it a type of its own. The signature of a function is
thus read twice, and in two scopes: first with nothing but the globals in scope, then with the tables of
the function, in which the parameters before the one that is read are declared.

A type read in two scopes is the same type exactly if its names mean the same in both
(`Build.compares_buildType`). So the two types of a function literal are equal exactly if no parameter has the
name of something in the type of a later one (`Phrase.paramsApart`), and only then can the literal be
bound: see `literal_signatures_agree`, and `shadowed_signature_refused` for a program that is refused.
-/

namespace Rill

/-! ## Names in types -/

namespace Phrase

/-- The names that a phrase looks up when it is read as a type. -/
def typeNames (phrase : Phrase) : List String :=
  (match phrase.construct with
    | .ident name => [name]
    | _ => []) ++ phrase.construct.inner.attach.flatMap fun ⟨part, _⟩ => part.typeNames
termination_by sizeOf phrase
decreasing_by exact sizeOf_part_lt (phrase.construct.inner_sublist.subset ‹_›)

theorem typeNames_ident (name : String) (span : Span) : typeNames ⟨.ident name, span⟩ = [name] := by
  rw [typeNames]
  rfl

/-- Everything but a name only has the names of its parts. -/
theorem typeNames_mk (construct : Construct Phrase) (span : Span) (noName : ∀ name, construct ≠ .ident name) :
    typeNames ⟨construct, span⟩ = construct.inner.flatMap typeNames := by
  rw [typeNames, flatMap_attach fun _ => rfl]
  split
  · next name isIdent => exact absurd isIdent (noName name)
  · rfl

theorem typeNames_paren (items : List Phrase) (span : Span) :
    typeNames ⟨.paren items, span⟩ = items.flatMap typeNames :=
  typeNames_mk (.paren items) span nofun

theorem typeNames_separator (item : Phrase) (span : Span) :
    typeNames ⟨.separator item, span⟩ = item.typeNames := by
  rw [typeNames_mk (.separator item) span nofun]
  simp [Construct.inner, Construct.parts]

theorem typeNames_binding (name type : Phrase) (span : Span) :
    typeNames ⟨.binding name (some type) none, span⟩ = type.typeNames := by
  rw [typeNames_mk (.binding name (some type) none) span nofun]
  simp [Construct.inner]

theorem typeNames_functionType (params result : Phrase) (span : Span) :
    typeNames ⟨.functionType params result, span⟩ =
      (Build.paramItems params).flatMap typeNames ++ result.typeNames := by
  rw [Build.flatMap_paramItems typeNames_paren typeNames_separator,
    typeNames_mk (.functionType params result) span nofun]
  simp [Construct.inner, Construct.parts]

/-- The name and the type of a parameter. -/
def param? (phrase : Phrase) : Option (String × Phrase) :=
  match phrase.construct with
  | .binding namePhrase (some type) none =>
      match namePhrase.construct with
      | .ident name => some (name, type)
      | _ => none
  | _ => none

/-- The parameters of a function literal. -/
def params (value : Phrase) : List (String × Phrase) :=
  match value.construct with
  | .function params _ _ => (Build.paramItems params).filterMap param?
  | _ => []

/-- Whether no parameter of a literal has the name of something in the type of a later one. -/
def paramsApart (value : Phrase) : Bool :=
  decide (value.params.Pairwise fun earlier later => earlier.1 ∉ later.2.typeNames)

/-- Whether the phrase is an integer or a function. -/
def isLiteral (value : Phrase) : Bool :=
  match value.construct with
  | .int _ | .function .. => true
  | _ => false

end Phrase

/-! ## Types in two scopes -/

/-- What a name means at this point. -/
def BuildContext.meaning (context : BuildContext) (name : String) : Except Fault (Option VarRef) :=
  ScopeChain.lookup? context.program name context.scope

namespace Build

open BuildContext (Leaves)

variable {context other after after' : BuildContext} {ref : VarRef} {a b : Term}

theorem resolve_eq_ok {name : String} {span : Span} (run : resolve name span context = .ok (ref, after)) :
    context.meaning name = .ok (some ref) ∧ after = context := by
  refine ⟨?_, (reads_resolve _ _ _ _ _ run).symm⟩
  obtain ⟨_, _, got, run⟩ := bind_eq_ok_iff.mp run
  cases got
  obtain ⟨answer, middle, asked, run⟩ := bind_eq_ok_iff.mp run
  cases looked : ScopeChain.lookup? context.program name context.scope with
  | error fault =>
      rw [looked] at asked
      cases asked
  | ok found =>
      rw [looked] at asked
      cases asked
      cases answer with
      | none => cases run
      | some ref' =>
          cases run
          exact looked

/-- The names mean the same in both contexts. -/
def Agree (context other : BuildContext) (names : List String) : Prop :=
  ∀ name ∈ names, context.meaning name = other.meaning name

theorem agree_append {names more : List String} :
    Agree context other (names ++ more) ↔ Agree context other names ∧ Agree context other more :=
  List.forall_mem_append

theorem agree_nil : Agree context other [] :=
  nofun

/-- What the step reads in both contexts is the same, up to `bare`, exactly if the names mean the same
in both. -/
def Compares {α β : Type} (bare : α → β) (m : Build α) (context other : BuildContext)
    (names : List String) : Prop :=
  ∀ a b after after', m context = .ok (a, after) → m other = .ok (b, after') →
    (bare a = bare b ↔ Agree context other names)

theorem compares_plainType (phrase : Phrase) :
    Compares Term.bare (plainType phrase) context other phrase.typeNames := by
  intro a b after after' run run'
  obtain ⟨construct, span⟩ := phrase
  cases construct with
  | void =>
      cases run
      cases run'
      rw [Phrase.typeNames_mk .void span nofun]
      exact iff_of_true rfl agree_nil
  | u64 =>
      cases run
      cases run'
      rw [Phrase.typeNames_mk .u64 span nofun]
      exact iff_of_true rfl agree_nil
  | ident name =>
      obtain ⟨ref, _, resolved, run⟩ := bind_eq_ok_iff.mp run
      obtain ⟨ref', _, resolved', run'⟩ := bind_eq_ok_iff.mp run'
      cases run
      cases run'
      rw [Phrase.typeNames_ident, Agree, List.forall_mem_singleton, (resolve_eq_ok resolved).1,
        (resolve_eq_ok resolved').1]
      simp [Term.untyped, Term.bare, Term.bareShape]
  | _ => cases run

theorem compares_cons {first : Build Term} {rest : Build (List Term)} {names more : List String}
    (reads : Moves Eq first) (firstIh : Compares Term.bare first context other names)
    (restIh : Compares Term.bareList rest context other more) :
    Compares Term.bareList (do
        let type ← first
        return type :: (← rest)) context other (names ++ more) := by
  intro types types' after after' run run'
  obtain ⟨type, _, firstRun, run⟩ := bind_eq_ok_iff.mp run
  obtain ⟨type', _, firstRun', run'⟩ := bind_eq_ok_iff.mp run'
  cases reads _ _ _ firstRun
  cases reads _ _ _ firstRun'
  obtain ⟨others, _, restRun, run⟩ := bind_eq_ok_iff.mp run
  obtain ⟨others', _, restRun', run'⟩ := bind_eq_ok_iff.mp run'
  cases run
  cases run'
  rw [agree_append, ← firstIh _ _ _ _ firstRun firstRun', ← restIh _ _ _ _ restRun restRun',
    Term.bareList, Term.bareList, List.cons.injEq]

theorem compares_itemTypes {items : List Phrase}
    (each : ∀ item ∈ items, ∀ type, itemType? item = some type →
      Compares Term.bare (buildType type) context other type.typeNames) :
    Compares Term.bareList (items.mapM buildItemType) context other (items.flatMap Phrase.typeNames) := by
  induction items with
  | nil =>
      intro types types' after after' run run'
      cases run
      cases run'
      exact iff_of_true rfl agree_nil
  | cons item items ih =>
      rw [List.mapM_cons, List.flatMap_cons]
      have reads : Moves Eq (buildItemType item) :=
        buildItemType_cases .refuse fun type _ => reads_buildType type
      have first : Compares Term.bare (buildItemType item) context other item.typeNames := by
        refine buildItemType_cases (P := fun m => Compares Term.bare m context other item.typeNames) ?_ ?_
        · rintro _ _ _ _ ⟨⟩
        · intro type given
          rw [gather_itemType Phrase.typeNames_binding given]
          exact each item (by simp) type given
      exact compares_cons reads first (ih fun item member => each item (by simp [member]))

/-- A type read in two contexts is the same exactly if its names mean the same in both. -/
theorem compares_buildType (phrase : Phrase) :
    Compares Term.bare (buildType phrase) context other phrase.typeNames := by
  induction phrase using type_induction with
  | plain phrase plain =>
      rw [buildType_plain plain]
      exact compares_plainType phrase
  | functionType params result span itemsIh resultIh =>
      intro a b after after' run run'
      cases (TypeRun.of_ok run).1 with
      | functionType argsRun resultRun =>
        cases (TypeRun.of_ok run').1 with
        | functionType argsRun' resultRun' =>
          have args := compares_itemTypes itemsIh _ _ _ _ argsRun argsRun'
          have type := resultIh _ _ _ _ resultRun resultRun'
          rw [Phrase.typeNames_functionType, agree_append, ← args, ← type]
          simp [Term.untyped, Term.bare, Term.bareShape]

/-! ## Parameters -/

/-- Only the names of a table matter to a look-up. -/
theorem lookup?_eq_of_names {vars vars' : VariableTable}
    (same : vars.toList.map Variable.name = vars'.toList.map Variable.name) (name : String) :
    vars.lookup? name = vars'.lookup? name :=
  lastIndex?_congr (by simpa [Function.comp_def] using congrArg (List.map (· == name)) same)

theorem lookup?_cons {program : Program} {id : TableId} {vars : VariableTable} {chain : ScopeChain}
    (tableAt : program.tables[id]? = some vars) (name : String) :
    ScopeChain.lookup? program name (id :: chain) =
      match vars.lookup? name with
      | some index => .ok (some ⟨id, index⟩)
      | none => ScopeChain.lookup? program name chain := by
  rw [ScopeChain.lookup?, Program.table, fetch_eq_ok_iff.mpr tableAt]
  rfl

/-- The scope of a parameter type: `inner` has the globals of `global` around the two tables of a
function, where the parameters with the names are declared. -/
structure Shadows (names : List String) (args : TableId) (global inner : BuildContext) : Prop where
  globals : ∃ vars vars' : VariableTable, global.program.tables[0]? = some vars ∧
    inner.program.tables[0]? = some vars' ∧
    vars.toList.map Variable.name = vars'.toList.map Variable.name
  globalScope : global.scope = [0]
  innerScope : inner.scope = [args + 1, args, 0]
  params : ∃ vars : VariableTable, inner.program.tables[args]? = some vars ∧
    vars.toList.map Variable.name = names
  locals : inner.program.tables[args + 1]? = some #[]
  isLocal : args ≠ 0

namespace Shadows

variable {names : List String} {args : TableId} {global inner : BuildContext}

/-- The parameters hide the globals of their names, and nothing else. -/
theorem meaning_eq_iff (shadows : Shadows names args global inner) (name : String) :
    global.meaning name = inner.meaning name ↔ name ∉ names := by
  obtain ⟨vars, vars', globalsAt, globalsAt', sameNames⟩ := shadows.globals
  obtain ⟨params, paramsAt, rfl⟩ := shadows.params
  have outside : global.meaning name = .ok ((vars.lookup? name).map (VarRef.mk 0)) := by
    rw [BuildContext.meaning, shadows.globalScope, lookup?_cons globalsAt]
    cases vars.lookup? name <;> rfl
  have inside : inner.meaning name = match params.lookup? name with
      | some index => .ok (some ⟨args, index⟩)
      | none => .ok ((vars.lookup? name).map (VarRef.mk 0)) := by
    rw [BuildContext.meaning, shadows.innerScope, lookup?_cons shadows.locals, lookup?_cons paramsAt,
      lookup?_cons globalsAt', lookup?_eq_of_names sameNames]
    cases params.lookup? name <;> cases vars'.lookup? name <;> rfl
  rw [outside, inside]
  cases found : params.lookup? name with
  | none =>
      have absent := lastIndex?_eq_none_iff.mp found
      refine iff_of_true rfl fun member => ?_
      obtain ⟨var, inParams, isNamed⟩ := List.mem_map.mp member
      simpa [isNamed] using absent var inParams
  | some index =>
      obtain ⟨⟨var, varAt, isNamed⟩, _⟩ := lastIndex?_eq_some_iff.mp found
      refine iff_of_false (fun same => ?_) fun absent => absent ?_
      · cases inGlobals : vars.lookup? name with
        | none => simp [inGlobals] at same
        | some other =>
            rw [inGlobals] at same
            have sameTable : 0 = args := by
              simpa using congrArg VarRef.table (Option.some.inj (Except.ok.inj same))
            exact shadows.isLocal sameTable.symm
      · exact List.mem_map.mpr ⟨var, List.mem_of_getElem? varAt, by simpa using isNamed⟩

theorem agree_iff (shadows : Shadows names args global inner) (more : List String) :
    Agree global inner more ↔ ∀ name ∈ names, name ∉ more := by
  simp only [Agree, shadows.meaning_eq_iff]
  exact ⟨fun apart name inNames inMore => apart name inMore inNames,
    fun apart name inMore inNames => apart name inNames inMore⟩

/-- The function has opened its tables and declared nothing yet. -/
theorem opened {context : BuildContext} {vars vars' : VariableTable}
    (globalsAt : global.program.tables[0]? = some vars)
    (globalsAt' : context.program.tables[0]? = some vars')
    (sameNames : vars.toList.map Variable.name = vars'.toList.map Variable.name)
    (globalScope : global.scope = [0]) (scope : context.scope = [0]) :
    Shadows [] context.program.tables.size global (Build.opened context) := by
  refine ⟨⟨vars, vars', globalsAt, table_opened context 0 vars' globalsAt', sameNames⟩, globalScope, ?_,
    ⟨#[], ?_, rfl⟩, ?_, ?_⟩
  · simp [Build.opened, scope]
  · simp [Build.opened, Program.addTable, Array.getElem_push]
  · simp [Build.opened, Program.addTable, Array.getElem_push]
  · exact Nat.ne_of_gt (Array.getElem?_eq_some_iff.mp globalsAt').1

/-- One more parameter is declared. -/
theorem declare (shadows : Shadows names args global inner) (var : Variable) :
    Shadows (names ++ [var.name]) args global
      { inner with program := inner.program.declare args var } := by
  obtain ⟨params, paramsAt, rfl⟩ := shadows.params
  obtain ⟨vars, vars', globalsAt, globalsAt', sameNames⟩ := shadows.globals
  refine ⟨⟨vars, vars', globalsAt, ?_, sameNames⟩, shadows.globalScope, shadows.innerScope,
    ⟨params.push var, ?_, by simp⟩, ?_, shadows.isLocal⟩
  · simp [Program.declare, Array.getElem?_modify, shadows.isLocal, globalsAt']
  · simp [Program.declare, Array.getElem?_modify, paramsAt]
  · simp [Program.declare, Array.getElem?_modify, shadows.locals]

end Shadows

theorem readParam_eq_ok {phrase : Phrase} {param : Param}
    (run : readParam phrase context = .ok (param, after)) :
    phrase.param? = some (param.name, param.type) ∧ after = context := by
  refine ⟨?_, (reads_readParam _ _ _ _ run).symm⟩
  obtain ⟨construct, span⟩ := phrase
  cases construct with
  | binding namePhrase type? value? =>
      obtain ⟨name, middle, named, run⟩ := bind_eq_ok_iff.mp run
      cases value? with
      | some value => cases run
      | none =>
          cases type? with
          | none => cases run
          | some type =>
              cases run
              simp [Phrase.param?, (nameOf_eq_ok named).1]
  | _ => cases run

theorem buildArgument_eq_ok {table : TableId} {phrase : Phrase}
    (run : buildArgument table phrase context = .ok (a, after)) :
    ∃ (param : Param) (vars : VariableTable), phrase.param? = some (param.name, param.type) ∧
      buildType param.type context = .ok (a, context) ∧ context.program.tables[table]? = some vars ∧
      after = { context with
        program := context.program.declare table ⟨param.name, param.nameSpan, some a, none⟩ } := by
  obtain ⟨param, middle, paramRun, rest⟩ := bind_eq_ok_iff.mp run
  obtain ⟨isParam, same⟩ := readParam_eq_ok paramRun
  subst same
  obtain ⟨type, typed, typeRun, declaring⟩ := bind_eq_ok_iff.mp rest
  cases reads_buildType _ _ _ _ typeRun
  obtain ⟨_, _, declares, returns⟩ := bind_eq_ok_iff.mp declaring
  cases returns
  obtain ⟨vars, tableAt, _, rfl⟩ := declare_eq_ok declares
  exact ⟨param, vars, isParam, typeRun, tableAt, rfl⟩

/-- The types of the parameters, read outside the function and inside it. -/
theorem arguments_agree {names : List String} {args : TableId} {global inner : BuildContext}
    {items : List Phrase} {early built : List Term} (shadows : Shadows names args global inner)
    (run : (items.mapM fun item => (do buildType (← readParam item).type : Build Term)) global =
      .ok (early, after))
    (run' : items.mapM (buildArgument args) inner = .ok (built, after')) :
    Term.bareList early = Term.bareList built ↔
      (items.filterMap Phrase.param?).Pairwise (fun earlier later => earlier.1 ∉ later.2.typeNames) ∧
      ∀ param ∈ items.filterMap Phrase.param?, ∀ name ∈ names, name ∉ param.2.typeNames := by
  -- The names are those of the parameters before the items.
  induction items generalizing names inner early built with
  | nil =>
      cases run
      cases run'
      simp
  | cons item items ih =>
      rw [List.mapM_cons] at run run'
      obtain ⟨a, _, itemRun, more⟩ := bind_eq_ok_iff.mp run
      obtain ⟨early, _, restRun, returns⟩ := bind_eq_ok_iff.mp more
      obtain ⟨b, _, itemRun', more'⟩ := bind_eq_ok_iff.mp run'
      obtain ⟨built, _, restRun', returns'⟩ := bind_eq_ok_iff.mp more'
      cases returns
      cases returns'
      obtain ⟨param, middle, paramRun, typeRun⟩ := bind_eq_ok_iff.mp itemRun
      obtain ⟨isParam, same⟩ := readParam_eq_ok paramRun
      subst same
      cases reads_buildType _ _ _ _ typeRun
      obtain ⟨param', vars, isParam', typeRun', _, rfl⟩ := buildArgument_eq_ok itemRun'
      obtain ⟨sameName, sameType⟩ := Prod.mk.inj (Option.some.inj (isParam.symm.trans isParam'))
      rw [← sameType] at typeRun'
      have first := compares_buildType _ _ _ _ _ typeRun typeRun'
      have rest := ih (shadows.declare _) restRun restRun'
      rw [shadows.agree_iff] at first
      simp only [← sameName, List.forall_mem_append, List.forall_mem_singleton] at rest
      rw [Term.bareList, Term.bareList, List.cons.injEq, first, rest,
        List.filterMap_cons_some isParam, List.pairwise_cons, List.forall_mem_cons]
      constructor
      · rintro ⟨here, apart, later⟩
        exact ⟨⟨fun p member => (later p member).2, apart⟩, here, fun p member => (later p member).1⟩
      · rintro ⟨⟨hidden, apart⟩, here, later⟩
        exact ⟨here, apart, fun p member => ⟨later p member, hidden p member⟩⟩

/-! ## Literals -/

/-- The two types of a function literal. -/
theorem function_types_agree {params result body : Phrase} {span : Span} {early built : Term}
    {global : BuildContext} {vars vars' : VariableTable}
    (globalsAt : global.program.tables[0]? = some vars)
    (globalsAt' : context.program.tables[0]? = some vars')
    (sameNames : vars.toList.map Variable.name = vars'.toList.map Variable.name)
    (globalScope : global.scope = [0]) (scope : context.scope = [0])
    (signed : literalType? ⟨.function params result body, span⟩ global = .ok (some early, after))
    (run : buildValue ⟨.function params result body, span⟩ context = .ok (built, after')) :
    ∃ args type, early.shape = .functionType args type ∧ ∃ args' type' id,
      built = .typed (.function id) (.untyped (.functionType args' type') span) span ∧
      (early.bare = (Term.untyped (.functionType args' type') span).bare ↔
        Phrase.paramsApart ⟨.function params result body, span⟩ = true) := by
  have shadows := Shadows.opened globalsAt globalsAt' sameNames globalScope scope
  obtain ⟨type, _, resultRun, signed⟩ := bind_eq_ok_iff.mp signed
  cases reads_buildType _ _ _ _ resultRun
  obtain ⟨args, _, argsRun, signed⟩ := bind_eq_ok_iff.mp signed
  cases signed
  rw [buildValue] at run
  obtain ⟨type', args', _, _, last, resultRun', argsRun', _, rfl, _⟩ := buildFunction_eq_ok run
  refine ⟨args, type, rfl, args', type', last.program.functions.size, rfl, ?_⟩
  have sameResult := compares_buildType _ _ _ _ _ resultRun resultRun'
  rw [shadows.agree_iff] at sameResult
  have sameArgs := arguments_agree shadows argsRun argsRun'
  simp only [List.not_mem_nil, false_implies, implies_true, iff_true, and_true] at sameResult sameArgs
  rw [Phrase.paramsApart, decide_eq_true_iff]
  simpa [Phrase.params, Term.untyped, Term.bare, Term.bareShape, sameResult] using sameArgs

theorem literalType?_isSome {value : Phrase} {type? : Option Term} (isLiteral : value.isLiteral = true)
    (run : literalType? value context = .ok (type?, after)) : ∃ type, type? = some type := by
  obtain ⟨construct, span⟩ := value
  cases construct with
  | int n =>
      cases run
      exact ⟨_, rfl⟩
  | function params result body =>
      obtain ⟨_, _, _, run⟩ := bind_eq_ok_iff.mp run
      obtain ⟨_, _, _, run⟩ := bind_eq_ok_iff.mp run
      cases run
      exact ⟨_, rfl⟩
  | _ => cases isLiteral

/-- The type read off a literal, and the type and the value that building it gives. -/
theorem literal_agrees {value : Phrase} {early? : Option Term} {built : Term} {global : BuildContext}
    {vars vars' : VariableTable} (isLiteral : value.isLiteral = true)
    (globalsAt : global.program.tables[0]? = some vars)
    (globalsAt' : context.program.tables[0]? = some vars')
    (sameNames : vars.toList.map Variable.name = vars'.toList.map Variable.name)
    (globalScope : global.scope = [0]) (scope : context.scope = [0])
    (signed : literalType? value global = .ok (early?, after))
    (run : buildValue value context = .ok (built, after'))
    (isType : ∀ early, early? = some early → early.IsType)
    (isType' : ∀ type, built.type? = some type → type.IsType) :
    built.span = value.span ∧ ∃ early type, early? = some early ∧ built.type? = some type ∧
      early.typeEquals type = .ok value.paramsApart ∧ early.satisfies built = .ok value.paramsApart := by
  obtain ⟨construct, span⟩ := value
  cases construct with
  | int n =>
      rw [buildValue] at run
      cases signed
      cases run
      have apart : Phrase.paramsApart ⟨.int n, span⟩ = true := by simp [Phrase.paramsApart, Phrase.params]
      rw [apart]
      exact ⟨rfl, _, _, rfl, rfl, rfl, rfl⟩
  | function params result body =>
      obtain ⟨early, rfl⟩ := literalType?_isSome isLiteral signed
      obtain ⟨args, type, shape, args', type', id, rfl, agrees⟩ :=
        function_types_agree globalsAt globalsAt' sameNames globalScope scope signed run
      obtain ⟨answer, asked, answered⟩ := Term.typeEquals_iff_bare (isType early rfl) (isType' _ rfl)
      rw [agrees] at answered
      have isAnswer := Bool.eq_iff_iff.mpr answered
      subst isAnswer
      refine ⟨rfl, early, _, rfl, rfl, asked, ?_⟩
      rw [Term.satisfies, shape]
      exact asked
  | _ => cases isLiteral

theorem apart_of_not_literal {value : Phrase} (notLiteral : value.isLiteral ≠ true) :
    value.paramsApart = true := by
  obtain ⟨construct, span⟩ := value
  cases construct with
  | int n => exact absurd rfl notLiteral
  | function params result body => exact absurd rfl notLiteral
  | _ => simp [Phrase.paramsApart, Phrase.params]

theorem literalType?_of_not_literal {value : Phrase} (notLiteral : value.isLiteral ≠ true) :
    literalType? value = pure none := by
  obtain ⟨construct, span⟩ := value
  cases construct with
  | int n => exact absurd rfl notLiteral
  | function params result body => exact absurd rfl notLiteral
  | _ => rfl

/-- A value that does not satisfy a type is refused, unless a type has no text. -/
theorem expect_of_refuted {type value : Term} (mismatch : (expected found : String) → BuildErrorKind)
    (context : BuildContext) (refuted : type.satisfies value = .ok false) :
    (∃ fault, expect type value mismatch context = .error (.broken fault)) ∨
      ∃ expected found, expect type value mismatch context =
        .error (.reported ⟨mismatch expected found, value.span⟩) := by
  unfold expect
  rw [refuted]
  have texts : ∀ type?, (∃ fault, typeText type? context = .error (.broken fault)) ∨
      ∃ text, typeText type? context = .ok (text, context) := by
    intro type?
    change (∃ fault, ofFault (context.program.typeNameOf type?) context = _) ∨
      ∃ text, ofFault (context.program.typeNameOf type?) context = _
    cases context.program.typeNameOf type? with
    | error fault => exact Or.inl ⟨fault, rfl⟩
    | ok text => exact Or.inr ⟨text, rfl⟩
  change (∃ fault, (typeText (some type) >>= fun expected => typeText value.type? >>= fun found =>
      refuse (mismatch expected found) value.span : Build Unit) context = _) ∨
    ∃ expected found, (typeText (some type) >>= fun expected => typeText value.type? >>= fun found =>
      refuse (mismatch expected found) value.span : Build Unit) context = _
  rcases texts (some type) with ⟨fault, failed⟩ | ⟨expected, named⟩
  · exact Or.inl ⟨fault, bind_of_error failed⟩
  · rw [bind_of_ok named]
    rcases texts value.type? with ⟨fault, failed⟩ | ⟨found, named'⟩
    · exact Or.inl ⟨fault, bind_of_error failed⟩
    · rw [bind_of_ok named']
      exact Or.inr ⟨expected, found, rfl⟩

/-! ## The turn of a binding -/

/-- All bindings are declared and have the types that can be read off them, and the bindings before the
item have their values. -/
def Reached (phrases : List Phrase) (item : Pending) (annotated context : BuildContext) : Prop :=
  ∃ pending declared index,
    phrases.mapM (declareGlobal start.program.globals) start = .ok (pending, declared) ∧
    pending[index]? = some item ∧ pending.forM annotate declared = .ok ((), annotated) ∧
    (pending.take index).forM fill annotated = .ok ((), context)

/-- Filling some globals changes no other one. -/
theorem fills_elsewhere {bindings : List Global} {index i : Nat} {vars : VariableTable} {u : Unit}
    (tableAt : context.program.tables[0]? = some vars)
    (run : (Global.pendings 0 index bindings).forM fill context = .ok (u, after))
    (outside : i < index ∨ index + bindings.length ≤ i) :
    slotIn? after.program.tables ⟨0, i⟩ = slotIn? context.program.tables ⟨0, i⟩ := by
  induction bindings generalizing index context vars with
  | nil =>
      cases run
      rfl
  | cons binding bindings ih =>
      obtain ⟨_, next, fills, rest⟩ := bind_eq_ok_iff.mp run
      obtain ⟨phrase, value, middle, var, _, valueRun, _, _, rfl⟩ := fill_eq_ok fills
      have kept := (leaves_buildValue phrase _ _ _ valueRun).tables 0 vars tableAt id
      have tableAt' : (middle.program.modifyVar ⟨0, index⟩ (filled value)).tables[0]? =
          some (vars.modify index (filled value)) := by
        simp [Program.modifyVar, Array.getElem?_modify, kept]
      rw [List.length_cons] at outside
      rw [ih tableAt' rest (by omega), slotIn?_modifyVar_of_ne (by simp; omega)]
      simp only [slotIn?, tableAt, kept]

/-- No step of a build meets a fault, so the turn of a binding comes in a sound context. -/
theorem Reached.filling {phrases : List Phrase} {item : Pending} {annotated : BuildContext}
    (reached : Reached phrases item annotated context) :
    ∃ pending rest frames, Filling pending (item :: rest) context frames := by
  obtain ⟨pending, declared, index, declares, itemAt, annotates, fills⟩ := reached
  obtain ⟨isDeclared, blank⟩ := wp_result (wp_declareGlobals phrases start [] declared_start (by simp)) declares
  have annotating := wp_result (wp_forM (fun rest after => Annotating pending rest after _)
    (fun p rest after => wp_annotate) pending declared ⟨isDeclared, List.suffix_refl _, blank, fun p member => by
      obtain ⟨var, found, _, empty⟩ := blank p member
      exact ⟨var, found, empty⟩⟩) annotates
  have inBounds := (List.getElem?_eq_some_iff.mp itemAt).1
  have ahead : pending.drop index = item :: pending.drop (index + 1) := by
    rw [List.drop_eq_getElem_cons inBounds]
    rw [List.getElem?_eq_getElem inBounds] at itemAt
    rw [Option.some.inj itemAt]
  have filling := wp_result (wp_forM
    (fun rest after => ∃ frames, Filling pending (rest ++ pending.drop index) after frames)
    (fun p rest after ⟨frames, holds⟩ => wp_fill holds) (pending.take index) annotated
    ⟨_, annotating.declared, by rw [List.take_append_drop], ?_, ?_⟩) fills
  · obtain ⟨frames, holds⟩ := filling
    rw [List.nil_append, ahead] at holds
    exact ⟨pending, _, frames, holds⟩
  · rw [List.take_append_drop]
    exact annotating.empty
  · rw [List.take_append_drop]
    exact fun p member => Or.inl member

/-- What is known when the turn of a binding comes: its variable is as it was annotated, and the globals
have the names that its type was read off with. -/
theorem Reached.turn {phrases : List Phrase} {item : Pending} {annotated : BuildContext}
    (reached : Reached phrases item annotated context) :
    ∃ (var : Variable) (vars : List Variable), slotIn? annotated.program.tables item.ref = some var ∧
      slotIn? context.program.tables item.ref = some var ∧ item.ref.table = 0 ∧
      signature item (withGlobals vars) = .ok (var.type?, withGlobals vars) ∧
      Named (vars.map Variable.name) context ∧ context.scope = [0] := by
  obtain ⟨pending, declared, index, declares, itemAt, annotates, fills⟩ := reached
  obtain ⟨bindings, areGlobals⟩ := globals_of_declareGlobals declares
  have tableAt : start.program.tables[0]? = some #[] := rfl
  cases (declareGlobals_of_globals areGlobals tableAt).symm.trans declares
  rw [declaring_start] at annotates
  obtain ⟨types, rfl, signed⟩ := types_of_stubs annotates
  rw [Global.pendings_getElem?, Option.map_eq_some_iff] at itemAt
  obtain ⟨binding, bindingAt, rfl⟩ := itemAt
  obtain ⟨type?, typeAt, vars, sameNames, reads⟩ := forall₂_getElem? signed bindingAt
  rw [Global.pendings_take] at fills
  have inBounds := (List.getElem?_eq_some_iff.mp bindingAt).1
  have annotatedAt : slotIn? (withGlobals (List.zipWith Global.typed bindings types)).program.tables
      ⟨0, index⟩ = some (binding.typed type?) := by
    simp [slotIn?, withGlobals, List.getElem?_zipWith, bindingAt, typeAt]
  have kept := fills_elsewhere (i := index) rfl fills (by simp)
  have named := ((GlobalsResolved.start fun var => typed_empty).fills fills).named
  have filledTo := (FilledTo.start fun var => typed_empty).fills fills
  have names : (List.zipWith Global.typed bindings types).map Variable.name = vars.map Variable.name := by
    rw [sameNames]
    exact List.ext_getElem (by simp [signed.length_eq]) (by simp [Global.typed, Global.stub])
  refine ⟨binding.typed type?, vars, ?_, ?_, rfl, reads, names ▸ named, filledTo.scope⟩
  · simpa [Global.pending] using annotatedAt
  · simpa [Global.pending] using kept.trans annotatedAt

/-- A bound value that does not satisfy the type of its variable is refused, where no fault is met. -/
theorem bind_of_refuted {var : Variable} {type value : Term} {span : Span} {post : Unit → BuildContext → Prop}
    (found : slotIn? context.program.tables ref = some var) (typed : var.type? = some type)
    (refuted : type.satisfies value = .ok false) (spanned : value.span = span)
    (meetsNoFault : wp (Build.bind ref value) post context) :
    ∃ name expected found, Build.bind ref value context =
      .error (.reported ⟨.mismatch name expected found, span⟩) := by
  have checked : checkFor var value = expect type value (.mismatch var.name) := by
    rw [checkFor, typed]
  rcases expect_of_refuted (.mismatch var.name) context refuted with
    ⟨fault, failed⟩ | ⟨expected, found', failed⟩
  · rw [wp, bind_eq found, checked, bind_of_error failed] at meetsNoFault
    exact meetsNoFault.elim
  · rw [bind_eq found, checked, bind_of_error failed, spanned]
    exact ⟨_, _, _, rfl⟩

end Build

/-! ## The result -/

/-- The type read off an unannotated literal is the type that building it gives exactly if its
parameters are apart, and an unannotated value is bound if so and refused otherwise. -/
theorem literal_signatures_agree {phrases : List Phrase} {item : Build.Pending}
    {annotated context after : BuildContext} {value : Phrase} {built : Term}
    (reached : Build.Reached phrases item annotated context) (unannotated : item.type? = none)
    (isValue : item.value? = some value) (run : Build.buildValue value context = .ok (built, after)) :
    (value.isLiteral = true → ∃ var early type, annotated.program.var item.ref = .ok var ∧
      var.type? = some early ∧ built.type? = some type ∧
      early.typeEquals type = .ok value.paramsApart) ∧
    (value.paramsApart = true → ∃ bound, Build.bind item.ref built after = .ok ((), bound)) ∧
    (value.paramsApart = false → ∃ name expected found, Build.bind item.ref built after =
      .error (.reported ⟨.mismatch name expected found, value.span⟩)) := by
  obtain ⟨var, vars, annotatedAt, reachedAt, isGlobal, signed, ⟨globals, globalsAt, sameNames⟩, scope⟩ :=
    reached.turn
  obtain ⟨pending, rest, frames, filling⟩ := reached.filling
  have signed : Build.literalType? value (Build.withGlobals vars) =
      .ok (var.type?, Build.withGlobals vars) := by
    rwa [Build.signature, unannotated, isValue] at signed
  have foundAt : slotIn? after.program.tables item.ref = some var := by
    have kept := (Build.leaves_buildValue value _ _ _ run).tables 0 globals globalsAt id
    simpa only [slotIn?, isGlobal, globalsAt, kept] using reachedAt
  have signedAt : (Build.withGlobals vars).program.tables[0]? = some vars.toArray := rfl
  by_cases isLiteral : value.isLiteral = true
  · have sound := filling.declared.sound
    obtain ⟨frames', sound', _, valued⟩ := Build.wp_result (Build.keeps_buildValue value sound) run
    obtain ⟨spanned, early, type, typed, typed', asked, satisfied⟩ :=
      Build.literal_agrees isLiteral signedAt globalsAt sameNames.symm rfl scope signed run
        (fun early typed => (sound.scene.slot_type reachedAt typed).isType)
        fun type typed => (Build.value_type_in sound' valued type typed).isType
    refine ⟨fun _ => ⟨var, early, type, Program.var_eq_ok_iff.mpr annotatedAt, typed, typed', asked⟩, fun apart => ?_,
      fun clash => ?_⟩
    · refine ⟨_, Build.bind_of_satisfies foundAt fun known same => ?_⟩
      cases typed.symm.trans same
      rw [satisfied, apart]
    · have fills : Build.fill item context = Build.bind item.ref built after := by
        rw [Build.fill, isValue]
        exact Build.bind_of_ok run
      have meetsNoFault := Build.wp_fill filling
      rw [Build.wp, fills] at meetsNoFault
      exact Build.bind_of_refuted foundAt typed (clash ▸ satisfied) spanned meetsNoFault
  · have untyped : none = var.type? := by
      rw [Build.literalType?_of_not_literal isLiteral] at signed
      exact congrArg Prod.fst (Except.ok.inj signed)
    have apart := Build.apart_of_not_literal isLiteral
    refine ⟨fun literal => absurd literal isLiteral, fun _ => ?_, fun clash => ?_⟩
    · refine ⟨_, Build.bind_of_satisfies foundAt fun known same => ?_⟩
      cases untyped.trans same
    · cases apart.symm.trans clash

/-- A source with a parameter that has the name of a global, in the type of no later parameter. -/
def lateShadow : String :=
  "T :: u64; f :: (x : T, T : T) -> void \x7b \x7d;"

/-- Whether the turn of the second of two globals comes, a literal without an annotation whose parameters
are apart, and its value is built. -/
def buildsSecond (phrases : List Phrase) : Bool :=
  (phrases.mapM (Build.declareGlobal Build.start.program.globals) Build.start).toOption.any fun declared =>
    match declared with
    | ([first, ⟨ref, none, some value, span⟩], declared) =>
        ([first, ⟨ref, none, some value, span⟩].forM Build.annotate declared).toOption.any fun annotated =>
          ([first].forM Build.fill annotated.2).toOption.any fun filled =>
            (Build.buildValue value filled.2).toOption.any fun _ => value.isLiteral && value.paramsApart
    | _ => false

/-- The turn of `f` comes, and the type read off it is the type it is built with. -/
theorem literal_signatures_agree_lateShadow : ∃ tree phrases item annotated context value built after,
    Pipeline.parse lateShadow = .ok tree ∧ tree.topLevel = .ok phrases ∧
    Build.Reached phrases item annotated context ∧ item.value? = some value ∧
    Build.buildValue value context = .ok (built, after) ∧
    (∃ var early type, annotated.program.var item.ref = .ok var ∧ var.type? = some early ∧
      built.type? = some type ∧ early.typeEquals type = .ok true) ∧
    ∃ bound, Build.bind item.ref built after = .ok ((), bound) := by
  have accepted : (Pipeline.parse lateShadow).toOption.any (fun tree => tree.topLevel.toOption.any buildsSecond) =
      true := by
    decide +kernel
  simp only [any_toOption_iff, buildsSecond] at accepted
  obtain ⟨tree, parsed, phrases, top, globals, declares, builds⟩ := accepted
  split at builds
  · next first ref value span declared =>
    simp only [any_toOption_iff, Bool.and_eq_true] at builds
    obtain ⟨⟨u, annotated⟩, annotates, ⟨u', context⟩, fills, ⟨built, after⟩, run, isLiteral, apart⟩ := builds
    have reached : Build.Reached phrases ⟨ref, none, some value, span⟩ annotated context :=
      ⟨_, declared, 1, declares, rfl, annotates, fills⟩
    obtain ⟨agrees, binds, _⟩ := literal_signatures_agree reached rfl rfl run
    rw [apart] at agrees
    exact ⟨tree, phrases, _, annotated, context, value, built, after, parsed, top, reached, rfl, run,
      agrees isLiteral, binds apart⟩
  · cases builds

/-- A source with a parameter that has the name of a global, in the type of the next one. -/
def earlyShadow : String :=
  "T :: u64; f :: (T : u64, x : T) -> void \x7b \x7d;"

/-- Whether a tree is refused with an error. -/
def refusesWith (expected : BuildError) (tree : ParseTree) : Bool :=
  match build tree with
  | .error (.reported error) => decide (error = expected)
  | _ => false

/-- The function has no annotation, and is refused because its type is not the one read off it. -/
theorem shadowed_signature_refused : ∃ tree, Pipeline.parse earlyShadow = .ok tree ∧
    build tree = .error
      (.reported ⟨.mismatch "f" "(u64, T) -> void" "(u64, T) -> void", ⟨15, 43⟩⟩) := by
  have refused : (Pipeline.parse earlyShadow).toOption.any
      (refusesWith ⟨.mismatch "f" "(u64, T) -> void" "(u64, T) -> void", ⟨15, 43⟩⟩) = true := by
    decide +kernel
  obtain ⟨tree, parsed, refuses⟩ := any_toOption_iff.mp refused
  unfold refusesWith at refuses
  split at refuses
  · next error failed => exact ⟨tree, parsed, failed.trans (by rw [of_decide_eq_true refuses])⟩
  · cases refuses

end Rill

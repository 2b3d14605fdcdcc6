import Mathlib
import Rill.Proofs.Build.Lexical

/-!
# What the names of globals mean

A source may declare a global several times. All globals are declared before the first value is built, so
a name that means a global means the latest one of that name, wherever it stands (`Build.newest_resolve`).

* A value that reads or calls a global reads or calls the latest of its name, and so do the calls in a
  function that a global holds (`Build.resolved_buildValue`).
* A function literal makes a function of its own, so no two globals hold the same one.

`buildPhrases_namesLatest` says both of every program that was built.
-/

namespace Rill

namespace Build

open BuildContext (Leaves)

variable {names : List String} {context after : BuildContext} {ref : VarRef} {value : Term}

/-! ## Looking up -/

/-- If the place is one of a global, then it is that of the latest global with its name. -/
def Newest (names : List String) (ref : VarRef) : Prop :=
  ref.table = 0 → ∃ name, names[ref.index]? = some name ∧
    ∀ j, ref.index < j → names[j]? ≠ some name

/-- The globals of the context have the given names. -/
def Named (names : List String) (context : BuildContext) : Prop :=
  ∃ vars : VariableTable, context.program.tables[0]? = some vars ∧ vars.toList.map Variable.name = names

theorem Named.leaves {grown : TableId → Prop} (named : Named names context)
    (leaves : Leaves grown context after) (fixed : ¬ grown 0) : Named names after := by
  obtain ⟨vars, tableAt, isNames⟩ := named
  exact ⟨vars, leaves.tables 0 vars tableAt fixed, isNames⟩

/-- A name that is found in a chain is found in the table that it leads to. -/
theorem lookup?_in_table {program : Program} {name : String} {chain : ScopeChain}
    (found : ScopeChain.lookup? program name chain = .ok (some ref)) :
    ∃ vars, program.tables[ref.table]? = some vars ∧ VariableTable.lookup? vars name = some ref.index := by
  induction chain with
  | nil => cases found
  | cons id outer ih =>
      rw [ScopeChain.lookup?] at found
      cases table : program.table id with
      | error fault => simp [table, Bind.bind, Except.bind] at found
      | ok vars =>
          simp only [table, Bind.bind, Except.bind] at found
          cases inTable : vars.lookup? name with
          | some index =>
              rw [inTable] at found
              cases found
              exact ⟨vars, fetch_eq_ok_iff.mp table, inTable⟩
          | none =>
              rw [inTable] at found
              exact ih found

theorem newest_of_lookup? {vars : VariableTable} {name : String} {index : Nat}
    (found : vars.lookup? name = some index) :
    ∃ name, (vars.toList.map Variable.name)[index]? = some name ∧
      ∀ j, index < j → (vars.toList.map Variable.name)[j]? ≠ some name := by
  obtain ⟨⟨var, varAt, isNamed⟩, later⟩ := lastIndex?_eq_some_iff.mp found
  refine ⟨name, ?_, fun j behind again => ?_⟩
  · rw [List.getElem?_map, varAt]
    exact congrArg some (by simpa using isNamed)
  · rw [List.getElem?_map, Option.map_eq_some_iff] at again
    obtain ⟨other, otherAt, rfl⟩ := again
    simpa using later j other behind otherAt

theorem lookup?_of_newest {vars : VariableTable} {name : String} {index : Nat}
    (nameAt : (vars.toList.map Variable.name)[index]? = some name)
    (later : ∀ j, index < j → (vars.toList.map Variable.name)[j]? ≠ some name) :
    vars.lookup? name = some index := by
  rw [List.getElem?_map, Option.map_eq_some_iff] at nameAt
  obtain ⟨var, varAt, isNamed⟩ := nameAt
  refine lastIndex?_eq_some_iff.mpr ⟨⟨var, varAt, by simpa using isNamed⟩, fun j other behind otherAt => ?_⟩
  rw [beq_eq_false_iff_ne]
  rintro rfl
  exact later j behind (by rw [List.getElem?_map, otherAt, Option.map_some])

theorem newest_resolve {name : String} {span : Span} (named : Named names context)
    (run : resolve name span context = .ok (ref, after)) : Newest names ref := by
  intro isGlobal
  obtain ⟨vars, tableAt, rfl⟩ := named
  obtain ⟨_, _, got, run⟩ := bind_eq_ok_iff.mp run
  cases got
  obtain ⟨answer, middle, asked, run⟩ := bind_eq_ok_iff.mp run
  cases looked : ScopeChain.lookup? context.program name context.scope with
  | error fault =>
      rw [looked] at asked
      cases asked
  | ok found =>
      rw [looked] at asked
      cases asked
      cases answer with
      | none => cases run
      | some ref' =>
          cases run
          obtain ⟨vars', tableAt', inTable⟩ := lookup?_in_table looked
          rw [isGlobal, tableAt] at tableAt'
          cases tableAt'
          exact newest_of_lookup? inTable

/-! ## Values -/

/-- A call in place of the term calls a variable, the latest one if it is a global. -/
def Calls (names : List String) (term : Term) : Prop :=
  ∀ callee params, term.shape = .call callee params →
    ∃ ref, callee.shape = .variable ref ∧ Newest names ref

theorem Calls.of_other (noCall : ∀ callee params, value.shape ≠ .call callee params) : Calls names value :=
  fun callee params isCall => absurd isCall (noCall callee params)

/-- A function literal adds its function behind those that are there. Its statements are built in a
table of their own. -/
theorem entered_of_function {span : Span} {params result : Phrase} {body : TableId → Build (List Term)}
    (run : buildFunction span params result body context = .ok (value, after)) :
    ∃ entered last f, Entered context entered ∧
      body (context.program.tables.size + 1) entered = .ok (f.body, last) ∧ after = closed last f ∧
      value.shape = .function last.program.functions.size := by
  obtain ⟨resultType, argTypes, declared, statements, last, _, argsRun, bodyRun, rfl, rfl⟩ :=
    buildFunction_eq_ok run
  exact ⟨_, last, ⟨span, _, resultType, _, statements⟩,
    entered_of_arguments (resultType :: declared.results) argsRun, bodyRun, rfl, rfl⟩

theorem newest_of_variable {phrase : Phrase} (named : Named names context)
    (run : buildValue phrase context = .ok (value, after)) (isVariable : value.shape = .variable ref) :
    Newest names ref := by
  cases ValueRun.of_ok run with
  | ident resolved _ =>
      cases isVariable
      exact newest_resolve named resolved
  | type noName typeRun => exact absurd isVariable (typeRun.shape_ne noName ref)
  | function function =>
      obtain ⟨_, _, _, _, _, _, shape⟩ := entered_of_function function
      cases shape.symm.trans isVariable
  | call call =>
      obtain ⟨_, _, _, _, _, _, _, rfl, _⟩ := buildCall_eq_ok call
      cases isVariable
  | int | sum => cases isVariable

/-! ## Statements -/

theorem calls_buildCall {span : Span} {callee args : Phrase} {call : Term} (named : Named names context)
    (run : buildCall span args (buildValue callee) context = .ok (call, after)) : Calls names call := by
  obtain ⟨_, calleeTerm, middle, ref, _, built, isVariable, rfl, _⟩ := buildCall_eq_ok run
  rintro _ _ ⟨⟩
  exact ⟨ref, isVariable, newest_of_variable named built isVariable⟩

theorem calls_buildLocal {locals : TableId} {name : String} {nameSpan span : Span}
    {type? statement? : Option Term}
    (run : buildLocal locals name nameSpan span type? value context = .ok (statement?, after)) :
    ∀ statement ∈ statement?, Calls names statement := by
  obtain ⟨_, _, _, _, rfl⟩ := buildLocal_eq_ok run
  split
  · nofun
  · rintro _ ⟨⟩
    exact .of_other nofun

theorem calls_buildStatement {locals : TableId} {phrase : Phrase} {statement? : Option Term}
    (named : Named names context)
    (run : buildStatement locals phrase context = .ok (statement?, after)) :
    ∀ statement ∈ statement?, Calls names statement := by
  cases StatementRun.of_ok run with
  | binding _ _ localRun => exact calls_buildLocal localRun
  | call callRun =>
      rintro _ ⟨⟩
      exact calls_buildCall named callRun
  | print | bareReturn | valueReturn | assign =>
      rintro _ ⟨⟩
      exact .of_other (by rintro _ _ ⟨⟩)

/-- Statements only add to the table of their locals, so the globals keep their names. -/
theorem calls_buildStatements {locals : TableId} {phrases : List Phrase} {body : List Term}
    (isLocal : locals ≠ 0) (named : Named names context)
    (run : buildStatements locals phrases context = .ok (body, after)) :
    ∀ statement ∈ body, Calls names statement := by
  induction phrases generalizing context body with
  | nil =>
      rw [buildStatements] at run
      cases run
      simp
  | cons phrase phrases ih =>
      obtain ⟨inner, _, first, middle, others, _, firstRun, restRun, rfl⟩ := buildStatements_eq_ok run
      have leaves := leaves_phrases.2.2.2 locals inner _ _ _ firstRun
      intro statement member
      rcases List.mem_append.mp member with isFirst | isOther
      · exact calls_buildStatement named firstRun statement (Option.mem_toList.mp isFirst)
      · exact ih (named.leaves leaves isLocal.symm) restRun statement isOther

theorem calls_buildBody {locals : TableId} {phrase : Phrase} {body : List Term} (isLocal : locals ≠ 0)
    (named : Named names context) (run : buildBody locals phrase context = .ok (body, after)) :
    ∀ statement ∈ body, Calls names statement := by
  obtain ⟨children, _, _, childrenRun⟩ := buildBody_eq_ok run
  exact calls_buildStatements isLocal named childrenRun

/-! ## The values of globals -/

/-- The value reads or calls no global but the latest of its name, and the same holds of the calls in
the function that it is. -/
structure Resolved (names : List String) (functions : Array Function) (value : Term) : Prop where
  reads : ∀ ref, value.shape = .variable ref → Newest names ref
  calls : Calls names value
  function : ∀ id, value.shape = .function id →
    ∃ f, functions[id]? = some f ∧ ∀ statement ∈ f.body, Calls names statement

theorem Resolved.mono {functions later : Array Function} (resolved : Resolved names functions value)
    (continues : Continues functions later) : Resolved names later value where
  reads := resolved.reads
  calls := resolved.calls
  function id isFunction := by
    obtain ⟨f, found, calls⟩ := resolved.function id isFunction
    exact ⟨f, continues id f found, calls⟩

/-- A value that was built is resolved, and a function that it is was not there before. -/
theorem resolved_buildValue {phrase : Phrase} (named : Named names context)
    (run : buildValue phrase context = .ok (value, after)) :
    Resolved names after.program.functions value ∧
      ∀ id, value.shape = .function id → context.program.functions[id]? = none := by
  have reads : ∀ ref, value.shape = .variable ref → Newest names ref :=
    fun ref => newest_of_variable named run
  cases ValueRun.of_ok run with
  | function function =>
      obtain ⟨entered, last, f, into, bodyRun, rfl, shape⟩ := entered_of_function function
      obtain ⟨vars, tableAt, isNames⟩ := named
      have inside : Named names entered := ⟨vars, into.old 0 vars tableAt, isNames⟩
      have leaves := leaves_phrases.2.1 _ _ _ _ _ bodyRun
      refine ⟨⟨reads, .of_other ?_, fun id isFunction => ?_⟩, fun id isFunction => ?_⟩
      · rw [shape]
        rintro _ _ ⟨⟩
      · cases shape.symm.trans isFunction
        exact ⟨f, function_closed last f, calls_buildBody (Nat.succ_ne_zero _) inside bodyRun⟩
      · cases shape.symm.trans isFunction
        cases old : context.program.functions[last.program.functions.size]? with
        | none => rfl
        | some g =>
            have found := leaves.functions _ g (into.functions ▸ old)
            exact absurd (Array.getElem?_eq_some_iff.mp found).1 (Nat.lt_irrefl _)
  | call call =>
      have calls := calls_buildCall named call
      obtain ⟨_, _, _, _, _, _, _, rfl, _⟩ := buildCall_eq_ok call
      exact ⟨⟨reads, calls, by rintro _ ⟨⟩⟩, by rintro _ ⟨⟩⟩
  | type _ typeRun =>
      cases typeRun <;> exact ⟨⟨reads, .of_other (by rintro _ _ ⟨⟩), by rintro _ ⟨⟩⟩, by rintro _ ⟨⟩⟩
  | int | ident | sum => exact ⟨⟨reads, .of_other (by rintro _ _ ⟨⟩), by rintro _ ⟨⟩⟩, by rintro _ ⟨⟩⟩

/-- The variable at the place holds the function. -/
def HoldsFunction (tables : Array VariableTable) (ref : VarRef) (id : FunctionId) : Prop :=
  ∃ var value, slotIn? tables ref = some var ∧ var.value? = some value ∧ value.shape = .function id

/-- The globals that have values: all of them are resolved, and none holds the function of another. -/
structure GlobalsResolved (names : List String) (context : BuildContext) : Prop where
  named : Named names context
  values : ∀ i var value, slotIn? context.program.tables ⟨0, i⟩ = some var → var.value? = some value →
    Resolved names context.program.functions value
  once : ∀ i j id, HoldsFunction context.program.tables ⟨0, i⟩ id →
    HoldsFunction context.program.tables ⟨0, j⟩ id → i = j

theorem GlobalsResolved.start {vars : List Variable} (empty : ∀ var ∈ vars, var.value? = none) :
    GlobalsResolved (vars.map Variable.name) (withGlobals vars) := by
  have noValue : ∀ i var value, slotIn? (withGlobals vars).program.tables ⟨0, i⟩ = some var →
      var.value? ≠ some value := by
    intro i var value found held
    obtain ⟨table, tableAt, varAt⟩ := slotIn?_eq_some_iff.mp found
    cases tableAt
    have varAt' : vars.toArray[i]? = some var := varAt
    cases (empty var (List.mem_toArray.mp (Array.mem_of_getElem? varAt'))).symm.trans held
  refine ⟨⟨vars.toArray, rfl, rfl⟩, fun i var value found held => ?_, fun i j id holds _ => ?_⟩
  · exact absurd held (noValue i var value found)
  · obtain ⟨var, value, found, held, _⟩ := holds
    exact absurd held (noValue i var value found)

theorem GlobalsResolved.fill {index : Nat} {binding : Global} {u : Unit}
    (resolved : GlobalsResolved names context)
    (run : Build.fill (binding.pending 0 index) context = .ok (u, after)) : GlobalsResolved names after := by
  obtain ⟨phrase, value, middle, var, _, valueRun, varAt, _, rfl⟩ := fill_eq_ok run
  have leaves := leaves_buildValue phrase _ _ _ valueRun
  obtain ⟨valueResolved, isNew⟩ := resolved_buildValue resolved.named valueRun
  obtain ⟨vars, tableAt, isNames⟩ := resolved.named
  -- The filled global has the new value, every other one what it had.
  have filledAt : slotIn? (middle.program.modifyVar ⟨0, index⟩ (filled value)).tables ⟨0, index⟩ =
      some (filled value var) := slotIn?_modifyVar_same varAt
  have others : ∀ i, i ≠ index → slotIn? (middle.program.modifyVar ⟨0, index⟩ (filled value)).tables ⟨0, i⟩ =
      slotIn? context.program.tables ⟨0, i⟩ := by
    intro i different
    rw [slotIn?_modifyVar_of_ne (by simpa using different)]
    simp only [slotIn?, tableAt, leaves.tables 0 vars tableAt id]
  have here : ∀ id, HoldsFunction (middle.program.modifyVar ⟨0, index⟩ (filled value)).tables ⟨0, index⟩ id →
      context.program.functions[id]? = none := by
    rintro id ⟨other, held, found, isHeld, isFunction⟩
    cases filledAt.symm.trans found
    cases isHeld
    exact isNew id isFunction
  have elsewhere : ∀ i id, i ≠ index →
      HoldsFunction (middle.program.modifyVar ⟨0, index⟩ (filled value)).tables ⟨0, i⟩ id →
      HoldsFunction context.program.tables ⟨0, i⟩ id ∧ context.program.functions[id]? ≠ none := by
    rintro i id different ⟨other, held, found, isHeld, isFunction⟩
    rw [others i different] at found
    obtain ⟨f, foundAt, _⟩ := (resolved.values i other held found isHeld).function id isFunction
    exact ⟨⟨other, held, found, isHeld, isFunction⟩, by simp [foundAt]⟩
  refine ⟨⟨vars.modify index (filled value), ?_, ?_⟩, fun i other held found isHeld => ?_,
    fun i j id holds holds' => ?_⟩
  · simp [Program.modifyVar, Array.getElem?_modify, leaves.tables 0 vars tableAt id]
  · rw [← isNames]
    refine List.ext_getElem? fun i => ?_
    simp only [List.getElem?_map, Array.getElem?_toList, Array.getElem?_modify]
    split
    · simp [Function.comp_def, filled]
    · rfl
  · by_cases same : i = index
    · subst same
      cases filledAt.symm.trans found
      cases isHeld
      exact valueResolved
    · rw [others i same] at found
      exact (resolved.values i other held found isHeld).mono leaves.functions
  · by_cases same : i = index <;> by_cases same' : j = index
    · rw [same, same']
    · exact absurd (here id (same ▸ holds)) (elsewhere j id same' holds').2
    · exact absurd (here id (same' ▸ holds')) (elsewhere i id same holds).2
    · exact resolved.once i j id (elsewhere i id same holds).1 (elsewhere j id same' holds').1

theorem GlobalsResolved.fills {index : Nat} {bindings : List Global} {u : Unit}
    (resolved : GlobalsResolved names context)
    (run : (Global.pendings 0 index bindings).forM Build.fill context = .ok (u, after)) :
    GlobalsResolved names after := by
  induction bindings generalizing index context with
  | nil =>
      cases run
      exact resolved
  | cons binding bindings ih =>
      obtain ⟨_, middle, first, rest⟩ := bind_eq_ok_iff.mp run
      exact ih (resolved.fill first) rest

end Build

/-! ## Programs -/

namespace Program

/-- The place is that of the latest global with some name. -/
def Latest (program : Program) (ref : VarRef) : Prop :=
  ∃ name, program.findGlobal? name = .ok (some ref)

/-- The globals of a program read and call the latest globals of the names in them, and no two hold the
same function. -/
structure NamesLatest (program : Program) : Prop where
  reads : ∀ value ref, program.GlobalValue value → value.shape = .variable ref → program.Latest ref
  calls : ∀ value callee params, program.GlobalValue value → value.shape = .call callee params →
    ∃ ref, callee.shape = .variable ref ∧ program.Latest ref
  statements : ∀ value id f, program.GlobalValue value → value.shape = .function id →
    program.functions[id]? = some f → ∀ statement ∈ f.body, ∀ callee params,
      statement.shape = .call callee params →
      ∃ ref, callee.shape = .variable ref ∧ (ref.table = program.globals → program.Latest ref)
  once : ∀ i j id, Build.HoldsFunction program.tables ⟨program.globals, i⟩ id →
    Build.HoldsFunction program.tables ⟨program.globals, j⟩ id → i = j

theorem findGlobal?_eq_some_iff {program : Program} {globals : VariableTable} {name : String}
    {ref : VarRef} (globalsAt : program.tables[program.globals]? = some globals) :
    program.findGlobal? name = .ok (some ref) ↔
      ref.table = program.globals ∧ globals.lookup? name = some ref.index := by
  have read : program.globalVars = .ok globals := fetch_eq_ok_iff.mpr globalsAt
  obtain ⟨table, index⟩ := ref
  rw [findGlobal?, read]
  change Except.ok ((globals.lookup? name).map fun found => (⟨program.globals, found⟩ : VarRef)) = _ ↔ _
  rw [Except.ok.injEq, Option.map_eq_some_iff]
  constructor
  · rintro ⟨found, isFound, same⟩
    cases same
    exact ⟨rfl, isFound⟩
  · rintro ⟨rfl, isFound⟩
    exact ⟨index, isFound, rfl⟩

/-- The latest global of some name is the latest of its own name. -/
theorem Latest.findGlobal? {program : Program} {globals : VariableTable} {ref : VarRef} {var : Variable}
    (globalsAt : program.tables[program.globals]? = some globals) (latest : program.Latest ref)
    (found : slotIn? program.tables ref = some var) :
    program.findGlobal? var.name = .ok (some ref) := by
  obtain ⟨name, isLatest⟩ := latest
  obtain ⟨isGlobal, inGlobals⟩ := (findGlobal?_eq_some_iff globalsAt).mp isLatest
  obtain ⟨⟨other, otherAt, named⟩, _⟩ := lastIndex?_eq_some_iff.mp inGlobals
  obtain ⟨table, tableAt, varAt⟩ := slotIn?_eq_some_iff.mp found
  rw [isGlobal, globalsAt] at tableAt
  cases tableAt
  rw [Array.getElem?_toList, varAt] at otherAt
  cases otherAt
  have sameName : var.name = name := by simpa using named
  rw [sameName, isLatest]

end Program

/-- In a program that was built, names of globals mean the latest ones. -/
theorem buildPhrases_namesLatest {phrases : List Phrase} {program : Program}
    (built : buildPhrases phrases = .ok program) : program.NamesLatest := by
  have lexical := buildPhrases_lexical built
  obtain ⟨bindings, types, after, _, _, fills, rfl⟩ := buildPhrases_stages built
  have globals := ((Build.FilledTo.start fun var => Build.typed_empty).fills fills).globals
  have resolved := (Build.GlobalsResolved.start fun var => Build.typed_empty).fills fills
  generalize (List.zipWith Global.typed bindings types).map Variable.name = names at resolved
  obtain ⟨vars, tableAt, rfl⟩ := resolved.named
  have globalsAt : after.program.tables[after.program.globals]? = some vars := globals ▸ tableAt
  have latest : ∀ ref : VarRef, ref.table = after.program.globals →
      Build.Newest (vars.toList.map Variable.name) ref → after.program.Latest ref := by
    intro ref isGlobal newest
    obtain ⟨name, nameAt, later⟩ := newest (isGlobal.trans globals)
    exact ⟨name, (Program.findGlobal?_eq_some_iff globalsAt).mpr
      ⟨isGlobal, Build.lookup?_of_newest nameAt later⟩⟩
  have isResolved : ∀ value, after.program.GlobalValue value →
      Build.Resolved (vars.toList.map Variable.name) after.program.functions value := by
    rintro value ⟨index, var, found, held⟩
    rw [globals] at found
    exact resolved.values index var value found held
  have isGlobal : ∀ value ref, after.program.GlobalValue value →
      value.Uses after.program.functions ref → ref.table = after.program.globals :=
    fun value ref isValue => lexical.values _ (.refl _) value isValue ref
  refine ⟨fun value ref isValue isVariable => ?_, fun value callee params isValue isCall => ?_,
    fun value id f isValue isFunction found statement member callee params isCall => ?_,
    fun i j id => ?_⟩
  · refine latest ref (isGlobal value ref isValue (Or.inl ⟨value, .here, ?_⟩))
      ((isResolved value isValue).reads ref isVariable)
    rw [isVariable]
    rfl
  · obtain ⟨ref, isVariable, newest⟩ := (isResolved value isValue).calls callee params isCall
    refine ⟨ref, isVariable, latest ref (isGlobal value ref isValue (Or.inl ⟨callee, ?_, ?_⟩)) newest⟩
    · refine .part ?_ .here
      rw [isCall]
      exact List.mem_cons_self
    · rw [isVariable]
      rfl
  · obtain ⟨f', found', calls⟩ := (isResolved value isValue).function id isFunction
    cases found.symm.trans found'
    obtain ⟨ref, isVariable, newest⟩ := calls statement member callee params isCall
    exact ⟨ref, isVariable, fun isGlobal => latest ref isGlobal newest⟩
  · rw [globals]
    exact resolved.once i j id

end Rill

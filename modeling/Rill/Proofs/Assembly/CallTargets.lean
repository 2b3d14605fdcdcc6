import Mathlib
import Rill.Proofs.Assembly.Preservation
import Rill.Proofs.Basic
import Rill.Proofs.Build.Resolution

/-!
# What a lowered call calls

A source may declare a global several times. A name then means the latest declaration, but its label
stands for the latest one that is a function literal. The two differ when a function is declared again
as something else, for instance as another name of a second function.

* The block of a lowered call is the lowering of the function that the callee evaluates to exactly if
  the called global itself holds a function (`calls_labelled_iff`).
* Without this the two can differ: `calls_shadowed_function`.

Evaluating a callee follows globals that are the latest of their names, and every function in reach is
held by one of them (`holder_of_evaluate`). A call on the way gives `void`, since the function that it
calls is lowered too.
-/

namespace Rill

namespace Assembly

/-! ## Lowered calls -/

/-- The block under the label of the name is the lowering of the function, which the name is labelled
with. -/
structure BlockOf (program : Program) (labels : Labels) (code : List Instr) (name : String)
    (id : FunctionId) : Prop where
  labelled : (name, id) ∈ labels
  block : ∃ f instrs pc, program.functions[id]? = some f ∧
    lowerStatements program labels f.body = .ok instrs ∧
    address? code (functionLabel name) = some pc ∧ CodeAt code (pc + 1) instrs

/-- Every labelled function can be lowered. -/
def HasBlocks (program : Program) (labels : Labels) : Prop :=
  ∀ name id, (name, id) ∈ labels → ∃ f instrs, program.functions[id]? = some f ∧
    lowerStatements program labels f.body = .ok instrs

/-- A labelled function calls the callee behind the statements `before`, and returns in none of them. -/
structure LoweredCall (program : Program) (labels : Labels) (f : Function) (before : List Term)
    (callee : Term) : Prop where
  caller : ∃ name id, (name, id) ∈ labels ∧ program.functions[id]? = some f
  statement : ∃ statement params rest, f.body = before ++ statement :: rest ∧
    statement.shape = .call callee params
  reached : ∀ earlier ∈ before, earlier.shape ≠ .returnWith none

/-- In the program as built, the term evaluates to the function. -/
def Yields (program : Program) (output : String) (term : Term) (id : FunctionId) : Prop :=
  ∃ fuel value after, Eval.evaluate program.functions fuel term ⟨program.tables, output⟩ = .ok value after ∧
    value.shape = .function id

section Lowered

variable {program : Program} {labels : Labels} {globals : VariableTable}

/-- Statements that do not return are lowered in front of what follows them. -/
theorem lowerStatements_append {before rest : List Term}
    (reached : ∀ earlier ∈ before, earlier.shape ≠ .returnWith none) :
    ∀ {instrs : List Instr}, lowerStatements program labels (before ++ rest) = .ok instrs →
      ∃ early later, lowerStatements program labels before = .ok (early ++ [.ret]) ∧
        lowerStatements program labels rest = .ok later ∧ instrs = early ++ later := by
  induction before with
  | nil => exact fun {instrs} lowered => ⟨[], instrs, rfl, lowered, rfl⟩
  | cons statement before ih =>
      intro instrs lowered
      have later := fun earlier member => reached earlier (List.mem_cons_of_mem statement member)
      rcases lowerStatements_cons lowered with
        ⟨operand, value, tail, isPrint, isInt, tailEq, rfl⟩ |
        ⟨callee, params, target, tail, isCall, called, tailEq, rfl⟩ | ⟨isReturn, _⟩
      · obtain ⟨early, rest', earlyEq, restEq, rfl⟩ := ih later tailEq
        refine ⟨.moveRdi value :: .call printRoutine :: early, rest', ?_, restEq, rfl⟩
        rw [lowerStatements, isPrint]
        simp only [isInt, earlyEq]
        rfl
      · obtain ⟨early, rest', earlyEq, restEq, rfl⟩ := ih later tailEq
        refine ⟨.call target :: early, rest', ?_, restEq, rfl⟩
        rw [lowerStatements, isCall]
        simp only [called, earlyEq]
        rfl
      · exact absurd isReturn (reached statement List.mem_cons_self)

/-- Lowered statements return nothing but `void`, whatever their calls do. -/
theorem void_of_runStatements {body : List Term} {fuel : Nat} :
    ∀ {instrs : List Instr} {store after : Store} {returned : Option Term},
      lowerStatements program labels body = .ok instrs →
      Eval.runStatements (Eval.evaluate program.functions fuel) body store = .ok returned after →
      ∀ value ∈ returned, ∃ span, value = .voidAt span := by
  induction body with
  | nil =>
      intro instrs store after returned _ ran
      cases ran
      simp
  | cons statement rest ih =>
      intro instrs store after returned lowered ran
      rcases lowerStatements_cons lowered with
        ⟨operand, value, later, isPrint, isInt, laterEq, _⟩ | ⟨_, _, _, later, isCall, _, laterEq, _⟩ |
        ⟨isReturn, _⟩
      · match fuel with
        | 0 =>
            rw [Eval.runStatements, isPrint, Eval.bind_eq_ok] at ran
            obtain ⟨_, _, noFuel, _⟩ := ran
            cases noFuel
        | fuel + 1 =>
            rw [runStatements_print isPrint isInt] at ran
            exact ih laterEq ran
      · rw [runStatements_call isCall, Eval.bind_eq_ok] at ran
        obtain ⟨_, _, _, ran⟩ := ran
        exact ih laterEq ran
      · rw [runStatements_bareReturn isReturn] at ran
        cases ran
        simp

theorem void_of_callWith {id : FunctionId} {f : Function} {instrs : List Instr} {fuel : Nat}
    {store after : Store} {value : Term} (functionAt : program.functions[id]? = some f)
    (lowered : lowerStatements program labels f.body = .ok instrs)
    (called : Eval.callWith (Eval.evaluate program.functions fuel) program.functions id store =
      .ok value after) : ∃ span, value = .voidAt span := by
  rw [Eval.callWith, fetch_eq_ok_iff.mpr functionAt] at called
  obtain ⟨_, _, got, called⟩ := Eval.bind_eq_ok.mp called
  cases got
  obtain ⟨returned, middle, ran, ended⟩ := Eval.bind_eq_ok.mp called
  cases returned with
  | none =>
      cases ended
      exact ⟨f.span, rfl⟩
  | some result =>
      cases ended
      exact void_of_runStatements lowered ran value rfl

end Lowered

/-! ## Evaluating a callee -/

section Callees

variable {program : Program} {globals : VariableTable}

/-- The latest global of a name labels the name, if it holds a function. -/
theorem functionNamed?_of_lookup? {name : String} {index : Nat} {var : Variable} {id : FunctionId}
    (latest : globals.lookup? name = some index) (varAt : globals[index]? = some var)
    (function : var.function? = some id) : functionNamed? globals name = some id := by
  obtain ⟨⟨other, otherAt, named⟩, later⟩ := lastIndex?_eq_some_iff.mp latest
  rw [Array.getElem?_toList, varAt] at otherAt
  cases otherAt
  rw [← Array.getElem?_toList] at varAt
  obtain ⟨inBounds, isVar⟩ := List.getElem?_eq_some_iff.mp varAt
  have parts : globals.toList = globals.toList.take index ++ var :: globals.toList.drop (index + 1) := by
    rw [← isVar, ← List.drop_eq_getElem_cons, List.take_append_drop]
  unfold functionNamed?
  rw [parts, List.reverse_append, List.reverse_cons, List.append_assoc]
  have noneLater : (globals.toList.drop (index + 1)).reverse.findSome?
      (fun var => if var.name == name then var.function? else none) = none := by
    refine List.findSome?_eq_none_iff.mpr fun other member => ?_
    obtain ⟨j, otherAt⟩ := List.mem_iff_getElem?.mp (List.mem_reverse.mp member)
    rw [List.getElem?_drop] at otherAt
    rw [later _ other (by omega) otherAt]
    rfl
  rw [List.findSome?_append, noneLater, Option.none_or, List.singleton_append, List.findSome?_cons,
    if_pos named, function]

/-- A function that the latest global of a name holds is labelled with the name. -/
theorem labelled_of_latest {ref : VarRef} {var : Variable} {id : FunctionId}
    (globalsAt : program.tables[program.globals]? = some globals) (latest : program.Latest ref)
    (found : slotIn? program.tables ref = some var) (function : var.function? = some id) :
    (var.name, id) ∈ Labels.ofGlobals globals := by
  obtain ⟨isGlobal, inGlobals⟩ :=
    (Program.findGlobal?_eq_some_iff globalsAt).mp (latest.findGlobal? globalsAt found)
  obtain ⟨table, tableAt, varAt⟩ := slotIn?_eq_some_iff.mp found
  rw [isGlobal, globalsAt] at tableAt
  cases tableAt
  exact Labels.mem_ofGlobals.mpr (functionNamed?_of_lookup? inGlobals varAt function)

/-- The term reads and calls no variable but the latest global of a name. -/
structure MeansLatest (program : Program) (term : Term) : Prop where
  reads : ∀ ref, term.shape = .variable ref → program.Latest ref
  calls : ∀ callee params, term.shape = .call callee params →
    ∃ ref, callee.shape = .variable ref ∧ program.Latest ref

theorem MeansLatest.of_variable {term : Term} {ref : VarRef} (isVariable : term.shape = .variable ref)
    (latest : program.Latest ref) : MeansLatest program term where
  reads other isOther := by
    cases isVariable.symm.trans isOther
    exact latest
  calls callee params isCall := by cases isVariable.symm.trans isCall

/-- How a term evaluates to a function: it is the function, a variable whose value evaluates to it, or a
call that returns it. -/
theorem evaluate_eq_function {functions : Array Function} {fuel : Nat} {term value : Term}
    {store after : Store} {id : FunctionId}
    (evaluated : Eval.evaluate functions (fuel + 1) term store = .ok value after)
    (isFunction : value.shape = .function id) :
    term.shape = .function id ∨
    (∃ ref var held, term.shape = .variable ref ∧ slotIn? store.tables ref = some var ∧
      var.value? = some held ∧ Eval.evaluate functions fuel held store = .ok value after) ∨
    (∃ callee found called middle, term.shape = .call callee [] ∧
      Eval.evaluate functions fuel callee store = .ok found middle ∧ found.shape = .function called ∧
      Eval.callWith (Eval.evaluate functions fuel) functions called middle = .ok value after) := by
  match shape : term.shape with
  | .int _ =>
      rw [Eval.evaluate, shape] at evaluated
      cases evaluated
      cases shape.symm.trans isFunction
  | .function held =>
      rw [Eval.evaluate, shape] at evaluated
      cases evaluated
      exact Or.inl (shape.symm.trans isFunction)
  | .variable ref =>
      rw [Eval.evaluate, shape, Eval.bind_eq_ok] at evaluated
      obtain ⟨var, _, read, evaluated⟩ := evaluated
      obtain ⟨found, rfl⟩ := Eval.readVar_eq_ok.mp read
      cases holds : var.value? with
      | none =>
          rw [holds] at evaluated
          cases evaluated
      | some held =>
          rw [holds] at evaluated
          exact Or.inr (Or.inl ⟨ref, var, held, rfl, found, holds, evaluated⟩)
  | .call callee [] =>
      rw [Eval.evaluate, shape, Eval.bind_eq_ok] at evaluated
      obtain ⟨found, middle, calleeEq, evaluated⟩ := evaluated
      cases foundShape : found.shape with
      | function called =>
          rw [foundShape] at evaluated
          exact Or.inr (Or.inr ⟨callee, found, called, middle, rfl, calleeEq, foundShape, evaluated⟩)
      | _ =>
          rw [foundShape] at evaluated
          cases evaluated
  | .sum left right =>
      rw [Eval.evaluate, shape, Eval.bind_eq_ok] at evaluated
      obtain ⟨a, _, _, evaluated⟩ := evaluated
      obtain ⟨b, _, _, evaluated⟩ := Eval.bind_eq_ok.mp evaluated
      cases leftShape : a.shape with
      | int _ =>
          cases rightShape : b.shape with
          | int _ =>
              rw [leftShape, rightShape] at evaluated
              cases evaluated
              cases isFunction
          | _ =>
              rw [leftShape, rightShape] at evaluated
              cases evaluated
      | _ =>
          rw [leftShape] at evaluated
          cases evaluated
  | .call _ (_ :: _) | .void | .u64 | .functionType .. | .printU64 _ | .assign .. | .define ..
  | .returnWith _ =>
      rw [Eval.evaluate, shape] at evaluated
      cases evaluated

/-- A function that a term evaluates to is the term itself, or the latest global of some name holds it. -/
theorem holder_of_evaluate (names : program.NamesLatest)
    (globalsAt : program.tables[program.globals]? = some globals)
    (blocks : HasBlocks program (Labels.ofGlobals globals))
    (fuel : Nat) : ∀ (term : Term) (output : String) (value : Term) (after : Store) (id : FunctionId),
      MeansLatest program term →
      Eval.evaluate program.functions fuel term ⟨program.tables, output⟩ = .ok value after →
      value.shape = .function id →
      term.shape = .function id ∨ ∃ ref var, program.Latest ref ∧
        slotIn? program.tables ref = some var ∧ var.function? = some id := by
  induction fuel with
  | zero =>
      intro term output value after id _ evaluated _
      cases evaluated
  | succ fuel ih =>
      intro term output value after id means evaluated isFunction
      rcases evaluate_eq_function evaluated isFunction with
        here | ⟨ref, var, held, isVariable, found, holds, heldEq⟩ |
        ⟨callee, calledTerm, called, middle, isCall, calleeEq, isCalled, returned⟩
      · exact Or.inl here
      · have latest := means.reads ref isVariable
        have isValue : program.GlobalValue held := by
          obtain ⟨name, isLatest⟩ := latest
          obtain ⟨isGlobal, _⟩ := (Program.findGlobal?_eq_some_iff globalsAt).mp isLatest
          exact ⟨ref.index, var, isGlobal ▸ found, holds⟩
        have heldMeans : MeansLatest program held :=
          ⟨fun ref => names.reads held ref isValue, fun callee params =>
            names.calls held callee params isValue⟩
        rcases ih held output value after id heldMeans heldEq isFunction with here | there
        · exact Or.inr ⟨ref, var, latest, found, function?_eq_some_iff.mpr ⟨held, holds, here⟩⟩
        · exact Or.inr there
      · -- The called function is labelled, so it is lowered, and gives no function.
        obtain ⟨ref, isVariable, latest⟩ := means.calls callee [] isCall
        rcases ih callee output calledTerm middle called (.of_variable isVariable latest) calleeEq
          isCalled with here | ⟨holder, var, isLatest, found, function⟩
        · cases isVariable.symm.trans here
        · obtain ⟨f, instrs, functionAt, lowered⟩ :=
            blocks _ _ (labelled_of_latest globalsAt isLatest found function)
          obtain ⟨span, rfl⟩ := void_of_callWith functionAt lowered returned
          cases isFunction

end Callees

/-! ## Whole programs -/

section Programs

variable {program : Program} {globals : VariableTable} {code : List Instr}

theorem blockOf_generate {name : String} {id : FunctionId} (globalsAt : program.globalVars = .ok globals)
    (lowered : generate program = .ok code) (labelled : (name, id) ∈ Labels.ofGlobals globals) :
    BlockOf program (Labels.ofGlobals globals) code name id := by
  obtain ⟨globals', blocks, globalsAt', _, blocksEq, rfl⟩ := generate_eq lowered
  cases (fetch_eq_ok_iff.mp globalsAt).symm.trans globalsAt'
  exact ⟨labelled, blocks_at (Labels.nodup_ofGlobals globals) blocksEq labelled⟩

theorem hasBlocks_of_generate (globalsAt : program.globalVars = .ok globals)
    (lowered : generate program = .ok code) : HasBlocks program (Labels.ofGlobals globals) := by
  intro name id labelled
  obtain ⟨f, instrs, _, functionAt, body, _⟩ := (blockOf_generate globalsAt lowered labelled).block
  exact ⟨f, instrs, functionAt, body⟩

/-- A function is held by a global of the name that it is labelled with. -/
theorem holder_of_labelled {name : String} {id : FunctionId}
    (globalsAt : program.tables[program.globals]? = some globals)
    (labelled : (name, id) ∈ Labels.ofGlobals globals) :
    ∃ index var, slotIn? program.tables ⟨program.globals, index⟩ = some var ∧ var.name = name ∧
      var.function? = some id := by
  obtain ⟨var, member, named, function⟩ := holder_of_functionNamed? (Labels.mem_ofGlobals.mp labelled)
  obtain ⟨index, varAt⟩ := List.mem_iff_getElem?.mp member
  rw [Array.getElem?_toList] at varAt
  exact ⟨index, var, slotIn?_eq_some_iff.mpr ⟨globals, globalsAt, varAt⟩, named, function⟩

/-- A variable that holds a function yields this function only. -/
theorem yields_iff_of_function {callee : Term} {ref : VarRef} {var : Variable} {id other : FunctionId}
    {output : String} (isVariable : callee.shape = .variable ref)
    (found : slotIn? program.tables ref = some var) (function : var.function? = some id) :
    Yields program output callee other ↔ other = id := by
  obtain ⟨held, holds, shape⟩ := function?_eq_some_iff.mp function
  constructor
  · rintro ⟨fuel, value, after, evaluated, isFunction⟩
    cases fuel with
    | zero => cases evaluated
    | succ fuel =>
        rcases evaluate_eq_function evaluated isFunction with
          here | ⟨ref', var', held', isVariable', found', holds', heldEq⟩ | ⟨_, _, _, _, isCall, _⟩
        · cases isVariable.symm.trans here
        · cases isVariable.symm.trans isVariable'
          cases found.symm.trans found'
          cases holds.symm.trans holds'
          cases fuel with
          | zero => cases heldEq
          | succ fuel =>
              rcases evaluate_eq_function heldEq isFunction with
                here | ⟨_, _, _, isVariable', _⟩ | ⟨_, _, _, _, isCall, _⟩
              · cases shape.symm.trans here
                rfl
              · cases shape.symm.trans isVariable'
              · cases shape.symm.trans isCall
        · cases isVariable.symm.trans isCall
  · rintro rfl
    have inStore : slotIn? (Store.mk program.tables output).tables ref = some var := found
    obtain ⟨value, isFunction, evaluated⟩ :=
      evaluate_callee isVariable inStore function program.functions 0
    exact ⟨2, value, _, evaluated, isFunction⟩

/-- If a labelled function is held by the latest global of some name, then this is the latest global of
the labelled name. -/
theorem function?_of_labelled {ref ref' : VarRef} {var var' : Variable} {id : FunctionId}
    (names : program.NamesLatest) (globalsAt : program.tables[program.globals]? = some globals)
    (labelled : (var.name, id) ∈ Labels.ofGlobals globals)
    (isLatest : program.findGlobal? var.name = .ok (some ref))
    (found : slotIn? program.tables ref = some var) (latest' : program.Latest ref')
    (found' : slotIn? program.tables ref' = some var') (function' : var'.function? = some id) :
    var.function? = some id := by
  have isLatest' := latest'.findGlobal? globalsAt found'
  have isGlobal' := ((Program.findGlobal?_eq_some_iff globalsAt).mp isLatest').1
  obtain ⟨table, index'⟩ := ref'
  cases isGlobal'
  obtain ⟨index, holder, holderAt, named, function⟩ := holder_of_labelled globalsAt labelled
  -- No two globals hold the same function, so the one found has the labelled name.
  obtain ⟨held, holds, shape⟩ := function?_eq_some_iff.mp function
  obtain ⟨held', holds', shape'⟩ := function?_eq_some_iff.mp function'
  cases names.once index index' id ⟨holder, held, holderAt, holds, shape⟩
    ⟨var', held', found', holds', shape'⟩
  cases holderAt.symm.trans found'
  rw [named, isLatest] at isLatest'
  cases isLatest'
  cases found.symm.trans holderAt
  exact function

/-- The callee of a lowered call is the latest global of its name, and the call is lowered to a call of
this name's label. -/
theorem LoweredCall.target {f : Function} {before : List Term} {callee : Term}
    (names : program.NamesLatest) (globalsAt : program.tables[program.globals]? = some globals)
    (blocks : HasBlocks program (Labels.ofGlobals globals))
    (call : LoweredCall program (Labels.ofGlobals globals) f before callee) :
    ∃ ref var id early later, callee.shape = .variable ref ∧ slotIn? program.tables ref = some var ∧
      program.Latest ref ∧ (var.name, id) ∈ Labels.ofGlobals globals ∧
      lowerStatements program (Labels.ofGlobals globals) before = .ok (early ++ [.ret]) ∧
      lowerStatements program (Labels.ofGlobals globals) f.body =
        .ok (early ++ .call (functionLabel var.name) :: later) := by
  obtain ⟨⟨name, caller, labelled, functionAt⟩, ⟨statement, params, rest, body, isCall⟩, reached⟩ := call
  obtain ⟨f', instrs, functionAt', lowered⟩ := blocks name caller labelled
  cases functionAt.symm.trans functionAt'
  rw [body] at lowered ⊢
  obtain ⟨early, tail, earlyEq, tailEq, rfl⟩ := lowerStatements_append reached lowered
  rcases lowerStatements_cons tailEq with
    ⟨_, _, _, isPrint, _⟩ | ⟨callee', params', target, later, isCall', called, _, rfl⟩ | ⟨isReturn, _⟩
  · cases isCall.symm.trans isPrint
  · cases isCall.symm.trans isCall'
    obtain ⟨ref, var, isVariable, isGlobal, found, hasLabel, rfl⟩ := callTarget_eq_ok called
    obtain ⟨id, isLabelled⟩ := Labels.contains_iff.mp hasLabel
    obtain ⟨index, holder, holderAt, _, function⟩ := holder_of_labelled globalsAt labelled
    obtain ⟨held, holds, isFunction⟩ := function?_eq_some_iff.mp function
    have inBody : statement ∈ f.body := by simp [body]
    obtain ⟨ref', isVariable', latest⟩ := names.statements held caller f ⟨index, holder, holderAt, holds⟩
      isFunction functionAt statement inBody callee params isCall
    cases isVariable.symm.trans isVariable'
    exact ⟨ref, var, id, early, later, isVariable, found, latest isGlobal, isLabelled, earlyEq, lowered⟩
  · cases isCall.symm.trans isReturn

end Programs

/-- A lowered call goes to the block of the latest function that has the name of the called global. The
callee evaluates to this function if the called global itself holds a function. Otherwise it evaluates to
another function, or to none. -/
theorem calls_labelled_iff {source : String} {program : Program} {globals : VariableTable}
    {code : List Instr} {f : Function} {before : List Term} {callee : Term}
    (checked : Pipeline.check source = .ok program) (globalsAt : program.globalVars = .ok globals)
    (lowered : generate program = .ok code)
    (call : LoweredCall program (Labels.ofGlobals globals) f before callee) :
    ∃ ref var id, callee.shape = .variable ref ∧ program.var ref = .ok var ∧
      program.findGlobal? var.name = .ok (some ref) ∧
      (∃ early later, lowerStatements program (Labels.ofGlobals globals) before = .ok (early ++ [.ret]) ∧
        lowerStatements program (Labels.ofGlobals globals) f.body =
          .ok (early ++ .call (functionLabel var.name) :: later)) ∧
      BlockOf program (Labels.ofGlobals globals) code var.name id ∧
      (var.function?.isSome → ∀ output, Yields program output callee id) ∧
      ∀ output other, Yields program output callee other → (other = id ↔ var.function?.isSome) := by
  obtain ⟨phrases, built⟩ := check_built checked
  have names := buildPhrases_namesLatest built
  have tableAt := fetch_eq_ok_iff.mp globalsAt
  have blocks := hasBlocks_of_generate globalsAt lowered
  obtain ⟨ref, var, id, early, later, isVariable, found, latest, labelled, earlyEq, bodyEq⟩ :=
    call.target names tableAt blocks
  have isLatest := latest.findGlobal? tableAt found
  -- The label of a global that holds a function is the label of this function.
  have held : ∀ g, var.function? = some g → g = id := by
    intro g function
    have labelledG := Labels.mem_ofGlobals.mp (labelled_of_latest tableAt latest found function)
    exact Option.some.inj (labelledG.symm.trans (Labels.mem_ofGlobals.mp labelled))
  refine ⟨ref, var, id, isVariable, Program.var_eq_ok_iff.mpr found, isLatest, ⟨early, later, earlyEq,
    bodyEq⟩, blockOf_generate globalsAt lowered labelled, fun holds output => ?_,
    fun output other yields => ⟨?_, fun holds => ?_⟩⟩
  · obtain ⟨g, function⟩ := Option.isSome_iff_exists.mp holds
    exact (yields_iff_of_function isVariable found function).mpr (held g function).symm
  · rintro rfl
    obtain ⟨fuel, value, after, evaluated, isFunction⟩ := yields
    rcases holder_of_evaluate names tableAt blocks fuel callee output value after other
      (.of_variable isVariable latest) evaluated isFunction with
      here | ⟨ref', var', latest', found', function'⟩
    · cases isVariable.symm.trans here
    · rw [function?_of_labelled names tableAt labelled isLatest found latest' found' function']
      rfl
  · obtain ⟨g, function⟩ := Option.isSome_iff_exists.mp holds
    exact ((yields_iff_of_function isVariable found function).mp yields).trans (held g function)

/-- A source that declares a function again, behind a call of it. -/
def redeclared : String :=
  "f :: () -> void \x7b print_u64 1; \x7d;
   main :: () -> void \x7b print_u64 0; f(); \x7d;
   f :: () -> void \x7b print_u64 2; \x7d;"

/-- Whether the program is lowered, `main` is its second function and calls, behind a print, a global `f`
that holds a function, and the third function is the latest one of that name. -/
def callsThird (program : Program) : Bool :=
  program.globalVars.toOption.any fun globals => (generate program).toOption.any fun _ =>
    (program.function 1).toOption.any fun f =>
      match f.body with
      | [⟨.printU64 _, _, _⟩, ⟨.call ⟨.variable ref, _, _⟩ _, _, _⟩] =>
          (program.var ref).toOption.any fun var => decide (("main", 1) ∈ Labels.ofGlobals globals ∧
            functionNamed? globals "f" = some 2 ∧ var.name = "f" ∧ var.function?.isSome)
      | _ => false

/-- The call goes to the block of the second declaration, and its callee evaluates to nothing else. -/
theorem calls_labelled_redeclared : ∃ program globals code f before callee,
    Pipeline.check redeclared = .ok program ∧ program.globalVars = .ok globals ∧
    generate program = .ok code ∧ LoweredCall program (Labels.ofGlobals globals) f before callee ∧
    BlockOf program (Labels.ofGlobals globals) code "f" 2 ∧
    ∀ output other, Yields program output callee other ↔ other = 2 := by
  have accepted : (Pipeline.check redeclared).toOption.any callsThird = true := by decide +kernel
  simp only [any_toOption_iff, callsThird] at accepted
  obtain ⟨program, checked, globals, globalsAt, code, lowered, f, functionAt, calls⟩ := accepted
  split at calls
  · next operand type? span ref type?' span' params type?'' span'' body =>
    obtain ⟨var, found, passes⟩ := any_toOption_iff.mp calls
    obtain ⟨labelled, latest, named, isFunction⟩ := of_decide_eq_true passes
    have call : LoweredCall program (Labels.ofGlobals globals) f [⟨.printU64 operand, type?, span⟩]
        ⟨.variable ref, type?', span'⟩ :=
      ⟨⟨_, _, labelled, fetch_eq_ok_iff.mp functionAt⟩, ⟨_, params, [], body, rfl⟩, by simp⟩
    obtain ⟨ref', var', id, isVariable, found', _, _, block, holds, exactly⟩ :=
      calls_labelled_iff checked globalsAt lowered call
    cases isVariable
    cases found.symm.trans found'
    rw [named] at block
    have isTwo : id = 2 := Option.some.inj ((Labels.mem_ofGlobals.mp block.labelled).symm.trans latest)
    subst isTwo
    exact ⟨program, globals, code, f, _, _, checked, globalsAt, lowered, call, block,
      fun output other => ⟨fun yields => (exactly output other yields).mpr isFunction,
        fun same => same ▸ holds isFunction output⟩⟩
  · cases calls

/-! ## Shadowed functions -/

/-- A source that declares a function again, as another name of a second function. -/
def shadowed : String :=
  "f :: () -> void \x7b print_u64 1; \x7d; h :: () -> void \x7b print_u64 2; \x7d; " ++
    "f :: h; main :: () -> void \x7b f(); \x7d;"

/-- The function that a term is. -/
def functionOf? (term : Term) : Option FunctionId :=
  match term.shape with
  | .function id => some id
  | _ => none

theorem functionOf?_eq_some_iff {term : Term} {id : FunctionId} :
    functionOf? term = some id ↔ term.shape = .function id := by
  unfold functionOf?
  cases term.shape <;> simp

/-- Whether the program is lowered, `main` is its third function and consists of a call to the label of `f`,
which stands for the first function, which prints 1, while the callee evaluates to the second function,
which prints 2. -/
def callsFirst (program : Program) : Bool :=
  program.globalVars.toOption.any fun globals => (generate program).toOption.any fun _ =>
    (program.function 2).toOption.any fun f =>
      match f.body with
      | [⟨.call callee _, _, _⟩] =>
          ((Eval.evaluate program.functions 3 callee).run' ⟨program.tables, ""⟩).any fun value =>
            decide (functionOf? value = some 1 ∧ ("main", 2) ∈ Labels.ofGlobals globals ∧
              ("f", 0) ∈ Labels.ofGlobals globals ∧
              (lowerStatements program (Labels.ofGlobals globals) f.body).toOption =
                some [.call (functionLabel "f"), .ret] ∧
              (lowerFunction program (Labels.ofGlobals globals) "f" 0).toOption =
                some [.label (functionLabel "f"), .moveRdi 1, .call printRoutine, .ret] ∧
              (lowerFunction program (Labels.ofGlobals globals) "f" 1).toOption =
                some [.label (functionLabel "f"), .moveRdi 2, .call printRoutine, .ret])
      | _ => false

/-- The call in `main` goes to the block of the first declaration, which prints 1, although its callee
evaluates to the second function, which prints 2. -/
theorem calls_shadowed_function : ∃ program globals code f callee,
    Pipeline.check shadowed = .ok program ∧ program.globalVars = .ok globals ∧
    generate program = .ok code ∧ LoweredCall program (Labels.ofGlobals globals) f [] callee ∧
    lowerStatements program (Labels.ofGlobals globals) f.body = .ok [.call (functionLabel "f"), .ret] ∧
    BlockOf program (Labels.ofGlobals globals) code "f" 0 ∧
    lowerFunction program (Labels.ofGlobals globals) "f" 0 =
      .ok [.label (functionLabel "f"), .moveRdi 1, .call printRoutine, .ret] ∧
    Yields program "" callee 1 ∧
    lowerFunction program (Labels.ofGlobals globals) "f" 1 =
      .ok [.label (functionLabel "f"), .moveRdi 2, .call printRoutine, .ret] := by
  have accepted : (Pipeline.check shadowed).toOption.any callsFirst = true := by decide +kernel
  simp only [any_toOption_iff, callsFirst] at accepted
  obtain ⟨program, checked, globals, globalsAt, code, lowered, f, functionAt, calls⟩ := accepted
  split at calls
  · next callee params type? span body =>
    simp only [Option.any_eq_true, Eval.run'_eq_some_iff, decide_eq_true_eq, toOption_eq_some_iff,
      functionOf?_eq_some_iff] at calls
    obtain ⟨value, ⟨after, evaluated⟩, isSecond, isMain, isF, called, first, second⟩ := calls
    exact ⟨program, globals, code, f, callee, checked, globalsAt, lowered,
      ⟨⟨_, _, isMain, fetch_eq_ok_iff.mp functionAt⟩, ⟨_, params, [], body, rfl⟩, by simp⟩, called,
      blockOf_generate globalsAt lowered isF, first, ⟨3, value, after, evaluated, isSecond⟩, second⟩
  · cases calls

end Assembly

end Rill

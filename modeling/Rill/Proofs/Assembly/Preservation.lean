import Mathlib
import Rill.Proofs.Assembly.Machine
import Rill.Proofs.Basic
import Rill.Proofs.Run.TypeSafety

/-!
# Lowering preserves meaning

A program that can be lowered runs only three kinds of statements: it prints literals, calls global
functions and returns without a value. No variable ever changes, so all that a run does is told by
what it prints. `Runs` gives this meaning to lists of statements.

* A run of the interpreter that ends is one of `Runs`, and each of `Runs` is found by the interpreter
  with enough fuel (`runs_of_run`, `run_of_runs`).
* The same holds of executions of the lowered code (`steps_of_runs`, `runs_of_endsIn`).

Together they say that the interpreter and the machine end on the same programs, with the same text
(`lowering_preserves_meaning`).
-/

namespace Rill

namespace Assembly

/-! ## The meaning of lowered statements -/

/-- Statements of a lowered program take the text `out` to `out'`. -/
inductive Runs (program : Program) : List Term → String → String → Prop
  | nil {out : String} : Runs program [] out out
  | print {statement operand : Term} {value : UInt64} {rest : List Term} {out out' : String} :
      statement.shape = .printU64 operand → operand.shape = .int value →
      Runs program rest (out ++ Text.decimal value.toNat) out' →
      Runs program (statement :: rest) out out'
  | call {statement callee : Term} {ref : VarRef} {var : Variable} {id : FunctionId} {f : Function}
      {rest : List Term} {out middle out' : String} :
      statement.shape = .call callee [] → callee.shape = .variable ref →
      slotIn? program.tables ref = some var → var.function? = some id →
      program.functions[id]? = some f → Runs program f.body out middle →
      Runs program rest middle out' → Runs program (statement :: rest) out out'
  | bareReturn {statement : Term} {rest : List Term} {out : String} :
      statement.shape = .returnWith none → Runs program (statement :: rest) out out

/-- What a list of statements needs of the code to run in it. -/
structure Linked (program : Program) (labels : Labels) (code : List Instr) : Prop where
  block : ∀ name id, (name, id) ∈ labels → ∃ f instrs pc, program.functions[id]? = some f ∧
    lowerStatements program labels f.body = .ok instrs ∧
    address? code (functionLabel name) = some pc ∧ CodeAt code (pc + 1) instrs
  target : ∀ callee target, callTarget program labels callee = .ok target →
    ∃ ref var id, callee.shape = .variable ref ∧ slotIn? program.tables ref = some var ∧
      var.function? = some id ∧ (var.name, id) ∈ labels ∧ target = functionLabel var.name
  plain : ∀ f ∈ program.functions, ∀ statement ∈ f.body, ∀ callee params,
    statement.shape = .call callee params → params = []

/-- No call among the statements has arguments. -/
def Plain (body : List Term) : Prop :=
  ∀ statement ∈ body, ∀ callee params, statement.shape = .call callee params → params = []

section Linking

variable {program : Program} {globals : VariableTable}

/-- The function that a call of a label's name goes to is the one the called variable holds. -/
theorem callTarget_eq (distinct : (globals.toList.map (·.name)).Nodup)
    (globalsAt : program.tables[program.globals]? = some globals) {callee : Term} {target : String}
    (called : callTarget program (Labels.ofGlobals globals) callee = .ok target) :
    ∃ ref var id, callee.shape = .variable ref ∧ slotIn? program.tables ref = some var ∧
      var.function? = some id ∧ (var.name, id) ∈ Labels.ofGlobals globals ∧
      target = functionLabel var.name := by
  obtain ⟨ref, var, shape, isGlobal, slotAt, labelled, rfl⟩ := callTarget_eq_ok called
  obtain ⟨id, inLabels⟩ := Labels.contains_iff.mp labelled
  obtain ⟨other, member, sameName, function⟩ := (Labels.mem_ofGlobals_of_distinct distinct).mp inLabels
  have varMember : var ∈ globals.toList := by
    obtain ⟨table, tableAt, varAt⟩ := slotIn?_eq_some_iff.mp slotAt
    rw [isGlobal, globalsAt] at tableAt
    cases tableAt
    exact Array.mem_toList_iff.mpr (Array.mem_of_getElem? varAt)
  have sameVar := List.inj_on_of_nodup_map distinct member varMember sameName
  subst sameVar
  exact ⟨ref, other, id, shape, slotAt, function, inLabels, rfl⟩

theorem linked_of_generate {s : Scene} {code : List Instr} (complete : s.Complete)
    (globalsAt : s.program.tables[s.program.globals]? = some globals)
    (distinct : (globals.toList.map (·.name)).Nodup) (lowered : generate s.program = .ok code) :
    Linked s.program (Labels.ofGlobals globals) code := by
  obtain ⟨globals', blocks, globalsAt', _, blocksEq, rfl⟩ := generate_eq lowered
  cases globalsAt.symm.trans globalsAt'
  refine ⟨fun name id member => ?_, fun callee target called => ?_, fun f member statement inBody => ?_⟩
  · exact blocks_at (Labels.nodup_ofGlobals globals) blocksEq member
  · exact callTarget_eq distinct globalsAt called
  · obtain ⟨id, inBounds, found⟩ := Array.mem_iff_getElem.mp member
    obtain ⟨outer, function⟩ := complete.sound.functions id f
      (Array.getElem?_eq_some_iff.mpr ⟨inBounds, found⟩)
    intro callee params shape
    cases function.body statement inBody with
    | call isValue =>
        cases shape
        cases isValue with
        | type inTables => cases inTables
        | call => rfl
    | print | assign | define | bareReturn | valueReturn => cases shape

end Linking

/-! ## The interpreter -/

section Interpreter

variable {program : Program} {statement callee : Term} {rest : List Term} {out : String}

theorem evaluate_literal {operand : Term} {value : UInt64} (isInt : operand.shape = .int value)
    (functions : Array Function) (fuel : Nat) (store : Store) :
    Eval.evaluate functions (fuel + 1) operand store = .ok operand store := by
  rw [Eval.evaluate, isInt]
  rfl

/-- A called global is the function that it holds. -/
theorem evaluate_callee {ref : VarRef} {var : Variable} {id : FunctionId} {store : Store}
    (isVariable : callee.shape = .variable ref) (found : slotIn? store.tables ref = some var)
    (function : var.function? = some id) (functions : Array Function) (fuel : Nat) :
    ∃ held, held.shape = .function id ∧
      Eval.evaluate functions (fuel + 2) callee store = .ok held store := by
  obtain ⟨held, holds, shape⟩ := function?_eq_some_iff.mp function
  refine ⟨held, shape, ?_⟩
  rw [Eval.evaluate, isVariable]
  simp only [Eval.bind_of_ok (Eval.readVar_of_slot found), holds]
  rw [Eval.evaluate, shape]
  rfl

/-- Evaluating a call of a global runs the statements of the function it holds, with a little less
fuel. -/
theorem evaluate_call {ref : VarRef} {var : Variable} {id : FunctionId} {f : Function} {store : Store}
    (isCall : statement.shape = .call callee []) (isVariable : callee.shape = .variable ref)
    (found : slotIn? store.tables ref = some var) (function : var.function? = some id)
    (functionAt : program.functions[id]? = some f) (fuel : Nat) :
    Eval.evaluate program.functions (fuel + 3) statement store =
      (Eval.runStatements (Eval.evaluate program.functions (fuel + 2)) f.body >>= fun returned =>
        pure (returned.getD (.voidAt f.span))) store := by
  obtain ⟨held, shape, evaluated⟩ :=
    evaluate_callee isVariable found function program.functions fuel
  rw [Eval.evaluate, isCall]
  simp only [bind, EStateM.bind, evaluated, shape, Eval.callWith, fetch_eq_ok_iff.mpr functionAt,
    Eval.ofFault, pure, EStateM.pure]
  split
  · next returned after _ => cases returned <;> rfl
  · rfl

/-- A call that ends had fuel for the call, for the called variable and for what it holds. -/
theorem fuel_of_call {ref : VarRef} {var : Variable} {held result : Term} {fuel : Nat}
    {functions : Array Function} {store after : Store} (isCall : statement.shape = .call callee [])
    (isVariable : callee.shape = .variable ref) (found : slotIn? store.tables ref = some var)
    (holds : var.value? = some held)
    (evaluated : Eval.evaluate functions fuel statement store = .ok result after) :
    ∃ less, fuel = less + 3 := by
  match fuel with
  | 0 => cases evaluated
  | 1 =>
      rw [Eval.evaluate, isCall, Eval.bind_eq_ok] at evaluated
      obtain ⟨_, _, noFuel, _⟩ := evaluated
      cases noFuel
  | 2 =>
      rw [Eval.evaluate, isCall, Eval.bind_eq_ok] at evaluated
      obtain ⟨_, _, calleeEq, _⟩ := evaluated
      rw [Eval.evaluate, isVariable, Eval.bind_eq_ok] at calleeEq
      obtain ⟨read, _, readEq, heldEq⟩ := calleeEq
      cases found.symm.trans (Eval.readVar_eq_ok.mp readEq).1
      rw [holds] at heldEq
      cases heldEq
  | less + 3 => exact ⟨less, rfl⟩

theorem runStatements_print {operand : Term} {value : UInt64}
    (isPrint : statement.shape = .printU64 operand)
    (isInt : operand.shape = .int value) (functions : Array Function) (fuel : Nat) (store : Store) :
    Eval.runStatements (Eval.evaluate functions (fuel + 1)) (statement :: rest) store =
      Eval.runStatements (Eval.evaluate functions (fuel + 1)) rest
        { store with output := store.output ++ Text.decimal value.toNat } := by
  rw [Eval.runStatements, isPrint]
  simp only [bind, EStateM.bind, evaluate_literal isInt, isInt]
  rfl

theorem runStatements_call {params : List Term} (isCall : statement.shape = .call callee params)
    (evaluate : Term → Eval Term) :
    Eval.runStatements evaluate (statement :: rest) =
      evaluate statement >>= fun _ => Eval.runStatements evaluate rest := by
  rw [Eval.runStatements, isCall]

theorem runStatements_bareReturn (isReturn : statement.shape = .returnWith none)
    (evaluate : Term → Eval Term) :
    Eval.runStatements evaluate (statement :: rest) = pure (some (.voidAt statement.span)) := by
  rw [Eval.runStatements, isReturn]

/-- The statements that the interpreter has run to their end have run, and changed no variable. -/
theorem runs_of_run {labels : Labels} {code : List Instr} (linked : Linked program labels code)
    (fuel : Nat) :
    ∀ (body : List Term) (instrs : List Instr) (out : String) (returned : Option Term) (after : Store),
      Plain body → lowerStatements program labels body = .ok instrs →
      Eval.runStatements (Eval.evaluate program.functions fuel) body ⟨program.tables, out⟩ =
        .ok returned after →
      after.tables = program.tables ∧ Runs program body out after.output := by
  -- A called function runs on less fuel; the rest of the statements on the same.
  induction fuel using Nat.strong_induction_on with
  | _ fuel fuelIh =>
    intro body
    induction body with
    | nil =>
        intro instrs out returned after _ _ ran
        cases ran
        exact ⟨rfl, .nil⟩
    | cons statement rest restIh =>
        intro instrs out returned after plain lowered ran
        have restPlain : Plain rest := fun other member => plain other (List.mem_cons_of_mem _ member)
        rcases lowerStatements_cons lowered with
          ⟨operand, value, later, isPrint, isInt, laterEq, rfl⟩ |
          ⟨callee, params, target, later, isCall, called, laterEq, rfl⟩ | ⟨isReturn, rfl⟩
        · match fuel with
          | 0 =>
              rw [Eval.runStatements, isPrint, Eval.bind_eq_ok] at ran
              obtain ⟨_, _, noFuel, _⟩ := ran
              cases noFuel
          | fuel + 1 =>
              rw [runStatements_print isPrint isInt] at ran
              obtain ⟨same, runs⟩ := restIh later _ returned after restPlain laterEq ran
              exact ⟨same, .print isPrint isInt runs⟩
        · cases plain statement (by simp) callee params isCall
          obtain ⟨ref, var, id, isVariable, found, function, labelled, rfl⟩ :=
            linked.target callee target called
          obtain ⟨f, instrs, pc, functionAt, bodyEq, _, _⟩ := linked.block var.name id labelled
          obtain ⟨held, holds, _⟩ := function?_eq_some_iff.mp function
          rw [runStatements_call isCall, Eval.bind_eq_ok] at ran
          obtain ⟨result, middle, evaluated, ran⟩ := ran
          obtain ⟨less, rfl⟩ := fuel_of_call isCall isVariable found holds evaluated
          rw [evaluate_call isCall isVariable found function functionAt, Eval.bind_eq_ok] at evaluated
          obtain ⟨inner, innerStore, innerRan, ended⟩ := evaluated
          cases ended
          have innerPlain : Plain f.body := linked.plain f (Array.mem_of_getElem? functionAt)
          obtain ⟨sameInner, innerRuns⟩ :=
            fuelIh (less + 2) (Nat.lt_succ_self _) f.body instrs out inner middle innerPlain bodyEq innerRan
          obtain ⟨tables, text⟩ := middle
          cases sameInner
          obtain ⟨same, runs⟩ := restIh later text returned after restPlain laterEq ran
          exact ⟨same, .call isCall isVariable found function functionAt innerRuns runs⟩
        · rw [runStatements_bareReturn isReturn] at ran
          cases ran
          exact ⟨rfl, .bareReturn isReturn⟩

/-- The interpreter runs what runs, with any fuel from some amount on. -/
theorem run_of_runs {body : List Term} {out out' : String} (runs : Runs program body out out') :
    ∃ least, ∀ fuel ≥ least, ∃ returned,
      Eval.runStatements (Eval.evaluate program.functions fuel) body ⟨program.tables, out⟩ =
        .ok returned ⟨program.tables, out'⟩ := by
  induction runs with
  | nil => exact ⟨0, fun fuel _ => ⟨none, rfl⟩⟩
  | @print statement operand value rest out out' isPrint isInt _ ih =>
      obtain ⟨least, enough⟩ := ih
      refine ⟨least + 1, fun fuel more => ?_⟩
      obtain ⟨less, rfl⟩ : ∃ less, fuel = less + 1 := ⟨fuel - 1, by omega⟩
      rw [runStatements_print isPrint isInt]
      exact enough (less + 1) (by omega)
  | @call statement callee ref var id f rest out middle out' isCall isVariable found function functionAt
      _ _ bodyIh restIh =>
      obtain ⟨bodyLeast, bodyEnough⟩ := bodyIh
      obtain ⟨restLeast, restEnough⟩ := restIh
      refine ⟨bodyLeast + restLeast + 3, fun fuel more => ?_⟩
      obtain ⟨less, rfl⟩ : ∃ less, fuel = less + 3 := ⟨fuel - 3, by omega⟩
      obtain ⟨inner, innerRan⟩ := bodyEnough (less + 2) (by omega)
      obtain ⟨returned, ran⟩ := restEnough (less + 3) (by omega)
      refine ⟨returned, ?_⟩
      rw [runStatements_call isCall, Eval.bind_eq_ok]
      refine ⟨inner.getD (.voidAt f.span), ⟨program.tables, middle⟩, ?_, ran⟩
      rw [evaluate_call isCall isVariable found function functionAt, Eval.bind_eq_ok]
      exact ⟨inner, _, innerRan, rfl⟩
  | @bareReturn statement rest out isReturn =>
      refine ⟨0, fun fuel _ => ⟨some (.voidAt statement.span), ?_⟩⟩
      rw [runStatements_bareReturn isReturn]
      rfl

end Interpreter

/-! ## The machine -/

section Machine

variable {program : Program} {labels : Labels} {code : List Instr}

theorem step_label {m : Machine} {name : String} (instr : code[m.pc]? = some (.label name)) :
    step code m = some { m with pc := m.pc + 1 } := by
  rw [step, instr]

theorem step_moveRdi {m : Machine} {value : UInt64} (instr : code[m.pc]? = some (.moveRdi value)) :
    step code m = some { m with pc := m.pc + 1, rdi := value } := by
  rw [step, instr]

theorem step_print {m : Machine} (instr : code[m.pc]? = some (.call printRoutine)) :
    step code m =
      some { m with pc := m.pc + 1, output := m.output ++ Text.decimal m.rdi.toNat } := by
  rw [step, instr]
  rfl

theorem step_call {m : Machine} {name : String} {entry : Nat}
    (instr : code[m.pc]? = some (.call (functionLabel name)))
    (labelAt : address? code (functionLabel name) = some entry) :
    step code m = some { m with pc := entry, stack := (m.pc + 1) :: m.stack } := by
  rw [step, instr]
  simp [functionLabel_ne_printRoutine, labelAt]

theorem step_ret {m : Machine} {back : Nat} {stack : List Nat} (instr : code[m.pc]? = some .ret)
    (isStack : m.stack = back :: stack) : step code m = some { m with pc := back, stack } := by
  rw [step, instr, isStack]

theorem step_returned {m : Machine} (returned : Returned code m) : step code m = none := by
  rw [step, returned.1, returned.2]

theorem label_of_address {name : String} {pc : Nat} (labelAt : address? code name = some pc) :
    code[pc]? = some (.label name) := by
  unfold address? List.idxOf? at labelAt
  obtain ⟨inBounds, isLabel, _⟩ := List.findIdx?_eq_some_iff_getElem.mp labelAt
  rw [List.getElem?_eq_getElem inBounds]
  simpa using isLabel

/-- Statements that run are executed by their instructions, up to the return that ends them. -/
theorem steps_of_runs {body : List Term} {out out' : String} (linked : Linked program labels code)
    (runs : Runs program body out out') :
    ∀ (instrs : List Instr) (pc : Nat) (stack : List Nat) (rdi : UInt64),
      lowerStatements program labels body = .ok instrs → CodeAt code pc instrs →
      ∃ pc' rdi', Steps code ⟨pc, stack, rdi, out⟩ ⟨pc', stack, rdi', out'⟩ ∧
        code[pc']? = some .ret := by
  induction runs with
  | nil =>
      intro instrs pc stack rdi lowered codeAt
      cases lowered
      exact ⟨pc, rdi, .refl, codeAt.head⟩
  | @print statement operand value rest out out' isPrint isInt _ ih =>
      intro instrs pc stack rdi lowered codeAt
      rcases lowerStatements_cons lowered with
        ⟨operand', value', later, isPrint', isInt', laterEq, rfl⟩ | ⟨_, _, _, _, isCall, _⟩ |
        ⟨isReturn, _⟩
      · cases isPrint.symm.trans isPrint'
        cases isInt.symm.trans isInt'
        obtain ⟨pc', rdi', steps, isRet⟩ := ih later (pc + 2) stack value laterEq codeAt.tail.tail
        refine ⟨pc', rdi', ?_, isRet⟩
        exact .head (step_moveRdi codeAt.head) (.head (step_print codeAt.tail.head) steps)
      · cases isPrint.symm.trans isCall
      · cases isPrint.symm.trans isReturn
  | @call statement callee ref var id f rest out middle out' isCall isVariable found function functionAt
      _ _ bodyIh restIh =>
      intro instrs pc stack rdi lowered codeAt
      rcases lowerStatements_cons lowered with
        ⟨_, _, _, isPrint, _⟩ | ⟨callee', params, target, later, isCall', called, laterEq, rfl⟩ |
        ⟨isReturn, _⟩
      · cases isCall.symm.trans isPrint
      · cases isCall.symm.trans isCall'
        obtain ⟨ref', var', id', isVariable', found', function', labelled, rfl⟩ :=
          linked.target _ _ called
        cases isVariable.symm.trans isVariable'
        cases found.symm.trans found'
        cases function.symm.trans function'
        obtain ⟨f', bodyInstrs, entry, functionAt', bodyEq, labelAt, bodyAt⟩ := linked.block _ _ labelled
        cases functionAt.symm.trans functionAt'
        obtain ⟨retPc, rdi', bodySteps, isRet⟩ :=
          bodyIh bodyInstrs (entry + 1) ((pc + 1) :: stack) rdi bodyEq bodyAt
        obtain ⟨pc', rdi'', restSteps, isRet'⟩ := restIh later (pc + 1) stack rdi' laterEq codeAt.tail
        refine ⟨pc', rdi'', ?_, isRet'⟩
        have enters := step_call (m := ⟨pc, stack, rdi, out⟩) codeAt.head labelAt
        have passes := step_label (m := ⟨entry, (pc + 1) :: stack, rdi, out⟩) (label_of_address labelAt)
        have leaves := step_ret (m := ⟨retPc, (pc + 1) :: stack, rdi', middle⟩) isRet rfl
        exact .head enters (.head passes (bodySteps.trans (.head leaves restSteps)))
      · cases isCall.symm.trans isReturn
  | @bareReturn statement rest out isReturn =>
      intro instrs pc stack rdi lowered codeAt
      rcases lowerStatements_cons lowered with
        ⟨_, _, _, isPrint, _⟩ | ⟨_, _, _, _, isCall, _⟩ | ⟨_, rfl⟩
      · cases isReturn.symm.trans isPrint
      · cases isReturn.symm.trans isCall
      · exact ⟨pc, rdi, .refl, codeAt.head⟩

/-- An execution that ends has run the statements it started at, up to their return, and goes on from
there. -/
theorem runs_of_endsIn (linked : Linked program labels code) (n : Nat) :
    ∀ (body : List Term) (instrs : List Instr) (pc : Nat) (stack : List Nat) (rdi : UInt64)
      (out : String) (last : Machine), Plain body → lowerStatements program labels body = .ok instrs →
      CodeAt code pc instrs → EndsIn code n ⟨pc, stack, rdi, out⟩ last →
      ∃ k pc' rdi' out', k ≤ n ∧ Runs program body out out' ∧ code[pc']? = some .ret ∧
        EndsIn code k ⟨pc', stack, rdi', out'⟩ last := by
  -- The induction is on the number of steps left, for all places in the code at once.
  induction n using Nat.strong_induction_on with
  | _ n ih =>
    intro body instrs pc stack rdi out last plain lowered codeAt ends
    cases body with
    | nil =>
        cases lowered
        exact ⟨n, pc, rdi, out, Nat.le_refl n, .nil, codeAt.head, ends⟩
    | cons statement rest =>
        have restPlain : Plain rest := fun other member => plain other (List.mem_cons_of_mem _ member)
        rcases lowerStatements_cons lowered with
          ⟨operand, value, later, isPrint, isInt, laterEq, rfl⟩ |
          ⟨callee, params, target, later, isCall, called, laterEq, rfl⟩ | ⟨isReturn, rfl⟩
        · obtain ⟨n₁, rfl, ends₁⟩ := ends.after_step (step_moveRdi codeAt.head)
          obtain ⟨n₂, rfl, ends₂⟩ := ends₁.after_step (step_print codeAt.tail.head)
          obtain ⟨k, pc', rdi', out', atMost, runs, isRet, endsAt⟩ :=
            ih n₂ (by omega) rest later _ stack value _ last restPlain laterEq codeAt.tail.tail ends₂
          exact ⟨k, pc', rdi', out', by omega, .print isPrint isInt runs, isRet, endsAt⟩
        · cases plain statement (by simp) callee params isCall
          obtain ⟨ref, var, id, isVariable, found, function, labelled, rfl⟩ :=
            linked.target callee target called
          obtain ⟨f, bodyInstrs, entry, functionAt, bodyEq, labelAt, bodyAt⟩ := linked.block _ _ labelled
          have bodyPlain : Plain f.body := linked.plain f (Array.mem_of_getElem? functionAt)
          obtain ⟨n₁, rfl, ends₁⟩ := ends.after_step (step_call codeAt.head labelAt)
          obtain ⟨n₂, rfl, ends₂⟩ := ends₁.after_step (step_label (label_of_address labelAt))
          obtain ⟨k, retPc, rdi₁, middle, atMost, bodyRuns, isRet, endsRet⟩ :=
            ih n₂ (by omega) f.body bodyInstrs _ _ rdi out last bodyPlain bodyEq bodyAt ends₂
          obtain ⟨n₃, rfl, ends₃⟩ := endsRet.after_step (step_ret isRet rfl)
          obtain ⟨k', pc', rdi₂, out', atMost', runs, isRet', endsAt⟩ :=
            ih n₃ (by omega) rest later _ stack rdi₁ middle last restPlain laterEq codeAt.tail ends₃
          exact ⟨k', pc', rdi₂, out', by omega,
            .call isCall isVariable found function functionAt bodyRuns runs, isRet', endsAt⟩
        · exact ⟨n, pc, rdi, out, Nat.le_refl n, .bareReturn isReturn, codeAt.head, ends⟩

end Machine

/-! ## Whole programs -/

section Programs

variable {program : Program} {globals : VariableTable} {id : FunctionId}

/-- The entry point is the function that `main` is labelled with. -/
theorem entryPoint_iff :
    Program.entryPoint? globals = some id ↔ (entryName, id) ∈ Labels.ofGlobals globals :=
  Labels.mem_ofGlobals.symm

/-- The entry point of a program whose `main` takes no arguments. -/
theorem entry_eq_ok {f : Function} (globalsAt : program.globalVars = .ok globals)
    (entry : Program.entryPoint? globals = some id) (found : program.function id = .ok f)
    (noArgs : program.table f.args = .ok #[]) : program.entry = .ok id := by
  simp [Program.entry, globalsAt, entry, found, noArgs, Except.mapError, bind, Except.bind, pure,
    Except.pure]

/-- A run of a program with an entry point is a run of its statements. -/
theorem run_entered {f : Function} (entered : program.entry = .ok id)
    (functionAt : program.functions[id]? = some f) (fuel : Nat) (output : String) :
    program.run fuel output =
      match Eval.runStatements (Eval.evaluate program.functions fuel) f.body
        ⟨program.tables, output⟩ with
      | .ok returned after => ⟨.ok (returned.getD (.voidAt f.span)),
          { program with tables := after.tables }, after.output⟩
      | .error (.broken fault) after =>
          ⟨.error (.broken fault), { program with tables := after.tables }, after.output⟩
      | .error .outOfFuel after =>
          ⟨.error .outOfFuel, { program with tables := after.tables }, after.output⟩ := by
  rw [Program.run_of_entry entered, Program.invoke]
  simp only [Eval.call, Eval.callWith, fetch_eq_ok_iff.mpr functionAt, Eval.ofFault, bind, EStateM.bind,
    pure, EStateM.pure]
  cases Eval.runStatements (Eval.evaluate program.functions fuel) f.body ⟨program.tables, output⟩ with
  | ok returned after => cases returned <;> rfl
  | error stop after => cases stop <;> rfl

theorem statements_of_run {f : Function} {fuel : Nat} {output : String} {value : Term}
    (entered : program.entry = .ok id) (functionAt : program.functions[id]? = some f)
    (finished : (program.run fuel output).result = .ok value) :
    ∃ returned after, Eval.runStatements (Eval.evaluate program.functions fuel) f.body
        ⟨program.tables, output⟩ = .ok returned after ∧
      (program.run fuel output).output = after.output := by
  rw [run_entered entered functionAt] at finished ⊢
  split at finished
  · next returned after ran => exact ⟨returned, after, ran, rfl⟩
  · cases finished
  · cases finished

end Programs

/-- An accepted program with distinct global names, its interpreter and its lowered code agree. When
the interpreter ends, so does the code, with the same text, at the return of `main`. When the code
ends and `main` takes no arguments, the interpreter ends with the same text, given enough fuel. -/
theorem lowering_preserves_meaning {source : String} {program : Program} {globals : VariableTable}
    {code : List Instr} (checked : Pipeline.check source = .ok program)
    (globalsAt : program.globalVars = .ok globals) (distinct : (globals.toList.map (·.name)).Nodup)
    (lowered : generate program = .ok code) (rdi : UInt64) (output : String) :
    (∀ fuel value, (program.run fuel output).result = .ok value →
      ∃ last, Ends code rdi output last ∧ Returned code last ∧
        last.output = (program.run fuel output).output) ∧
    (∀ last, Ends code rdi output last →
      (∀ id f, Program.entryPoint? globals = some id → program.function id = .ok f →
        program.table f.args = .ok #[]) →
      ∃ least, ∀ fuel ≥ least, ∃ value, (program.run fuel output).result = .ok value ∧
        (program.run fuel output).output = last.output) := by
  obtain ⟨s, rfl, complete⟩ := check_complete checked
  have linked := linked_of_generate complete (fetch_eq_ok_iff.mp globalsAt) distinct lowered
  constructor
  · intro fuel value finished
    cases entered : s.program.entry with
    | error halt => simp [Program.run_of_refused entered] at finished
    | ok id =>
        have labelled := entryPoint_iff.mp (Program.entryPoint_of_entry globalsAt entered)
        obtain ⟨f, instrs, pc, functionAt, bodyEq, labelAt, bodyAt⟩ := linked.block _ _ labelled
        obtain ⟨returned, after, ran, outputEq⟩ := statements_of_run entered functionAt finished
        have plain : Plain f.body := linked.plain f (Array.mem_of_getElem? functionAt)
        obtain ⟨_, runs⟩ := runs_of_run linked fuel f.body instrs output returned after plain bodyEq ran
        obtain ⟨pc', rdi', steps, isRet⟩ :=
          steps_of_runs linked runs instrs (pc + 1) [] rdi bodyEq bodyAt
        have isReturned : Returned code ⟨pc', [], rdi', after.output⟩ := ⟨isRet, rfl⟩
        have passes := step_label (m := ⟨pc, [], rdi, output⟩) (label_of_address labelAt)
        exact ⟨_, ⟨pc, labelAt, .head passes steps, step_returned isReturned⟩, isReturned, outputEq.symm⟩
  · rintro last ⟨pc, labelAt, steps, ended⟩ noArgs
    obtain ⟨_, _, globalsAt', hasEntry, _⟩ := generate_eq lowered
    cases (fetch_eq_ok_iff.mp globalsAt).symm.trans globalsAt'
    obtain ⟨id, labelled⟩ := Labels.contains_iff.mp hasEntry
    obtain ⟨f, instrs, pc', functionAt, bodyEq, labelAt', bodyAt⟩ := linked.block _ _ labelled
    cases labelAt.symm.trans labelAt'
    have entry := entryPoint_iff.mpr labelled
    have functionEq : s.program.function id = .ok f := fetch_eq_ok_iff.mpr functionAt
    have entered := entry_eq_ok globalsAt entry functionEq (noArgs id f entry functionEq)
    have plain : Plain f.body := linked.plain f (Array.mem_of_getElem? functionAt)
    obtain ⟨n, endsIn⟩ := endsIn_of_steps steps ended
    obtain ⟨n', rfl, endsIn'⟩ := endsIn.after_step (step_label (label_of_address labelAt))
    obtain ⟨k, retPc, rdi', out', _, runs, isRet, endsRet⟩ :=
      runs_of_endsIn linked n' f.body instrs _ [] rdi output last plain bodyEq bodyAt endsIn'
    have sameLast : last.output = out' := by
      cases endsRet with
      | here => rfl
      | next stepped => cases (step_returned ⟨isRet, rfl⟩).symm.trans stepped
    obtain ⟨least, enough⟩ := run_of_runs runs
    refine ⟨least, fun fuel more => ?_⟩
    obtain ⟨returned, ran⟩ := enough fuel more
    rw [run_entered entered functionAt, ran]
    exact ⟨_, rfl, sameLast.symm⟩

/-- A source whose functions call each other and return early. -/
def callChain : String :=
  "main :: () -> void \x7b first(); print_u64 3; return; print_u64 9; \x7d;
   first :: () -> void \x7b print_u64 1; second(); second(); \x7d;
   second :: () -> void \x7b print_u64 2; \x7d;"

/-- The interpreter prints 1223 on the source, and so does its lowered code. -/
theorem lowering_preserves_callChain : ∃ program globals code,
    Pipeline.check callChain = .ok program ∧ program.globalVars = .ok globals ∧
    (globals.toList.map (·.name)).Nodup ∧ generate program = .ok code ∧
    ∃ last, Ends code 0 "" last ∧ Returned code last ∧ last.output = "1223" ∧
      ∃ least, ∀ fuel ≥ least, ∃ value, (program.run fuel "").result = .ok value ∧
        (program.run fuel "").output = last.output := by
  have computed : (Pipeline.check callChain).toOption.any (fun program =>
      program.globalVars.toOption.any fun globals => (generate program).toOption.any fun _ =>
      (Program.entryPoint? globals).any fun id => (program.function id).toOption.any fun f =>
      (program.table f.args).toOption.any fun args => (program.run 10 "").result.toOption.any fun _ =>
        decide ((globals.toList.map (·.name)).Nodup ∧ args.size = 0 ∧
          (program.run 10 "").output = "1223")) = true := by
    decide +kernel
  simp only [Option.any_eq_true, toOption_eq_some_iff, decide_eq_true_eq] at computed
  obtain ⟨program, checked, globals, globalsAt, code, lowered, id, entry, f, found, args, argsAt, value,
    finished, distinct, empty, printed⟩ := computed
  have meaning := lowering_preserves_meaning checked globalsAt distinct lowered 0 ""
  obtain ⟨last, ends, returned, same⟩ := meaning.1 10 value finished
  have noArgs : ∀ id f, Program.entryPoint? globals = some id → program.function id = .ok f →
      program.table f.args = .ok #[] := by
    intro id' f' entry' found'
    cases entry.symm.trans entry'
    cases found.symm.trans found'
    rw [argsAt, Array.eq_empty_of_size_eq_zero empty]
  exact ⟨program, globals, code, checked, globalsAt, distinct, lowered, last, ends, returned,
    same.trans printed, meaning.2 last ends noArgs⟩

end Assembly

end Rill

import Mathlib
import Rill.Proofs.Likeness.Building
import Rill.Proofs.Run.TypeSafety

/-!
# Running two programs side by side

Programs that are alike run in lockstep: with the same fuel, both runs reach a result, a fault or the
end of the fuel together, print the same, and leave stores that are alike (`evaluate_alike`,
`runStatements_alike`). So their runs end in the same way with the same output (`run_alike`).
-/

namespace Rill

/-! ## How a run ends -/

/-- How a run ended, without names, places and ids. -/
inductive Ending where
  | void
  | int (value : UInt64)
  | function
  | otherValue
  | reported (error : RunError)
  | fault
  | outOfFuel
deriving DecidableEq, Repr

/-- How the run with this outcome ended. -/
def RunOutcome.ending (outcome : RunOutcome) : Ending :=
  match outcome.result with
  | .ok ⟨.void, _, _⟩ => .void
  | .ok ⟨.int value, _, _⟩ => .int value
  | .ok ⟨.function _, _, _⟩ => .function
  | .ok _ => .otherValue
  | .error (.reported error) => .reported error
  | .error (.broken _) => .fault
  | .error .outOfFuel => .outOfFuel

namespace Pairing

/-- No variable is late. -/
def Strict (P : Pairing) : Prop :=
  ∀ ref, ¬ P.late ref

theorem Strict.elim {P : Pairing} {p : Prop} (strict : P.Strict) (late : ∃ ref, P.late ref) : p := by
  obtain ⟨ref, isLate⟩ := late
  exact (strict ref isLate).elim

theorem Strict.mono {P P' : Pairing} (ext : P.Extends P') (strict : P.Strict) : P'.Strict := by
  intro ref
  rw [ext.late]
  exact strict ref

/-- Stores whose paired variables hold values that are alike, with the same output. -/
structure StoreLike (P : Pairing) (store store' : Store) : Prop where
  slots : ∀ ref ref', P.var ref ref' → ∃ var var', slotIn? store.tables ref = some var ∧
    slotIn? store'.tables ref' = some var' ∧ Option.Rel P.ValueLike var.value? var'.value?
  output : store'.output = store.output

theorem ProgramLike.store {P : Pairing} {program program' : Program} (strict : P.Strict)
    (alike : P.ProgramLike program program') (output : String) :
    P.StoreLike ⟨program.tables, output⟩ ⟨program'.tables, output⟩ := by
  refine ⟨fun ref ref' paired => ?_, rfl⟩
  obtain ⟨var, var', found, found', slots⟩ := alike.vars ref ref' paired
  exact ⟨var, var', found, found', slots.values.resolve_left (strict ref)⟩

end Pairing

namespace Eval

variable {α α' β β' : Type} {P : Pairing}

/-- Ends of two steps that are alike. -/
inductive EndsAlike (P : Pairing) (R : α → α' → Prop) :
    EStateM.Result Stop Store α → EStateM.Result Stop Store α' → Prop
  | ok {a : α} {a' : α'} {store store' : Store} : P.StoreLike store store' → R a a' →
      EndsAlike P R (.ok a store) (.ok a' store')
  | broken {fault fault' : Fault} {store store' : Store} : P.StoreLike store store' →
      EndsAlike P R (.error (.broken fault) store) (.error (.broken fault') store')
  | outOfFuel {store store' : Store} : P.StoreLike store store' →
      EndsAlike P R (.error .outOfFuel store) (.error .outOfFuel store')

/-- Two steps that end alike from stores that are alike. -/
def Alike (P : Pairing) (m : Eval α) (m' : Eval α') (R : α → α' → Prop) : Prop :=
  ∀ store store', P.StoreLike store store' → EndsAlike P R (m store) (m' store')

namespace Alike

variable {m : Eval α} {m' : Eval α'} {R : α → α' → Prop} {S : β → β' → Prop}

theorem pure {a : α} {a' : α'} (holds : R a a') : Alike P (Pure.pure a) (Pure.pure a') R :=
  fun _ _ stores => .ok stores holds

theorem fail {fault fault' : Fault} : Alike P (Eval.fail fault) (Eval.fail fault') R :=
  fun _ _ stores => .broken stores

theorem bind {f : α → Eval β} {f' : α' → Eval β'} (first : Alike P m m' R)
    (next : ∀ a a', R a a' → Alike P (f a) (f' a') S) : Alike P (m >>= f) (m' >>= f') S := by
  intro store store' stores
  have ends := first store store' stores
  simp only [Bind.bind, EStateM.bind]
  generalize m store = result at ends ⊢
  generalize m' store' = result' at ends ⊢
  cases ends with
  | ok stores holds => exact next _ _ holds _ _ stores
  | broken stores => exact .broken stores
  | outOfFuel stores => exact .outOfFuel stores

theorem fail_bind {f : α → Eval β} {f' : α' → Eval β'} {fault fault' : Fault} :
    Alike P (Eval.fail fault >>= f) (Eval.fail fault' >>= f') S :=
  fun _ _ stores => .broken stores

end Alike

/-! ## Variables -/

variable {ref ref' : VarRef} {value value' : Term}

theorem readVar_alike (paired : P.var ref ref') :
    Alike P (readVar ref) (readVar ref') fun var var' => Option.Rel P.ValueLike var.value? var'.value? := by
  intro store store' stores
  obtain ⟨var, var', found, found', values⟩ := stores.slots ref ref' paired
  rw [readVar_of_slot found, readVar_of_slot found']
  exact .ok stores values

theorem writeVar_alike (paired : P.var ref ref') (values : P.ValueLike value value') :
    Alike P (writeVar ref value) (writeVar ref' value') fun _ _ => True := by
  refine (readVar_alike paired).bind fun _ _ _ store store' stores => .ok ⟨fun other other' pairedOther => ?_,
    stores.output⟩ trivial
  obtain ⟨var, var', found, found', held⟩ := stores.slots other other' pairedOther
  have same := Relator.rel_eq P.var_unique pairedOther paired
  have written := slotIn?_written store.tables ref other value
  have written' := slotIn?_written store'.tables ref' other' value'
  by_cases here : other = ref
  · rw [if_pos here, found] at written
    rw [if_pos (same.mp here), found'] at written'
    exact ⟨_, _, written, written', .some values⟩
  · rw [if_neg here, found] at written
    rw [if_neg fun here' => here (same.mpr here'), found'] at written'
    exact ⟨_, _, written, written', held⟩

theorem print_alike (text : String) : Alike P (print text) (print text) fun _ _ => True :=
  fun _ _ stores => .ok ⟨stores.slots, congrArg (· ++ text) stores.output⟩ trivial

/-! ## Statements -/

/-- Running statements that are alike, given how their values are evaluated. -/
theorem runStatements_alike {evaluate evaluate' : Term → Eval Term} {body body' : List Term}
    (evaluates : ∀ term term', P.ValueLike term term' →
      Alike P (evaluate term) (evaluate' term') P.ValueLike)
    (statements : List.Forall₂ P.StatementLike body body') :
    Alike P (runStatements evaluate body) (runStatements evaluate' body') (Option.Rel P.ValueLike) := by
  induction statements with
  | nil => exact .pure .none
  | cons first _ ih =>
      unfold runStatements
      cases first with
      | print operands =>
          refine (evaluates _ _ operands).bind fun result result' results => ?_
          cases results with
          | int => exact (print_alike _).bind fun _ _ _ => ih
          | type types noName =>
              cases types with
              | void | u64 | functionType => exact .fail_bind
              | «variable» => exact absurd rfl (noName _)
          | «variable» | function | sum | call => exact .fail_bind
      | call calls => exact (evaluates _ _ calls).bind fun _ _ _ => ih
      | assign paired values | define paired values =>
          exact (evaluates _ _ values).bind fun _ _ results =>
            (writeVar_alike paired results).bind fun _ _ _ => ih
      | bareReturn => exact .pure (.some (.type .void (by simp [Term.voidAt, Term.untyped])))
      | valueReturn values => exact (evaluates _ _ values).bind fun _ _ results => .pure (.some results)

/-! ## Terms -/

/-- Functions whose statements are alike. -/
def FunctionsLike (P : Pairing) (functions functions' : Array Function) : Prop :=
  ∀ id id', P.function id id' → ∃ f f', functions[id]? = some f ∧ functions'[id']? = some f' ∧
    List.Forall₂ P.StatementLike f.body f'.body

theorem callWith_alike {evaluate evaluate' : Term → Eval Term} {functions functions' : Array Function}
    {id id' : FunctionId} (evaluates : ∀ term term', P.ValueLike term term' →
      Alike P (evaluate term) (evaluate' term') P.ValueLike)
    (alike : FunctionsLike P functions functions') (paired : P.function id id') :
    Alike P (callWith evaluate functions id) (callWith evaluate' functions' id') P.ValueLike := by
  obtain ⟨f, f', found, found', bodies⟩ := alike id id' paired
  unfold callWith
  rw [fetch_eq_ok_iff.mpr found, fetch_eq_ok_iff.mpr found']
  refine (Alike.pure (R := fun g g' => g = f ∧ g' = f') ⟨rfl, rfl⟩).bind ?_
  rintro _ _ ⟨rfl, rfl⟩
  refine (runStatements_alike evaluates bodies).bind fun result? result?' results => ?_
  cases results with
  | some results => exact .pure results
  | none => exact .pure (.type .void (by simp [Term.voidAt, Term.untyped]))

/-- Evaluating terms that are alike with the same fuel. -/
theorem evaluate_alike {functions functions' : Array Function} (alike : FunctionsLike P functions functions')
    (fuel : Nat) : ∀ term term', P.ValueLike term term' →
      Alike P (evaluate functions fuel term) (evaluate functions' fuel term') P.ValueLike := by
  induction fuel with
  | zero => exact fun _ _ _ _ _ stores => .outOfFuel stores
  | succ fuel ih =>
      intro term term' terms
      unfold evaluate
      cases terms with
      | int => exact .pure .int
      | function paired types => exact .pure (.function paired types)
      | type types noName =>
          cases types with
          | void | u64 | functionType => exact .fail
          | «variable» => exact absurd rfl (noName _)
      | «variable» paired _ =>
          refine (readVar_alike paired).bind fun var var' values => ?_
          rcases optionRel_cases values with ⟨empty, empty'⟩ | ⟨held, held', heldEq, heldEq', values⟩
          · rw [empty, empty']
            exact .fail
          · rw [heldEq, heldEq']
            exact ih held held' values
      | sum left right =>
          refine (ih _ _ left).bind fun a a' lefts => (ih _ _ right).bind fun b b' rights => ?_
          cases lefts with
          | int =>
              cases rights with
              | int => exact .pure .int
              | type types noName =>
                  cases types with
                  | void | u64 | functionType => exact .fail
                  | «variable» => exact absurd rfl (noName _)
              | «variable» | function | sum | call => exact .fail
          | type types noName =>
              cases types with
              | void | u64 | functionType => exact .fail
              | «variable» => exact absurd rfl (noName _)
          | «variable» | function | sum | call => exact .fail
      | call callee _ =>
          refine (ih _ _ callee).bind fun result result' results => ?_
          cases results with
          | function paired _ => exact callWith_alike ih alike paired
          | type types noName =>
              cases types with
              | void | u64 | functionType => exact .fail
              | «variable» => exact absurd rfl (noName _)
          | int | «variable» | sum | call => exact .fail

end Eval

/-! ## Programs -/

namespace Program

variable {P : Pairing} {program program' : Program}

/-- Entry points that are alike: both can be called, both are missing, or both take the same number of
arguments. -/
inductive EntriesAlike (P : Pairing) :
    Except (Halt RunError) FunctionId → Except (Halt RunError) FunctionId → Prop
  | found {id id' : FunctionId} : P.function id id' → EntriesAlike P (.ok id) (.ok id')
  | reported {error : RunError} : EntriesAlike P (.error (.reported error)) (.error (.reported error))

/-- Programs whose runs end in the same way with the same output, whatever the fuel and whatever was
printed before. -/
def RunsLike (program program' : Program) : Prop :=
  ∀ (fuel : Nat) (output : String), (program'.run fuel output).ending = (program.run fuel output).ending ∧
    (program'.run fuel output).output = (program.run fuel output).output

/-- Programs that are alike run alike. -/
theorem run_alike (strict : P.Strict) (alike : P.ProgramLike program program')
    (entries : EntriesAlike P program.entry program'.entry) : program.RunsLike program' := by
  intro fuel output
  unfold run
  generalize program.entry = entry at entries ⊢
  generalize program'.entry = entry' at entries ⊢
  cases entries with
  | reported => exact ⟨rfl, rfl⟩
  | @found id id' paired =>
      have ends := Eval.callWith_alike (Eval.evaluate_alike alike.functions fuel) alike.functions paired
        ⟨program.tables, output⟩ ⟨program'.tables, output⟩ (alike.store strict output)
      dsimp only
      rw [invoke, invoke, Eval.call, Eval.call]
      generalize Eval.callWith _ program.functions id _ = result at ends ⊢
      generalize Eval.callWith _ program'.functions id' _ = result' at ends ⊢
      cases ends with
      | broken stores | outOfFuel stores => exact ⟨rfl, stores.output⟩
      | ok stores values =>
          refine ⟨?_, stores.output⟩
          cases values with
          | type types noName =>
              cases types with
              | void | u64 | functionType => rfl
              | «variable» => exact absurd rfl (noName _)
          | int | «variable» | function | sum | call => rfl

/-- Paired functions that take the same number of arguments. -/
def SameArity (P : Pairing) (program program' : Program) (id id' : FunctionId) : Prop :=
  P.function id id' ∧ ∃ f f' args args', program.functions[id]? = some f ∧
    program'.functions[id']? = some f' ∧ program.tables[f.args]? = some args ∧
    program'.tables[f'.args]? = some args' ∧ args.size = args'.size

/-- A function that a global of a complete program holds takes as many arguments as its type says. -/
theorem arity_of_global {s : Scene} {index : Nat} {var : Variable} {id : FunctionId} {type? : Option Term}
    {span : Span} (complete : s.Complete) (found : s.slot? ⟨s.program.globals, index⟩ = some var)
    (held : var.value? = some ⟨.function id, type?, span⟩) :
    ∃ f table args result typeSpan, s.program.functions[id]? = some f ∧
      s.program.tables[f.args]? = some table ∧
      type? = some (.untyped (.functionType args result) typeSpan) ∧ table.size = args.length := by
  have isValue := ((complete.sound.slots _ var _ found complete.sound.globals).value _ held).1
  cases isValue with
  | type inTables => cases inTables
  | function functionAt argsAt localsAt tableAt types =>
      refine ⟨_, _, _, _, _, functionAt, tableAt, rfl, ?_⟩
      have lengths := congrArg List.length types
      simpa using lengths

/-- Paired globals hold functions together, of the same number of arguments. -/
theorem function?_alike {s s' : Scene} {index index' : Nat} {var var' : Variable} (strict : P.Strict)
    (complete : s.Complete) (complete' : s'.Complete)
    (found : s.slot? ⟨s.program.globals, index⟩ = some var)
    (found' : s'.slot? ⟨s'.program.globals, index'⟩ = some var')
    (slots : P.SlotLike ⟨s.program.globals, index⟩ var var') :
    Option.Rel (SameArity P s.program s'.program) var.function? var'.function? := by
  have values := slots.values.resolve_left (strict _)
  rcases optionRel_cases values with ⟨empty, empty'⟩ | ⟨value, value', held, held', values⟩
  · simp only [Variable.function?, empty, empty']
    exact .none
  · simp only [Variable.function?, held, held']
    cases values with
    | function paired types =>
        obtain ⟨f, table, args, result, span, functionAt, tableAt, typeEq, size⟩ :=
          arity_of_global complete found held
        obtain ⟨f', table', args', result', span', functionAt', tableAt', typeEq', size'⟩ :=
          arity_of_global complete' found' held'
        cases typeEq
        cases typeEq'
        have lengths := (Pairing.typeLike_functionType_iff.mp types).1.length_eq
        exact .some ⟨paired, f, f', table, table', functionAt, functionAt', tableAt, tableAt',
          size.trans (lengths.trans size'.symm)⟩
    | type types noName =>
        cases types with
        | void | u64 | functionType => exact .none
        | «variable» => exact absurd rfl (noName _)
    | int | «variable» | sum | call => exact .none

theorem entries_alike {globals globals' : VariableTable}
    (globalsAt : program.tables[program.globals]? = some globals)
    (globalsAt' : program'.tables[program'.globals]? = some globals')
    (points : Option.Rel (SameArity P program program') (entryPoint? globals) (entryPoint? globals')) :
    EntriesAlike P program.entry program'.entry := by
  unfold entry globalVars table
  rw [fetch_eq_ok_iff.mpr globalsAt, fetch_eq_ok_iff.mpr globalsAt']
  simp only [Except.mapError, Bind.bind, Except.bind]
  generalize entryPoint? globals = id? at points ⊢
  generalize entryPoint? globals' = id?' at points ⊢
  cases points with
  | none => exact .reported
  | some sameArity =>
      obtain ⟨paired, f, f', args, args', functionAt, functionAt', tableAt, tableAt', size⟩ := sameArity
      simp only [function, fetch_eq_ok_iff.mpr functionAt, fetch_eq_ok_iff.mpr functionAt',
        fetch_eq_ok_iff.mpr tableAt, fetch_eq_ok_iff.mpr tableAt', size]
      split
      · exact .found paired
      · exact .reported

end Program

end Rill

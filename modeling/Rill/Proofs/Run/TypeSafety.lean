import Mathlib
import Rill.Pipeline
import Rill.Proofs.Basic
import Rill.Proofs.Build.Programs
import Rill.Proofs.Run.Logic

/-!
# Type safety of runs

The builder leaves three things to the author of a source: that a function with a result returns one,
that an assignment respects the type of its target, and that no variable has type `void`. A program
that keeps these rules is `Program.Disciplined`. Running it meets no fault (`run_meets_no_fault`).

The argument relates values to types up to places (`Term.bare`).

* A scope is live when everything in it has a value: it has no arguments in it.
* `Scene.Result` says what the evaluation of a term of a given type gives.
* `Scene.StoreOk` says that every live variable with a type holds a term of that type.
* `evaluates` carries both through an evaluation, by induction on the fuel.
-/

namespace Rill

/-- The rules that the builder does not check. -/
structure Program.Disciplined (program : Program) : Prop where
  /-- A function with a result has a return with a value among its statements. -/
  returns : ∀ f ∈ program.functions, f.result.shape ≠ .void →
    ∃ statement ∈ f.body, ∃ value, statement.shape = .returnWith (some value)
  /-- The target of an assignment has a type, and the assigned value satisfies it. -/
  assigns : ∀ f ∈ program.functions, ∀ statement ∈ f.body, ∀ target value,
    statement.shape = .assign target value →
      ∃ var type, program.var target = .ok var ∧ var.type? = some type ∧
        type.satisfies value = .ok true
  /-- No global and no local variable has type `void`. -/
  noVoid : ∀ t : TableId, (t = program.globals ∨ ∃ f ∈ program.functions, f.locals = t) →
    ∀ table, program.tables[t]? = some table → ∀ var ∈ table, ∀ type, var.type? = some type →
      type.shape ≠ .void

namespace Program

/-- Whether a statement returns a value. -/
def isValueReturn (statement : Term) : Bool :=
  match statement.shape with
  | .returnWith (some _) => true
  | _ => false

/-- Whether a statement respects the type of the variable it assigns, if it assigns one. -/
def assignsInType (program : Program) (statement : Term) : Bool :=
  match statement.shape with
  | .assign target value =>
      match program.var target with
      | .ok ⟨_, _, some type, _⟩ => (type.satisfies value).toOption.getD false
      | _ => false
  | _ => true

/-- Whether no variable of a table has type `void`. -/
def noVoidIn (program : Program) (t : TableId) : Bool :=
  (program.tables[t]?.getD #[]).all fun var => (var.type?.map (·.shape.isVoid)).getD false = false

theorem isVoid_iff {type : Term} : type.shape.isVoid = true ↔ type.shape = .void := by
  cases type.shape <;> simp [Term.Shape.isVoid]

theorem isValueReturn_iff {statement : Term} :
    isValueReturn statement = true ↔ ∃ value, statement.shape = .returnWith (some value) := by
  unfold isValueReturn
  split <;> simp_all

theorem assignsInType_iff {program : Program} {statement : Term} :
    program.assignsInType statement = true ↔ ∀ target value, statement.shape = .assign target value →
      ∃ var type, program.var target = .ok var ∧ var.type? = some type ∧
        type.satisfies value = .ok true := by
  unfold assignsInType
  split
  · next target value shape =>
    simp only [shape, Term.Shape.assign.injEq, and_imp]
    split
    · next name nameSpan type value? found =>
      cases satisfied : type.satisfies value <;> simp [found, satisfied, Except.toOption]
    · next other =>
      simp only [Bool.false_eq_true, false_iff]
      intro holds
      obtain ⟨⟨name, nameSpan, _, value?⟩, type, found, rfl, _⟩ := holds target value rfl rfl
      exact other _ _ _ _ found
  · next other =>
    simp only [true_iff]
    intro target value shape
    exact absurd shape (other target value)

theorem noVoidIn_iff {program : Program} {t : TableId} :
    program.noVoidIn t = true ↔ ∀ table, program.tables[t]? = some table → ∀ var ∈ table,
      ∀ type, var.type? = some type → type.shape ≠ .void := by
  unfold noVoidIn
  cases program.tables[t]? with
  | none => simp
  | some table =>
      simp only [Option.getD_some, Array.all_eq_true_iff_forall_mem, decide_eq_true_eq,
        Option.some.injEq, forall_eq']
      refine forall_congr' fun var => imp_congr_right fun _ => ?_
      cases var.type? with
      | none => simp
      | some type => simp [← isVoid_iff]

theorem disciplined_iff {program : Program} :
    program.Disciplined ↔
      (∀ f ∈ program.functions, f.result.shape.isVoid = false → f.body.any isValueReturn = true) ∧
      (∀ f ∈ program.functions, ∀ statement ∈ f.body, program.assignsInType statement = true) ∧
      program.noVoidIn program.globals = true ∧
      ∀ f ∈ program.functions, program.noVoidIn f.locals = true := by
  constructor
  · rintro ⟨returns, assigns, noVoid⟩
    refine ⟨fun f member notVoid => ?_, fun f member statement inBody => ?_, ?_, fun f member => ?_⟩
    · obtain ⟨statement, inBody, isReturn⟩ := returns f member (by simp [← isVoid_iff, notVoid])
      exact List.any_eq_true.mpr ⟨statement, inBody, isValueReturn_iff.mpr isReturn⟩
    · exact assignsInType_iff.mpr (assigns f member statement inBody)
    · exact noVoidIn_iff.mpr (noVoid _ (Or.inl rfl))
    · exact noVoidIn_iff.mpr (noVoid _ (Or.inr ⟨f, member, rfl⟩))
  · rintro ⟨returns, assigns, globals, locals⟩
    refine ⟨fun f member notVoid => ?_, fun f member statement inBody => ?_, ?_⟩
    · have any := returns f member (by simpa [← isVoid_iff] using notVoid)
      obtain ⟨statement, inBody, isReturn⟩ := List.any_eq_true.mp any
      exact ⟨statement, inBody, isValueReturn_iff.mp isReturn⟩
    · exact assignsInType_iff.mp (assigns f member statement inBody)
    · rintro t (rfl | ⟨f, member, rfl⟩)
      · exact noVoidIn_iff.mp globals
      · exact noVoidIn_iff.mp (locals f member)

instance : DecidablePred Disciplined :=
  fun _ => decidable_of_iff _ disciplined_iff.symm

theorem entryPoint_of_entry {program : Program} {globals : VariableTable} {id : FunctionId}
    (globalsAt : program.globalVars = .ok globals) (entered : program.entry = .ok id) :
    entryPoint? globals = some id := by
  unfold entry at entered
  simp only [globalsAt, Except.mapError, bind, Except.bind] at entered
  split at entered
  · cases entered
  · next id' entry =>
    split at entered
    · cases entered
    · split at entered
      · cases entered
      · split at entered
        · cases entered
          exact entry
        · cases entered

/-- The entry point is a function that a global holds. -/
theorem exists_entry_global {tables : Array VariableTable} {t : TableId} {globals : VariableTable}
    {id : FunctionId} (globalsAt : tables[t]? = some globals)
    (entry : entryPoint? globals = some id) :
    ∃ index var type? span, slotIn? tables ⟨t, index⟩ = some var ∧
      var.value? = some ⟨.function id, type?, span⟩ := by
  obtain ⟨var, member, isEntry⟩ := List.exists_of_findSome?_eq_some entry
  obtain ⟨index, inBounds, varAt⟩ := List.mem_iff_getElem.mp (List.mem_reverse.mp member)
  have slotAt : slotIn? tables ⟨t, index⟩ = some var := by
    refine slotIn?_eq_some_iff.mpr ⟨globals, globalsAt, ?_⟩
    rw [← Array.getElem?_toList, List.getElem?_eq_getElem inBounds, varAt]
  unfold Variable.function? at isEntry
  split at isEntry
  · split at isEntry
    · next held =>
      cases isEntry
      exact ⟨index, var, _, _, slotAt, held⟩
    · cases isEntry
  · cases isEntry

end Program

namespace Term

variable {a b : Term}

theorem void_of_bare (equal : a.bare = b.bare) (isVoid : a.shape = .void) : b.shape = .void := by
  rw [bare_eq_iff, isVoid] at equal
  cases shape : b.shape <;> simp_all [bareShape]

theorem u64_of_bare (equal : a.bare = b.bare) (isU64 : a.shape = .u64) : b.shape = .u64 := by
  rw [bare_eq_iff, isU64] at equal
  cases shape : b.shape <;> simp_all [bareShape]

end Term

namespace Scene

variable {s : Scene} {chain : ScopeChain} {term type value : Term}

/-! ## Live scopes -/

/-- A scope in which code can run: the chain of a table, with a value for every variable in it. -/
structure Live (s : Scene) (chain : ScopeChain) : Prop where
  frame : ∃ (t : TableId) (role : Role), s.frames[t]? = some ⟨role, chain⟩
  bound : ∀ ref var, ref.table ∈ chain → s.slot? ref = some var → ∃ value, var.value? = some value

/-- The scope of a table that is in a live scope is live. -/
theorem Live.inner (live : s.Live chain) (sound : s.Sound) {t : TableId} (member : t ∈ chain) :
    ∃ role inner, s.frames[t]? = some ⟨role, inner⟩ ∧ s.Live inner := by
  obtain ⟨u, role, frameAt⟩ := live.frame
  obtain ⟨⟨innerRole, inner⟩, innerAt, subset⟩ := (sound.chains u _ frameAt).2 t member
  refine ⟨innerRole, inner, innerAt, ⟨t, innerRole, innerAt⟩, fun ref var inInner found => ?_⟩
  exact live.bound ref var (subset inInner) found

theorem Complete.live_globals (complete : s.Complete) : s.Live [s.program.globals] := by
  refine ⟨⟨_, _, complete.sound.globals⟩, ?_⟩
  rintro ⟨t, index⟩ var member found
  cases List.mem_singleton.mp member
  exact complete.bound index var found

/-- The body of a function without arguments runs in a live scope if the function was made in one. -/
theorem Live.body (live : s.Live chain) (sound : s.Sound) {f : Function}
    (localsAt : s.frames[f.locals]? = some ⟨.locals, f.locals :: f.args :: chain⟩)
    (noArgs : s.program.tables[f.args]? = some #[]) : s.Live (f.locals :: f.args :: chain) := by
  refine ⟨⟨_, _, localsAt⟩, ?_⟩
  rintro ⟨t, index⟩ var member found
  rcases List.mem_cons.mp member with isLocals | inOuter
  · cases isLocals
    exact (sound.slots _ var _ found localsAt).isBound rfl
  · rcases List.mem_cons.mp inOuter with isArgs | inChain
    · cases isArgs
      obtain ⟨table, tableAt, varAt⟩ := slotIn?_eq_some_iff.mp found
      cases noArgs.symm.trans tableAt
      simp at varAt
    · exact live.bound _ var inChain found

/-! ## Types and results -/

/-- The type, up to places, that the value of a term will have: the recorded one, the type of the
variable, or the result type of the called variable. -/
inductive HasType (s : Scene) : Term → Term → Prop
  | recorded {term type found : Term} :
      term.type? = some found → found.bare = type.bare → s.HasType term type
  | variable {ref : VarRef} {var : Variable} {type? : Option Term} {span : Span} {type : Term} :
      s.slot? ref = some var → var.type? = some type → s.HasType ⟨.variable ref, type?, span⟩ type
  | call {ref : VarRef} {var : Variable} {calleeType? type? inner : Option Term}
      {calleeSpan typeSpan span : Span} {result : Term} :
      s.slot? ref = some var → var.type? = some ⟨.functionType [] result, inner, typeSpan⟩ →
      s.HasType ⟨.call ⟨.variable ref, calleeType?, calleeSpan⟩ [], type?, span⟩ result

/-- A term that can be evaluated anywhere: a value of a live scope. -/
def Runnable (s : Scene) (term : Term) : Prop :=
  ∃ chain, s.Live chain ∧ s.Value chain term

/-- What the evaluation of a term gives, by the type of the term. -/
inductive Result (s : Scene) (type : Term) : Term → Prop
  | void {span : Span} : type.shape = .void → s.Result type (.voidAt span)
  | int {value : UInt64} {span : Span} : type.shape = .u64 → s.Result type (.intAt value span)
  | function {chain : ScopeChain} {id : FunctionId} {found : Term} {span : Span} :
      s.Live chain → s.Value chain ⟨.function id, some found, span⟩ → found.bare = type.bare →
      s.Result type ⟨.function id, some found, span⟩

theorem Result.congr {type' : Term} (equal : type.bare = type'.bare) (result : s.Result type value) :
    s.Result type' value := by
  cases result with
  | void isVoid => exact .void (Term.void_of_bare equal isVoid)
  | int isU64 => exact .int (Term.u64_of_bare equal isU64)
  | function live isValue same => exact .function live isValue (same.trans equal)

/-- The type recorded in a function value is a function type. -/
theorem Value.function_type {id : FunctionId} {found : Term} {span : Span}
    (isValue : s.Value chain ⟨.function id, some found, span⟩) :
    ∃ argTypes result typeSpan, found = .untyped (.functionType argTypes result) typeSpan := by
  cases isValue with
  | type inTables => cases inTables
  | function => exact ⟨_, _, _, rfl⟩

theorem Result.int_of_u64 (result : s.Result type value) (isU64 : type.shape = .u64) :
    ∃ n span, value = .intAt n span := by
  cases result with
  | void isVoid => cases isU64.symm.trans isVoid
  | int => exact ⟨_, _, rfl⟩
  | function _ isValue same =>
      obtain ⟨argTypes, result, typeSpan, rfl⟩ := isValue.function_type
      cases Term.u64_of_bare same.symm isU64

/-- What a variable may hold: with a type, a runnable term of that type. -/
def Holds (s : Scene) (var : Variable) (value : Term) : Prop :=
  ∀ type, var.type? = some type →
    s.Runnable value ∧ ∃ found, value.type? = some found ∧ found.bare = type.bare

theorem Result.holds {var : Variable} (complete : s.Complete) (result : s.Result type value)
    (notVoid : type.shape ≠ .void) (typed : ∀ type', var.type? = some type' → type'.bare = type.bare) :
    s.Holds var value := by
  intro type' varType
  have equal := typed type' varType
  cases result with
  | void isVoid => exact absurd isVoid notVoid
  | int isU64 =>
      refine ⟨⟨_, complete.live_globals, .int⟩, _, rfl, ?_⟩
      rw [equal, Term.bare_eq_iff, isU64]
      rfl
  | function live isValue same => exact ⟨⟨_, live, isValue⟩, _, rfl, same.trans equal.symm⟩

/-! ## Stores -/

/-- The store has the variables of the program, and every live one holds what it may hold. -/
def StoreOk (s : Scene) (store : Store) : Prop :=
  ∀ ref var, s.slot? ref = some var → ∃ value?,
    slotIn? store.tables ref = some { var with value? } ∧
    ∀ role chain, s.frames[ref.table]? = some ⟨role, chain⟩ → s.Live chain →
      ∃ value, value? = some value ∧ s.Holds var value

theorem Complete.storeOk (complete : s.Complete) (output : String) :
    s.StoreOk ⟨s.program.tables, output⟩ := by
  intro ref var found
  refine ⟨var.value?, found, fun role chain frameAt live => ?_⟩
  have head := (complete.sound.chains _ _ frameAt).1
  obtain ⟨value, held⟩ := live.bound ref var (List.mem_of_mem_head? head) found
  refine ⟨value, held, fun type typed => ?_⟩
  obtain ⟨isValue, agrees⟩ := (complete.sound.slots ref var _ found frameAt).value value held
  refine ⟨⟨chain, live, isValue⟩, ?_⟩
  rw [Agrees, typed, Option.map_some] at agrees
  obtain ⟨found', foundEq, bareEq⟩ := Option.map_eq_some_iff.mp agrees.symm
  exact ⟨found', foundEq, bareEq⟩

theorem StoreOk.read {store : Store} {ref : VarRef} {var : Variable} (ok : s.StoreOk store)
    (sound : s.Sound) (live : s.Live chain) (inChain : ref.table ∈ chain)
    (found : s.slot? ref = some var) :
    ∃ value, slotIn? store.tables ref = some { var with value? := some value } ∧ s.Holds var value := by
  obtain ⟨role, inner, frameAt, innerLive⟩ := live.inner sound inChain
  obtain ⟨value?, stored, holds⟩ := ok ref var found
  obtain ⟨value, rfl, held⟩ := holds role inner frameAt innerLive
  exact ⟨value, stored, held⟩

theorem StoreOk.write {store : Store} {target : VarRef} {var : Variable} (ok : s.StoreOk store)
    (found : s.slot? target = some var) (holds : s.Holds var value) :
    s.StoreOk { store with tables := Eval.written store.tables target value } := by
  intro ref other otherAt
  obtain ⟨value?, stored, held⟩ := ok ref other otherAt
  rw [Eval.slotIn?_written]
  by_cases same : ref = target
  · subst same
    cases found.symm.trans otherAt
    refine ⟨some value, ?_, fun _ _ _ _ => ⟨value, rfl, holds⟩⟩
    rw [if_pos rfl, stored, Option.map_some]
  · exact ⟨value?, by rw [if_neg same, stored], held⟩

/-! ## Statements -/

/-- The evaluation gives typed terms their results, and keeps the store. -/
def Evaluates (s : Scene) (evaluate : Term → Eval Term) : Prop :=
  ∀ term type store, s.StoreOk store → s.Runnable term → s.HasType term type →
    Eval.wp (evaluate term) (fun value after => s.StoreOk after ∧ s.Result type value) store

/-- The type of a value that satisfies a type. -/
theorem Value.hasType_of_satisfies (sound : s.Sound) (isValue : s.Value chain value)
    (typeIn : TypeIn s.program.tables type) (satisfied : type.satisfies value = .ok true) :
    s.HasType value type ∧ type.shape ≠ .void := by
  have valueType : ∀ found, value.type? = some found → found.IsType :=
    fun found equal => (isValue.type_in sound equal).isType
  rcases Term.satisfies_bare typeIn.isType valueType satisfied with
    ⟨isU64, n, isInt⟩ | ⟨notVoid, found, foundEq, bareEq⟩
  · obtain ⟨span, rfl⟩ := isValue.int_type isInt
    refine ⟨.recorded rfl ?_, by simp [isU64]⟩
    rw [Term.bare_eq_iff, isU64]
    rfl
  · exact ⟨.recorded foundEq bareEq, notVoid⟩

/-- A call has the result type of its callee. -/
theorem Value.call_hasType (complete : s.Complete) {callee : Term} {params : List Term}
    {type? : Option Term} {span : Span} (isValue : s.Value chain ⟨.call callee params, type?, span⟩) :
    ∃ result, s.HasType ⟨.call callee params, type?, span⟩ result := by
  cases isValue with
  | type inTables => cases inTables
  | call _ callType =>
      obtain ⟨var, result, inner, typeSpan, found, typed, _⟩ := complete.callType callType
      exact ⟨result, .call found typed⟩

/-- A local binding that is computed has a value with a type; it may be missing in the term only where
the value is a call. -/
theorem Value.local_hasType (complete : s.Complete) (isValue : s.Value chain value)
    (names : value.namesType = false) : ∃ type, s.HasType value type := by
  cases isValue with
  | int => exact ⟨_, .recorded rfl rfl⟩
  | type inTables noName =>
      cases inTables <;> simp_all [Term.namesType, Term.voidAt, Term.u64At, Term.untyped]
  | @«variable» ref var type? span _ found typed =>
      cases type? with
      | none => simp [Term.namesType] at names
      | some type => exact ⟨type, .recorded rfl rfl⟩
  | function => exact ⟨_, .recorded rfl rfl⟩
  | sum => exact ⟨_, .recorded rfl rfl⟩
  | call callee callType => exact (Value.call callee callType).call_hasType complete

/-- What running statements of a function leaves: a returned value has the result type, and the end is
reached only if none of the statements returns a value. -/
def Ran (s : Scene) (result : Term) (body : List Term) (returned : Option Term) (after : Store) : Prop :=
  s.StoreOk after ∧ match returned with
    | some value => s.Result result value
    | none => ∀ statement ∈ body, ∀ value, statement.shape ≠ .returnWith (some value)

theorem Ran.cons {result statement : Term} {body : List Term} {returned : Option Term} {after : Store}
    (noReturn : ∀ value, statement.shape ≠ .returnWith (some value))
    (ran : s.Ran result body returned after) : s.Ran result (statement :: body) returned after := by
  refine ⟨ran.1, ?_⟩
  cases returned with
  | some value => exact ran.2
  | none =>
      intro other member
      rcases List.mem_cons.mp member with isFirst | later
      · exact isFirst ▸ noReturn
      · exact ran.2 other later

section Statements

variable {evaluate : Term → Eval Term} {result statement : Term} {rest : List Term} {store : Store}

/-- The statements after one that neither returns nor stops. -/
def RanAfter (s : Scene) (evaluate : Term → Eval Term) (result : Term) (rest : List Term) : Prop :=
  ∀ store, s.StoreOk store → Eval.wp (Eval.runStatements evaluate rest) (s.Ran result rest) store

theorem RanAfter.cons (next : s.RanAfter evaluate result rest) (ok : s.StoreOk store)
    (noReturn : ∀ value, statement.shape ≠ .returnWith (some value)) :
    Eval.wp (Eval.runStatements evaluate rest) (s.Ran result (statement :: rest)) store :=
  Eval.wp_mono (next store ok) fun _ _ ran => ran.cons noReturn

theorem wp_printStatement {operand : Term} {span : Span} (evaluates : s.Evaluates evaluate)
    (next : s.RanAfter evaluate result rest) (ok : s.StoreOk store) (live : s.Live chain)
    (isValue : s.Value chain operand) (isU64 : Term.isU64? operand.type? = true) :
    Eval.wp (Eval.runStatements evaluate (.untyped (.printU64 operand) span :: rest))
      (s.Ran result (.untyped (.printU64 operand) span :: rest)) store := by
  obtain ⟨type, typed, typeShape⟩ := Term.isU64?_iff.mp isU64
  rw [Eval.runStatements]
  simp only [Term.untyped, Eval.wp_bind]
  refine Eval.wp_mono (evaluates operand type store ok ⟨chain, live, isValue⟩ (.recorded typed rfl)) ?_
  intro value after ⟨ok', isResult⟩
  obtain ⟨n, valueSpan, rfl⟩ := isResult.int_of_u64 typeShape
  simp only [Term.intAt, Term.typed, Eval.wp_bind, Eval.wp_print]
  exact next.cons ok' (by simp)

theorem wp_callStatement {callee : Term} {params : List Term} {type? : Option Term} {span : Span}
    (complete : s.Complete) (evaluates : s.Evaluates evaluate)
    (next : s.RanAfter evaluate result rest) (ok : s.StoreOk store) (live : s.Live chain)
    (isValue : s.Value chain ⟨.call callee params, type?, span⟩) :
    Eval.wp (Eval.runStatements evaluate (⟨.call callee params, type?, span⟩ :: rest))
      (s.Ran result (⟨.call callee params, type?, span⟩ :: rest)) store := by
  obtain ⟨type, typed⟩ := isValue.call_hasType complete
  rw [Eval.runStatements]
  simp only [Eval.wp_bind]
  refine Eval.wp_mono (evaluates _ type store ok ⟨chain, live, isValue⟩ typed) ?_
  rintro value after ⟨ok', _⟩
  exact next.cons ok' (by simp)

/-- Computing a value and storing it in a variable. -/
theorem wp_store {value : Term} {target : VarRef} {var : Variable} (complete : s.Complete)
    (evaluates : s.Evaluates evaluate) (next : s.RanAfter evaluate result rest)
    (ok : s.StoreOk store) (live : s.Live chain) (isValue : s.Value chain value)
    (found : s.slot? target = some var) (typed : s.HasType value type)
    (fits : ∀ varType, var.type? = some varType → varType.bare = type.bare ∧ type.shape ≠ .void)
    (noReturn : ∀ value, statement.shape ≠ .returnWith (some value)) :
    Eval.wp (evaluate value >>= fun value => Eval.writeVar target value >>= fun _ =>
        Eval.runStatements evaluate rest) (s.Ran result (statement :: rest)) store := by
  rw [Eval.wp_bind]
  refine Eval.wp_mono (evaluates value type store ok ⟨chain, live, isValue⟩ typed) ?_
  intro computed after ⟨ok', isResult⟩
  obtain ⟨value?, stored, _⟩ := ok' target var found
  rw [Eval.wp_bind, Eval.wp_writeVar]
  refine ⟨⟨_, stored⟩, next.cons (ok'.write found fun varType varTyped => ?_) noReturn⟩
  obtain ⟨equal, notVoid⟩ := fits varType varTyped
  refine isResult.holds complete notVoid (fun other otherTyped => ?_) varType varTyped
  exact (fits other otherTyped).1

theorem wp_statement (complete : s.Complete) (evaluates : s.Evaluates evaluate)
    (next : s.RanAfter evaluate result rest) (ok : s.StoreOk store) (live : s.Live chain)
    (isStatement : s.Statement chain result statement) (resultIn : TypeIn s.program.tables result)
    (assigns : ∀ target value, statement.shape = .assign target value →
      ∃ var type, s.slot? target = some var ∧ var.type? = some type ∧ type.satisfies value = .ok true)
    (noVoid : ∀ ref var varType, chain.head? = some ref.table → s.slot? ref = some var →
      var.type? = some varType → varType.shape ≠ .void) :
    Eval.wp (Eval.runStatements evaluate (statement :: rest)) (s.Ran result (statement :: rest))
      store := by
  cases isStatement with
  | print isValue isU64 => exact wp_printStatement evaluates next ok live isValue isU64
  | call isValue => exact wp_callStatement complete evaluates next ok live isValue
  | @assign target var value span inChain found isValue =>
      obtain ⟨var', varType, found', varTyped, satisfied⟩ := assigns target value rfl
      have typeIn := complete.sound.slot_type found' varTyped
      obtain ⟨typed, notVoid⟩ := isValue.hasType_of_satisfies complete.sound typeIn satisfied
      rw [Eval.runStatements]
      refine wp_store complete evaluates next ok live isValue found' typed ?_ (by simp [Term.untyped])
      intro other otherTyped
      cases varTyped.symm.trans otherTyped
      exact ⟨rfl, notVoid⟩
  | @define target var value span head found bound isValue names =>
      obtain ⟨⟨role, inner⟩, frameAt⟩ := complete.sound.frame_of_slot found
      have agrees := ((complete.sound.slots target var _ found frameAt).value value bound).2
      rw [Eval.runStatements]
      cases varTyped : var.type? with
      | none =>
          -- The value is a call that was judged late; nothing reads the variable.
          obtain ⟨type, typed⟩ := isValue.local_hasType complete names
          refine wp_store complete evaluates next ok live isValue found typed ?_ (by simp [Term.untyped])
          intro other otherTyped
          cases varTyped.symm.trans otherTyped
      | some varType =>
          rw [Agrees, varTyped, Option.map_some] at agrees
          obtain ⟨found', foundEq, bareEq⟩ := Option.map_eq_some_iff.mp agrees.symm
          refine wp_store complete evaluates next ok live isValue found (.recorded foundEq bareEq) ?_
            (by simp [Term.untyped])
          intro other otherTyped
          cases varTyped.symm.trans otherTyped
          exact ⟨rfl, noVoid target var varType head found varTyped⟩
  | bareReturn isVoid =>
      rw [Eval.runStatements]
      exact ⟨ok, .void isVoid⟩
  | @valueReturn value span isValue satisfied =>
      obtain ⟨typed, _⟩ := isValue.hasType_of_satisfies complete.sound resultIn satisfied
      rw [Eval.runStatements]
      simp only [Term.untyped, Eval.wp_bind, Eval.wp_pure]
      refine Eval.wp_mono (evaluates value result store ok ⟨chain, live, isValue⟩ typed) ?_
      exact fun _ _ isResult => isResult

end Statements

/-! ## Calls and terms -/

/-- A function of the program, run in a live scope, gives a result of its type. -/
theorem wp_callWith {evaluate : Term → Eval Term} {store : Store} {id : FunctionId} {f : Function}
    (complete : s.Complete) (disciplined : s.program.Disciplined) (evaluates : s.Evaluates evaluate)
    (ok : s.StoreOk store) (live : s.Live chain) (found : s.program.functions[id]? = some f)
    (localsAt : s.frames[f.locals]? = some ⟨.locals, f.locals :: f.args :: chain⟩)
    (noArgs : s.program.tables[f.args]? = some #[]) :
    Eval.wp (Eval.callWith evaluate s.program.functions id)
      (fun value after => s.StoreOk after ∧ s.Result f.result value) store := by
  have member : f ∈ s.program.functions := Array.mem_of_getElem? found
  obtain ⟨outer, function⟩ := complete.sound.functions id f found
  have sameOuter : f.locals :: f.args :: outer = f.locals :: f.args :: chain := by
    cases function.locals.symm.trans localsAt
    rfl
  have bodyLive := live.body complete.sound localsAt noArgs
  have noVoid : ∀ ref var varType, (f.locals :: f.args :: chain).head? = some ref.table →
      s.slot? ref = some var → var.type? = some varType → varType.shape ≠ .void := by
    intro ref var varType head varAt varTyped
    obtain ⟨table, tableAt, inTable⟩ := slotIn?_eq_some_iff.mp varAt
    exact disciplined.noVoid ref.table (Or.inr ⟨f, member, Option.some.inj head⟩) table tableAt var
      (Array.mem_of_getElem? inTable) varType varTyped
  -- The induction is on a final part of the body: each statement is run with the rest after it.
  have runs : ∀ body, body <:+ f.body → s.RanAfter evaluate f.result body := by
    intro body
    induction body with
    | nil => exact fun _ store ok => ⟨ok, by simp⟩
    | cons statement rest ih =>
        intro suffix store ok
        have inBody : statement ∈ f.body := suffix.subset (by simp)
        have isStatement := function.body statement inBody
        rw [sameOuter] at isStatement
        refine wp_statement complete evaluates (ih ((List.suffix_cons _ _).trans suffix)) ok bodyLive
          isStatement function.result (fun target value shape => ?_) noVoid
        obtain ⟨var, varType, varAt, rules⟩ :=
          disciplined.assigns f member statement inBody target value shape
        exact ⟨var, varType, Program.var_eq_ok_iff.mp varAt, rules⟩
  unfold Eval.callWith
  rw [Eval.wp_bind, Eval.wp_ofFault]
  refine ⟨f, fetch_eq_ok_iff.mpr found, ?_⟩
  rw [Eval.wp_bind]
  refine Eval.wp_mono (runs f.body (List.suffix_refl _) store ok) ?_
  rintro (_ | value) after ⟨ok', ran⟩
  · refine ⟨ok', .void ?_⟩
    by_contra notVoid
    obtain ⟨statement, inBody, value, shape⟩ := disciplined.returns f member notVoid
    exact ran statement inBody value shape
  · exact ⟨ok', ran⟩

/-- A function value whose type takes no arguments can be called, and its result type is known. -/
theorem Value.callable {id : FunctionId} {found resultType : Term} {inner : Option Term}
    {span typeSpan : Span} (isValue : s.Value chain ⟨.function id, some found, span⟩)
    (same : found.bare = Term.bare ⟨.functionType [] resultType, inner, typeSpan⟩) :
    ∃ f, s.program.functions[id]? = some f ∧
      s.frames[f.locals]? = some ⟨.locals, f.locals :: f.args :: chain⟩ ∧
      s.program.tables[f.args]? = some #[] ∧ f.result.bare = resultType.bare := by
  cases isValue with
  | type inTables => cases inTables
  | @function _ f table argTypes _ function argsAt localsAt tableAt types =>
      simp only [Term.bare_eq_iff, Term.untyped, Term.bareShape, Term.Shape.functionType.injEq,
        Term.bareList_eq_map, List.map_nil, List.map_eq_nil_iff] at same
      obtain ⟨rfl, sameResult⟩ := same
      have empty : table = #[] := by simpa using types
      subst empty
      exact ⟨f, function, localsAt, tableAt, Term.bare_eq_iff.mpr sameResult⟩

theorem Result.callable {resultType : Term} {inner : Option Term} {typeSpan : Span}
    (result : s.Result ⟨.functionType [] resultType, inner, typeSpan⟩ value) :
    ∃ id f chain, value.shape = .function id ∧ s.program.functions[id]? = some f ∧ s.Live chain ∧
      s.frames[f.locals]? = some ⟨.locals, f.locals :: f.args :: chain⟩ ∧
      s.program.tables[f.args]? = some #[] ∧ f.result.bare = resultType.bare := by
  cases result with
  | void isVoid => cases isVoid
  | int isU64 => cases isU64
  | @function chain id found span live isValue same =>
      obtain ⟨f, function, localsAt, noArgs, sameResult⟩ := isValue.callable same
      exact ⟨id, f, chain, rfl, function, live, localsAt, noArgs, sameResult⟩

theorem evaluates (complete : s.Complete) (disciplined : s.program.Disciplined) (fuel : Nat) :
    s.Evaluates (Eval.evaluate s.program.functions fuel) := by
  induction fuel with
  | zero =>
      intro term type store _ _ _
      rw [Eval.evaluate]
      exact trivial
  | succ fuel ih =>
      intro term type store ok runnable hasType
      obtain ⟨chain, live, isValue⟩ := runnable
      rw [Eval.evaluate]
      cases isValue with
      | int =>
          cases hasType with
          | recorded typed same =>
              cases typed
              exact ⟨ok, .int (Term.u64_of_bare same rfl)⟩
      | type inTables noName =>
          cases inTables with
          | «variable» => exact absurd rfl (noName _)
          | void | u64 | functionType =>
              cases hasType with
              | recorded typed same => cases typed
      | @«variable» ref var type? span inChain found typed =>
          have varType : ∃ varType, var.type? = some varType ∧ varType.bare = type.bare := by
            cases hasType with
            | recorded recorded same => exact ⟨_, typed _ recorded, same⟩
            | «variable» found' varTyped =>
                cases found.symm.trans found'
                exact ⟨type, varTyped, rfl⟩
          obtain ⟨varType, varTyped, same⟩ := varType
          obtain ⟨held, stored, holds⟩ := ok.read complete.sound live inChain found
          obtain ⟨runnable, recorded, recordedEq, recordedSame⟩ := holds varType varTyped
          simp only [Eval.wp_bind, Eval.wp_readVar]
          exact ⟨_, stored, ih held type store ok runnable
            (.recorded recordedEq (recordedSame.trans same))⟩
      | function found argsAt localsAt tableAt types =>
          cases hasType with
          | recorded typed same =>
              cases typed
              exact ⟨ok, .function live (.function found argsAt localsAt tableAt types) same⟩
      | @sum left right span isLeft isRight leftU64 rightU64 =>
          obtain ⟨leftType, leftTyped, leftShape⟩ := Term.isU64?_iff.mp leftU64
          obtain ⟨rightType, rightTyped, rightShape⟩ := Term.isU64?_iff.mp rightU64
          have isU64 : type.shape = .u64 := by
            cases hasType with
            | recorded typed same =>
                cases typed
                exact Term.u64_of_bare same rfl
          simp only [Term.typed, Eval.wp_bind]
          refine Eval.wp_mono (ih left leftType store ok ⟨chain, live, isLeft⟩
            (.recorded leftTyped rfl)) ?_
          rintro leftValue middle ⟨ok', leftResult⟩
          refine Eval.wp_mono (ih right rightType middle ok' ⟨chain, live, isRight⟩
            (.recorded rightTyped rfl)) ?_
          rintro rightValue after ⟨ok'', rightResult⟩
          obtain ⟨a, leftSpan, rfl⟩ := leftResult.int_of_u64 leftShape
          obtain ⟨b, rightSpan, rfl⟩ := rightResult.int_of_u64 rightShape
          exact ⟨ok'', .int isU64⟩
      | @call ref calleeType? type? calleeSpan span isCallee callType =>
          obtain ⟨var, result, inner, typeSpan, found, varTyped, only⟩ := complete.callType callType
          have same : result.bare = type.bare := by
            cases hasType with
            | recorded typed same => exact only _ typed ▸ same
            | call found' varTyped' =>
                cases found.symm.trans found'
                cases varTyped.symm.trans varTyped'
                rfl
          simp only [Eval.wp_bind]
          refine Eval.wp_mono (ih _ _ store ok ⟨chain, live, isCallee⟩ (.variable found varTyped)) ?_
          rintro callee after ⟨ok', calleeResult⟩
          obtain ⟨id, f, outer, shape, function, outerLive, localsAt, noArgs, sameResult⟩ :=
            calleeResult.callable
          rw [shape]
          refine Eval.wp_mono (wp_callWith complete disciplined ih ok' outerLive function localsAt noArgs) ?_
          exact fun value last holds => ⟨holds.1, holds.2.congr (sameResult.trans same)⟩

/-! ## Runs -/

/-- The entry point of a complete program is a function value of the globals' scope. -/
theorem Complete.entryPoint {globals : VariableTable} {id : FunctionId} (complete : s.Complete)
    (globalsAt : s.program.tables[s.program.globals]? = some globals)
    (entry : Program.entryPoint? globals = some id) :
    ∃ f table, s.program.functions[id]? = some f ∧ s.program.tables[f.args]? = some table ∧
      s.frames[f.locals]? = some ⟨.locals, [f.locals, f.args, s.program.globals]⟩ := by
  obtain ⟨index, var, type?, span, slotAt, held⟩ := Program.exists_entry_global globalsAt entry
  have isValue := ((complete.sound.slots _ var _ slotAt complete.sound.globals).value _ held).1
  cases isValue with
  | type inTables => cases inTables
  | function found argsAt localsAt tableAt types => exact ⟨_, _, found, tableAt, localsAt⟩

/-- The entry point of a complete program can be called, or is reported as missing or as taking
arguments. -/
theorem Complete.entry (complete : s.Complete) :
    (∃ id f, s.program.entry = .ok id ∧ s.program.functions[id]? = some f ∧
      s.program.tables[f.args]? = some #[] ∧
      s.frames[f.locals]? = some ⟨.locals, [f.locals, f.args, s.program.globals]⟩) ∨
    s.program.entry = .error (.reported .noEntryPoint) ∨
    ∃ n, s.program.entry = .error (.reported (.entryArity n)) := by
  have inFrames := (Array.getElem?_eq_some_iff.mp complete.sound.globals).1
  rw [complete.sound.size] at inFrames
  have globalsAt := Array.getElem?_eq_getElem inFrames
  have globalsEq : s.program.globalVars = .ok s.program.tables[s.program.globals] :=
    fetch_eq_ok_iff.mpr globalsAt
  unfold Program.entry
  rw [globalsEq]
  simp only [Except.mapError, bind, Except.bind]
  cases entryEq : Program.entryPoint? s.program.tables[s.program.globals] with
  | none => exact Or.inr (Or.inl rfl)
  | some id =>
      obtain ⟨f, table, found, tableAt, localsAt⟩ := complete.entryPoint globalsAt entryEq
      have functionEq : s.program.function id = .ok f := fetch_eq_ok_iff.mpr found
      have tableEq : s.program.table f.args = .ok table := fetch_eq_ok_iff.mpr tableAt
      simp only [functionEq, tableEq]
      by_cases empty : table.size = 0
      · rw [if_pos empty]
        cases Array.eq_empty_of_size_eq_zero empty
        exact Or.inl ⟨id, f, rfl, found, tableAt, localsAt⟩
      · rw [if_neg empty]
        exact Or.inr (Or.inr ⟨_, rfl⟩)

end Scene

/-- A program that was accepted was built of the phrases of its source. -/
theorem check_eq_ok {source : String} {program : Program}
    (checked : Pipeline.check source = .ok program) :
    ∃ tree phrases, Pipeline.parse source = .ok tree ∧ tree.topLevel = .ok phrases ∧
      buildPhrases phrases = .ok program := by
  unfold Pipeline.check at checked
  cases parsed : Pipeline.parse source with
  | error failure => simp [parsed, Except.mapError, bind, Except.bind] at checked
  | ok tree =>
      simp only [parsed, Except.mapError, bind, Except.bind, Pipeline.buildTree] at checked
      cases built : build tree with
      | error abort => cases abort <;> simp [built] at checked
      | ok program' =>
          rw [built] at checked
          cases checked
          unfold build at built
          split at built
          · next phrases top => exact ⟨tree, phrases, rfl, top, built⟩
          · cases built

theorem check_built {source : String} {program : Program}
    (checked : Pipeline.check source = .ok program) : ∃ phrases, buildPhrases phrases = .ok program := by
  obtain ⟨_, phrases, _, _, built⟩ := check_eq_ok checked
  exact ⟨phrases, built⟩

/-- A program that was accepted is complete. -/
theorem check_complete {source : String} {program : Program}
    (checked : Pipeline.check source = .ok program) :
    ∃ s : Scene, s.program = program ∧ s.Complete := by
  obtain ⟨phrases, built⟩ := check_built checked
  exact buildPhrases_complete built

/-- Running an accepted program that keeps the rules ends with a result, runs out of fuel, or reports
that `main` is missing or takes arguments: it never meets a fault. -/
theorem run_meets_no_fault {source : String} {program : Program}
    (checked : Pipeline.check source = .ok program) (disciplined : program.Disciplined)
    (fuel : Nat) (output : String) :
    (∃ value, (program.run fuel output).result = .ok value) ∨
    (program.run fuel output).result = .error .outOfFuel ∨
    (program.run fuel output).result = .error (.reported .noEntryPoint) ∨
    ∃ n, (program.run fuel output).result = .error (.reported (.entryArity n)) := by
  obtain ⟨s, rfl, complete⟩ := check_complete checked
  rcases complete.entry with ⟨id, f, entryEq, found, noArgs, localsAt⟩ | noEntry | ⟨n, arity⟩
  · have evaluates := Scene.evaluates complete disciplined fuel
    have ran := Scene.wp_callWith complete disciplined evaluates (complete.storeOk output)
      complete.live_globals found localsAt noArgs
    rw [Program.run_of_entry entryEq, Program.invoke, Eval.call]
    unfold Eval.wp at ran
    split at ran
    · next value after call =>
      rw [call]
      exact Or.inl ⟨value, rfl⟩
    · next after call =>
      rw [call]
      exact Or.inr (Or.inl rfl)
    · exact ran.elim
  · rw [Program.run_of_refused noEntry]
    exact Or.inr (Or.inr (Or.inl rfl))
  · rw [Program.run_of_refused arity]
    exact Or.inr (Or.inr (Or.inr ⟨n, rfl⟩))

/-- A source that calls a name before its value is known, assigns a local variable and reads a global
from a function. -/
def forwardCalls : String :=
  "main :: () -> void \x7b count :: next(); count = count + 1; print_u64 count; late(); \x7d;
   next :: () -> u64 \x7b return base + 1; \x7d;
   base : u64 : 40;
   late :: early;
   early :: () -> void \x7b print_u64 base; \x7d;"

theorem run_forwardCalls_meets_no_fault : ∃ program, Pipeline.check forwardCalls = .ok program ∧
    program.Disciplined ∧ ∀ fuel output,
      (∃ value, (program.run fuel output).result = .ok value) ∨
      (program.run fuel output).result = .error .outOfFuel ∨
      (program.run fuel output).result = .error (.reported .noEntryPoint) ∨
      ∃ n, (program.run fuel output).result = .error (.reported (.entryArity n)) := by
  have accepted : (Pipeline.check forwardCalls).toOption.any (fun program => decide program.Disciplined) =
      true := by
    decide +kernel
  obtain ⟨program, checked, passes⟩ := any_toOption_iff.mp accepted
  have disciplined : program.Disciplined := of_decide_eq_true passes
  exact ⟨program, checked, disciplined, run_meets_no_fault checked disciplined⟩

end Rill

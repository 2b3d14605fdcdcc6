import Mathlib
import Rill.Proofs.Basic
import Rill.Proofs.Build.Lexical
import Rill.Proofs.Run.Invariants
import Rill.Proofs.Run.TypeSafety

/-!
# What calls return

A call is typed by the result type of its function, and nothing looks at the value when the program runs.
`call_returns_promised` says what an accepted program can rely on: in every reachable store, a call that
ends gives a value of the result type, or the `void` of a function of this result type that reached its
end because none of its statements returns a value.

One thing is left to the author of a source: a global may be assigned before its type is known, and then
the builder does not check the assigned value. A program in which these values fit their globals as well
is `Program.FitsGlobals`.

* A term promises a type when its value has this type unless its evaluation stops (`Scene.Promises`).
* A store is typed when what a variable holds promises the type of the variable (`Scene.StoreTyped`).
* Every statement keeps the store typed, also where it stops (`Scene.keeps_statement`), and so does every
  evaluation (`Scene.gives`, by induction on the fuel).
-/

namespace Rill

/-- The function promises a value and returns none: it reaches its end, or stops before. -/
def Function.FallsOff (f : Function) : Prop :=
  f.result.shape ≠ .void ∧ ∀ statement ∈ f.body, ∀ value, statement.shape ≠ .returnWith (some value)

/-- The value is what the type promises: `void`, an integer, or a function with an equal type. -/
def Term.Conforms (type value : Term) : Prop :=
  match type.shape with
  | .void => value.shape = .void
  | .u64 => ∃ n, value.shape = .int n
  | .functionType .. => (∃ id, value.shape = .function id) ∧
      ∃ found, value.type? = some found ∧ found.typeEquals type = .ok true
  | _ => False

/-- A value assigned to a global satisfies the type of the global, if that has one. -/
def Program.FitsGlobals (program : Program) : Prop :=
  ∀ f ∈ program.functions, ∀ statement ∈ f.body, ∀ target value,
    statement.shape = .assign target value → target.table = program.globals →
      ∀ var type, program.var target = .ok var → var.type? = some type → type.satisfies value = .ok true

/-- Whether what a statement assigns passes a check, if it assigns something. -/
def Term.assignPasses (check : VarRef → Term → Bool) (statement : Term) : Bool :=
  match statement.shape with
  | .assign target value => check target value
  | _ => true

theorem Term.assignPasses_iff {check : VarRef → Term → Bool} {statement : Term} :
    statement.assignPasses check = true ↔
      ∀ target value, statement.shape = .assign target value → check target value = true := by
  unfold assignPasses
  split
  · next shape => simp [shape]
  · next other =>
    simp only [true_iff]
    intro target value shape
    exact absurd shape (other target value)

namespace Program

/-- Whether a value satisfies the type of its target if the target is a global that has a type. -/
def fitsGlobal (program : Program) (target : VarRef) (value : Term) : Bool :=
  target.table != program.globals ||
    match program.var target with
    | .ok ⟨_, _, some type, _⟩ => (type.satisfies value).toOption.getD false
    | _ => true

theorem fitsGlobal_iff {program : Program} {target : VarRef} {value : Term} :
    program.fitsGlobal target value = true ↔ (target.table = program.globals →
      ∀ var type, program.var target = .ok var → var.type? = some type →
        type.satisfies value = .ok true) := by
  rw [fitsGlobal, Bool.or_eq_true, bne_iff_ne, ne_eq, or_iff_not_imp_left, not_not]
  refine imp_congr_right fun _ => ?_
  split
  · next name nameSpan type value? found =>
    have isTrue : (type.satisfies value).toOption.getD false = true ↔ type.satisfies value = .ok true := by
      cases type.satisfies value <;> simp [Except.toOption]
    rw [isTrue]
    constructor
    · intro satisfied var type' varAt typed
      cases found.symm.trans varAt
      cases typed
      exact satisfied
    · exact fun fits => fits _ type found rfl
  · next other =>
    simp only [true_iff]
    rintro ⟨name, nameSpan, _, value?⟩ type found rfl
    exact absurd found (other _ _ _ _)

theorem fitsGlobals_iff {program : Program} : program.FitsGlobals ↔ ∀ f ∈ program.functions,
    ∀ statement ∈ f.body, statement.assignPasses program.fitsGlobal = true := by
  simp only [FitsGlobals, Term.assignPasses_iff, fitsGlobal_iff]

instance : DecidablePred FitsGlobals :=
  fun _ => decidable_of_iff _ fitsGlobals_iff.symm

end Program

namespace Scene

variable {s : Scene} {chain : ScopeChain} {term type value : Term}

/-! ## Promises and outcomes -/

/-- The term was built in some scope. -/
def Built (s : Scene) (term : Term) : Prop :=
  ∃ chain, s.Value chain term

/-- A term whose value has the type, if it has a value. `void` has none. -/
def Promises (s : Scene) (term type : Term) : Prop :=
  term.shape = .void ∨ s.HasType term type

/-- A term that is neither a variable nor a call promises the type recorded in it. -/
theorem Promises.recorded_type {shape : Term.Shape Term} {found : Term} {span : Span}
    (promises : s.Promises ⟨shape, some found, span⟩ type) (notVoid : shape ≠ .void)
    (notVariable : ∀ ref, shape ≠ .variable ref) (notCall : ∀ callee params, shape ≠ .call callee params) :
    found.bare = type.bare := by
  rcases promises with isVoid | hasType
  · exact absurd isVoid notVoid
  · cases hasType with
    | recorded typed same =>
        cases typed
        exact same
    | «variable» => exact absurd rfl (notVariable _)
    | call => exact absurd rfl (notCall _ _)

/-- A variable promises its own type. -/
theorem Promises.variable_type {ref : VarRef} {var : Variable} {type? : Option Term} {span : Span}
    (promises : s.Promises ⟨.variable ref, type?, span⟩ type) (found : s.slot? ref = some var)
    (typed : ∀ recorded, type? = some recorded → var.type? = some recorded) :
    ∃ varType, var.type? = some varType ∧ varType.bare = type.bare := by
  rcases promises with isVoid | hasType
  · cases isVoid
  · cases hasType with
    | recorded recorded same => exact ⟨_, typed _ recorded, same⟩
    | «variable» found' varTyped =>
        cases found.symm.trans found'
        exact ⟨type, varTyped, rfl⟩

/-- A call promises the result type of the called variable. -/
theorem Promises.call_type {ref : VarRef} {var : Variable} {calleeType? type? inner : Option Term}
    {calleeSpan typeSpan span : Span} {result : Term}
    (promises : s.Promises ⟨.call ⟨.variable ref, calleeType?, calleeSpan⟩ [], type?, span⟩ type)
    (found : s.slot? ref = some var)
    (varTyped : var.type? = some ⟨.functionType [] result, inner, typeSpan⟩)
    (only : ∀ recorded, type? = some recorded → recorded = result) : result.bare = type.bare := by
  rcases promises with isVoid | hasType
  · cases isVoid
  · cases hasType with
    | recorded typed same => exact only _ typed ▸ same
    | call found' varTyped' =>
        cases found.symm.trans found'
        cases varTyped.symm.trans varTyped'
        rfl

/-- What the evaluation of a term with the type gives. -/
inductive Outcome (s : Scene) (type : Term) : Term → Prop
  | void {span : Span} : type.shape = .void → s.Outcome type (.voidAt span)
  | fellOff {g : Function} : g ∈ s.program.functions → g.FallsOff → g.result.bare = type.bare →
      s.Outcome type (.voidAt g.span)
  | int {value : UInt64} {span : Span} : type.shape = .u64 → s.Outcome type (.intAt value span)
  | function {chain : ScopeChain} {id : FunctionId} {found : Term} {span : Span} :
      s.Value chain ⟨.function id, some found, span⟩ → found.bare = type.bare →
      s.Outcome type ⟨.function id, some found, span⟩

namespace Outcome

theorem congr {type' : Term} (outcome : s.Outcome type value) (equal : type.bare = type'.bare) :
    s.Outcome type' value := by
  cases outcome with
  | void isVoid => exact .void (Term.void_of_bare equal isVoid)
  | fellOff member fallsOff same => exact .fellOff member fallsOff (same.trans equal)
  | int isU64 => exact .int (Term.u64_of_bare equal isU64)
  | function isValue same => exact .function isValue (same.trans equal)

theorem built (outcome : s.Outcome type value) : s.Built value := by
  cases outcome with
  | void | fellOff => exact ⟨[], .type .void nofun⟩
  | int => exact ⟨[], .int⟩
  | function isValue => exact ⟨_, isValue⟩

theorem promises (outcome : s.Outcome type value) : s.Promises value type := by
  cases outcome with
  | void | fellOff => exact Or.inl rfl
  | int isU64 =>
      refine Or.inr (.recorded rfl ?_)
      rw [Term.bare_eq_iff, isU64]
      rfl
  | function _ same => exact Or.inr (.recorded rfl same)

theorem eq_int {n : UInt64} (outcome : s.Outcome type value) (isInt : value.shape = .int n) :
    ∃ span, value = .intAt n span ∧ type.shape = .u64 := by
  cases outcome with
  | int isU64 =>
      cases isInt
      exact ⟨_, rfl, isU64⟩
  | void | fellOff | function => cases isInt

/-- A function that a term of a type without arguments gives has the result type of that type. -/
theorem callable {result : Term} {inner : Option Term} {typeSpan : Span} {id : FunctionId}
    (outcome : s.Outcome ⟨.functionType [] result, inner, typeSpan⟩ value)
    (isFunction : value.shape = .function id) :
    ∃ f, s.program.functions[id]? = some f ∧ s.program.tables[f.args]? = some #[] ∧
      f.result.bare = result.bare := by
  cases outcome with
  | void | fellOff | int => cases isFunction
  | function isValue same =>
      cases isFunction
      obtain ⟨f, function, _, noArgs, sameResult⟩ := isValue.callable same
      exact ⟨f, function, noArgs, sameResult⟩

end Outcome

/-! ## Typed stores -/

/-- What a variable may hold. -/
structure Held (s : Scene) (var : Variable) (value : Term) : Prop where
  built : s.Built value
  promises : ∀ type, var.type? = some type → s.Promises value type

/-- The store has the variables of the program, and they hold what they may hold. -/
def StoreTyped (s : Scene) (store : Store) : Prop :=
  ∀ ref var, s.slot? ref = some var → ∃ value?, slotIn? store.tables ref = some { var with value? } ∧
    ∀ value, value? = some value → s.Held var value

theorem Sound.held (sound : s.Sound) {ref : VarRef} {var : Variable} (found : s.slot? ref = some var)
    (bound : var.value? = some value) : s.Held var value := by
  obtain ⟨frame, frameAt⟩ := sound.frame_of_slot found
  obtain ⟨isValue, agrees⟩ := (sound.slots ref var frame found frameAt).value value bound
  refine ⟨⟨_, isValue⟩, fun type typed => ?_⟩
  rw [Agrees, typed, Option.map_some] at agrees
  obtain ⟨recorded, recordedEq, same⟩ := Option.map_eq_some_iff.mp agrees.symm
  exact Or.inr (.recorded recordedEq same)

theorem Sound.storeTyped (sound : s.Sound) (output : String) :
    s.StoreTyped ⟨s.program.tables, output⟩ :=
  fun _ var found => ⟨var.value?, found, fun _ bound => sound.held found bound⟩

theorem StoreTyped.write {store : Store} {target : VarRef} {var : Variable} (typed : s.StoreTyped store)
    (found : s.slot? target = some var) (held : s.Held var value) :
    s.StoreTyped { store with tables := Eval.written store.tables target value } := by
  intro ref other otherAt
  obtain ⟨value?, stored, holds⟩ := typed ref other otherAt
  rw [Eval.slotIn?_written]
  by_cases same : ref = target
  · subst same
    cases found.symm.trans otherAt
    refine ⟨some value, by rw [if_pos rfl, stored, Option.map_some], fun stored' storedEq => ?_⟩
    cases storedEq
    exact held
  · exact ⟨value?, by rw [if_neg same, stored], holds⟩

theorem keeps_readVar {ref : VarRef} {var : Variable} (found : s.slot? ref = some var) :
    Eval.Keeps s.StoreTyped (Eval.readVar ref) fun read =>
      ∀ value, read.value? = some value → s.Held var value := by
  refine .readVar fun store read typed readAt => ?_
  obtain ⟨value?, stored, holds⟩ := typed ref var found
  cases stored.symm.trans readAt
  exact holds

/-! ## Statements -/

/-- The evaluation keeps the store typed and gives terms what they promise. -/
def Gives (s : Scene) (evaluate : Term → Eval Term) : Prop :=
  ∀ term, s.Built term → Eval.Keeps s.StoreTyped (evaluate term) fun value =>
    s.Built value ∧ ∀ type, s.Promises term type → s.Outcome type value

/-- An assigned value satisfies the type of its target, if that has one. -/
def FitsTarget (s : Scene) (statement : Term) : Prop :=
  ∀ target value, statement.shape = .assign target value →
    ∀ var type, s.slot? target = some var → var.type? = some type → type.satisfies value = .ok true

/-- What running statements of a function gives: a returned value is what the result type promises, and
the end is reached only if none of the statements returns a value. -/
def Returned (s : Scene) (result : Term) (body : List Term) (returned : Option Term) : Prop :=
  match returned with
  | some value => s.Outcome result value
  | none => ∀ statement ∈ body, ∀ value, statement.shape ≠ .returnWith (some value)

section Statements

variable {evaluate : Term → Eval Term} {result statement : Term}

/-- Computing a value and storing it in a variable whose type it promises, before the `rest`. -/
theorem keeps_store {α : Type} {target : VarRef} {var : Variable} {rest : Eval α} {post : α → Prop}
    (gives : s.Gives evaluate) (isValue : s.Value chain value) (found : s.slot? target = some var)
    (promises : ∀ type, var.type? = some type → s.Promises value type)
    (behind : Eval.Keeps s.StoreTyped rest post) :
    Eval.Keeps s.StoreTyped
      (evaluate value >>= fun computed => Eval.writeVar target computed >>= fun _ => rest) post := by
  refine .bind (gives value ⟨chain, isValue⟩) fun computed ⟨built, outcome⟩ => ?_
  refine .bind (.writeVar fun store typed => typed.write found ⟨built, fun type varTyped => ?_⟩)
    fun _ _ => behind
  exact (outcome type (promises type varTyped)).promises

theorem keeps_statement (complete : s.Complete) (gives : s.Gives evaluate)
    (isStatement : s.Statement chain result statement) (resultIn : TypeIn s.program.tables result)
    (fits : s.FitsTarget statement) :
    Eval.Keeps s.StoreTyped (Eval.runStatements evaluate [statement]) (s.Returned result [statement]) := by
  have behind : (∀ value, statement.shape ≠ .returnWith (some value)) →
      Eval.Keeps s.StoreTyped (Eval.runStatements evaluate []) (s.Returned result [statement]) :=
    fun noReturn => .pure fun other member => List.mem_singleton.mp member ▸ noReturn
  rw [Eval.runStatements]
  cases isStatement with
  | print isValue isU64 =>
      refine .bind (gives _ ⟨chain, isValue⟩) fun computed _ => ?_
      split
      · exact .bind (.print fun _ typed => typed) fun _ _ => behind (by rintro _ ⟨⟩)
      · exact .fail_bind
  | call isValue => exact .bind (gives _ ⟨chain, isValue⟩) fun _ _ => behind (by rintro _ ⟨⟩)
  | @assign target var value span inChain found isValue =>
      have promises : ∀ type, var.type? = some type → s.Promises value type := by
        intro type varTyped
        have satisfied := fits target value rfl var type found varTyped
        have typeIn := complete.sound.slot_type found varTyped
        exact Or.inr (isValue.hasType_of_satisfies complete.sound typeIn satisfied).1
      exact keeps_store gives isValue found promises (behind (by rintro _ ⟨⟩))
  | @define target var value span head found bound isValue names =>
      exact keeps_store gives isValue found (complete.sound.held found bound).promises (behind (by rintro _ ⟨⟩))
  | bareReturn isVoid => exact .pure (.void isVoid)
  | @valueReturn value span isValue satisfied =>
      have hasType := (isValue.hasType_of_satisfies complete.sound resultIn satisfied).1
      refine .bind (gives value ⟨chain, isValue⟩) ?_
      rintro computed ⟨_, outcome⟩
      exact .pure (outcome result (Or.inr hasType))

theorem keeps_statements (complete : s.Complete) (gives : s.Gives evaluate) {body : List Term}
    (resultIn : TypeIn s.program.tables result)
    (each : ∀ statement ∈ body, s.Statement chain result statement ∧ s.FitsTarget statement) :
    Eval.Keeps s.StoreTyped (Eval.runStatements evaluate body) (s.Returned result body) := by
  induction body with
  | nil => exact .pure (by simp [Returned])
  | cons statement rest ih =>
      rw [Eval.runStatements_first]
      obtain ⟨isStatement, fits⟩ := each statement (by simp)
      refine .bind (keeps_statement complete gives isStatement resultIn fits) fun returned first => ?_
      cases returned with
      | some value => exact .pure first
      | none =>
          refine (ih fun other member => each other (by simp [member])).mono fun last others => ?_
          cases last with
          | some value => exact others
          | none => exact List.forall_mem_cons.mpr ⟨first statement (by simp), others⟩

/-- A call gives what the result type of the function promises. -/
theorem keeps_callWith (complete : s.Complete) (fits : ∀ f ∈ s.program.functions, ∀ statement ∈ f.body,
    s.FitsTarget statement) (gives : s.Gives evaluate) {id : FunctionId} {f : Function}
    (found : s.program.functions[id]? = some f) :
    Eval.Keeps s.StoreTyped (Eval.callWith evaluate s.program.functions id) (s.Outcome f.result) := by
  have member : f ∈ s.program.functions := Array.mem_of_getElem? found
  obtain ⟨outer, function⟩ := complete.sound.functions id f found
  have body := keeps_statements complete gives function.result fun statement inBody =>
    ⟨function.body statement inBody, fits f member statement inBody⟩
  unfold Eval.callWith
  rw [fetch_eq_ok_iff.mpr found]
  refine .bind (.pure rfl) ?_
  rintro _ rfl
  refine .bind body fun returned holds => ?_
  cases returned with
  | some value => exact .pure holds
  | none =>
      refine .pure ?_
      by_cases isVoid : f.result.shape = .void
      · exact .void isVoid
      · exact .fellOff member ⟨isVoid, holds⟩ rfl

end Statements

/-! ## Terms -/

theorem gives (complete : s.Complete) (fits : ∀ f ∈ s.program.functions, ∀ statement ∈ f.body,
    s.FitsTarget statement) (fuel : Nat) : s.Gives (Eval.evaluate s.program.functions fuel) := by
  induction fuel with
  | zero => exact fun term _ => .stop
  | succ fuel ih =>
      rintro term ⟨chain, isValue⟩
      rw [Eval.evaluate]
      cases isValue with
      | int =>
          refine .pure ⟨⟨chain, .int⟩, fun type promises => ?_⟩
          exact .int (Term.u64_of_bare (promises.recorded_type (by simp) (by simp) (by simp)) rfl)
      | type inTables noName =>
          cases inTables with
          | «variable» => exact absurd rfl (noName _)
          -- A type has no value, and neither has the `void` that a variable may hold.
          | void | u64 | functionType => exact .fail
      | @«variable» ref var type? span inChain found typed =>
          refine .bind (keeps_readVar found) fun read holds => ?_
          cases bound : read.value? with
          | none => exact .fail
          | some held =>
              obtain ⟨built, promises⟩ := holds held bound
              refine (ih held built).mono ?_
              rintro value ⟨valueBuilt, outcome⟩
              refine ⟨valueBuilt, fun type promised => ?_⟩
              obtain ⟨varType, varTyped, same⟩ := promised.variable_type found typed
              exact (outcome varType (promises varType varTyped)).congr same
      | function found argsAt localsAt tableAt types =>
          refine .pure ⟨⟨chain, .function found argsAt localsAt tableAt types⟩, fun type promises => ?_⟩
          exact .function (.function found argsAt localsAt tableAt types)
            (promises.recorded_type (by simp) (by simp) (by simp))
      | @sum left right span isLeft isRight leftU64 rightU64 =>
          obtain ⟨leftType, leftTyped, _⟩ := Term.isU64?_iff.mp leftU64
          refine .bind (ih left ⟨chain, isLeft⟩) ?_
          rintro leftValue ⟨_, leftOutcome⟩
          refine .bind (ih right ⟨chain, isRight⟩) fun rightValue _ => ?_
          split
          · next a b leftInt _ =>
            -- The sum is the left value with another number in it.
            obtain ⟨leftSpan, rfl, _⟩ :=
              (leftOutcome leftType (Or.inr (.recorded leftTyped rfl))).eq_int leftInt
            refine .pure ⟨⟨chain, .int⟩, fun type promises => ?_⟩
            exact .int (Term.u64_of_bare (promises.recorded_type (by simp) (by simp) (by simp)) rfl)
          · exact .fail
      | @call ref calleeType? type? calleeSpan span isCallee callType =>
          obtain ⟨var, result, inner, typeSpan, found, varTyped, only⟩ := complete.callType callType
          refine .bind (ih _ ⟨chain, isCallee⟩) ?_
          rintro callee ⟨_, calleeOutcome⟩
          split
          · next id isFunction =>
            obtain ⟨f, function, _, sameResult⟩ :=
              (calleeOutcome _ (Or.inr (.variable found varTyped))).callable isFunction
            refine (keeps_callWith complete fits ih function).mono fun value outcome =>
              ⟨outcome.built, fun type promises => outcome.congr (sameResult.trans ?_)⟩
            exact promises.call_type found varTyped only
          · exact .fail

/-! ## Calls -/

/-- Whatever runs of a program leave is typed. -/
theorem Complete.storeTyped_of_reachable (complete : s.Complete)
    (fits : ∀ f ∈ s.program.functions, ∀ statement ∈ f.body, s.FitsTarget statement) {store : Store}
    (reachable : s.program.Reachable store) : s.StoreTyped store := by
  induction reachable with
  | start output => exact complete.sound.storeTyped output
  | step fuel _ member inBody ih =>
      obtain ⟨outer, function⟩ := complete.sound.function_ok member
      exact (keeps_statement complete (gives complete fits fuel) (function.body _ inBody) function.result
        (fits _ member _ inBody)).left ih

/-- Values assigned to local variables fit because the builder checks them. -/
theorem fitsTarget_of_lexical (lexical : s.program.Lexical) (fitsGlobals : s.program.FitsGlobals) :
    ∀ f ∈ s.program.functions, ∀ statement ∈ f.body, s.FitsTarget statement := by
  intro f member statement inBody target value shape var type found varTyped
  by_cases isGlobal : target.table = s.program.globals
  · exact fitsGlobals f member statement inBody target value shape isGlobal var type
      (Program.var_eq_ok_iff.mpr found) varTyped
  · obtain ⟨id, inBounds, rfl⟩ := Array.mem_iff_getElem.mp member
    have orderly := lexical.orderly id _ (Array.getElem?_eq_getElem inBounds)
    obtain ⟨var', found', satisfied⟩ := orderly.fits statement inBody target value shape isGlobal
    cases found.symm.trans found'
    exact satisfied type varTyped

/-- What a term gives is what its type promises, or the `void` of a function that fell off its end. -/
theorem Outcome.conforms (sound : s.Sound) (outcome : s.Outcome type value)
    (typeIn : TypeIn s.program.tables type) :
    type.Conforms value ∨ ∃ g ∈ s.program.functions, g.FallsOff ∧ g.result.typeEquals type = .ok true ∧
      value = .voidAt g.span := by
  cases outcome with
  | void isVoid =>
      left
      rw [Term.Conforms, isVoid]
      rfl
  | @fellOff g member fallsOff same =>
      obtain ⟨outer, function⟩ := sound.function_ok member
      exact Or.inr ⟨g, member, fallsOff,
        Term.typeEquals_of_bare function.result.isType typeIn.isType same, rfl⟩
  | int isU64 =>
      left
      rw [Term.Conforms, isU64]
      exact ⟨_, rfl⟩
  | @function chain id found span isValue same =>
      left
      have isType := typeIn.isType
      have foundType := (isValue.type_in sound rfl).isType
      obtain ⟨argTypes, result, typeSpan, rfl⟩ := isValue.function_type
      cases typeIn with
      | functionType =>
          exact ⟨⟨id, rfl⟩, _, rfl, Term.typeEquals_of_bare foundType isType same⟩
      | void | u64 | «variable» =>
          rw [Term.bare_eq_iff] at same
          cases same

end Scene

/-- In every reachable store of an accepted program, a call that ends gives what the result type of the
function promises, or the `void` of a function with this result type that has no statement to return a
value. -/
theorem call_returns_promised {source : String} {program : Program}
    (checked : Pipeline.check source = .ok program) (fitsGlobals : program.FitsGlobals) {store : Store}
    (reachable : program.Reachable store) {id : FunctionId} {f : Function}
    (found : program.function id = .ok f) {fuel : Nat} {value : Term} {after : Store}
    (ended : Eval.call program.functions fuel id store = .ok value after) :
    f.result.Conforms value ∨ ∃ g ∈ program.functions, g.FallsOff ∧
      g.result.typeEquals f.result = .ok true ∧ value = .voidAt g.span := by
  obtain ⟨phrases, built⟩ := check_built checked
  have lexical := buildPhrases_lexical built
  obtain ⟨s, rfl, complete⟩ := buildPhrases_complete built
  have fits := Scene.fitsTarget_of_lexical lexical fitsGlobals
  have function := fetch_eq_ok_iff.mp found
  obtain ⟨outer, functionOk⟩ := complete.sound.functions id f function
  have keeps := Scene.keeps_callWith complete fits (Scene.gives complete fits fuel) function store
    (complete.storeTyped_of_reachable fits reachable)
  rw [Eval.call] at ended
  rw [ended] at keeps
  exact keeps.2.conforms complete.sound functionOk.result

/-- A source that assigns a global and returns it through a call. -/
def countingGlobal : String :=
  "count : u64 : 0;
   main :: () -> u64 \x7b count = count + 1; return current(); \x7d;
   current :: () -> u64 \x7b return count; \x7d;"

/-- The integer that a term is. -/
def Term.int? (term : Term) : Option UInt64 :=
  match term.shape with
  | .int n => some n
  | _ => none

theorem Term.int?_eq_some_iff {term : Term} {n : UInt64} : term.int? = some n ↔ term.shape = .int n := by
  unfold int?
  cases term.shape <;> simp

/-- Whether the first function is there, and its second call gives the number. -/
def givesSecond (number : UInt64) (program : Program) : Bool :=
  let call := Eval.call program.functions 5 0
  (program.function 0).isOk &&
    (call.run' (Eval.left call ⟨program.tables, ""⟩)).any fun value => value.int? == some number

/-- The second call of `main` gives 2, as promised: the store behind the first call is reachable. -/
theorem countingGlobal_returns_promised : ∃ program f value after,
    Pipeline.check countingGlobal = .ok program ∧ program.FitsGlobals ∧ program.function 0 = .ok f ∧
    Eval.call program.functions 5 0 (Eval.left (Eval.call program.functions 5 0) ⟨program.tables, ""⟩) =
      .ok value after ∧ value.shape = .int 2 ∧
    (f.result.Conforms value ∨ ∃ g ∈ program.functions, g.FallsOff ∧
      g.result.typeEquals f.result = .ok true ∧ value = .voidAt g.span) := by
  have accepted : (Pipeline.check countingGlobal).toOption.any (fun program =>
      decide program.FitsGlobals && givesSecond 2 program) = true := by
    decide +kernel
  simp only [givesSecond, Bool.and_eq_true, decide_eq_true_eq, Option.any_eq_true, toOption_eq_some_iff,
    Eval.run'_eq_some_iff, beq_iff_eq, Term.int?_eq_some_iff] at accepted
  obtain ⟨program, checked, fits, isFunction, value, ⟨after, ended⟩, isTwo⟩ := accepted
  obtain ⟨f, found⟩ := exists_of_isOk isFunction
  exact ⟨program, f, value, after, checked, fits, found, ended, isTwo,
    call_returns_promised checked fits ((Program.Reachable.start "").call 5 0) found ended⟩

/-! ## Broken promises -/

/-- The source is accepted, and in a reachable store a call ends with what its function does not promise. -/
def BreaksPromise (source : String) : Prop :=
  ∃ program store id f fuel value after, Pipeline.check source = .ok program ∧ program.Reachable store ∧
    program.function id = .ok f ∧ Eval.call program.functions fuel id store = .ok value after ∧
    ¬ f.result.Conforms value

/-- Whether the first function promises an integer and ends with something else. -/
def misleads (fuel : Nat) (program : Program) : Bool :=
  (program.function 0).toOption.any fun f =>
    f.result.shape.isU64 && ((Eval.call program.functions fuel 0).run' ⟨program.tables, ""⟩).any fun value =>
      value.int?.isNone

theorem breaksPromise_of_misleads {source : String} {fuel : Nat}
    (broken : (Pipeline.check source).toOption.any (misleads fuel) = true) : BreaksPromise source := by
  simp only [misleads, Bool.and_eq_true, Option.any_eq_true, toOption_eq_some_iff, Term.Shape.isU64_iff,
    Eval.run'_eq_some_iff] at broken
  obtain ⟨program, checked, f, found, isU64, value, ⟨after, ended⟩, noInt⟩ := broken
  refine ⟨program, _, 0, f, fuel, value, after, checked, .start "", found, ended, ?_⟩
  rw [Term.Conforms, isU64]
  rintro ⟨n, isInt⟩
  rw [Term.int?_eq_some_iff.mpr isInt] at noInt
  cases noInt

/-- A function that promises an integer and returns nothing. -/
def missingReturn : String :=
  "main :: () -> u64 \x7b \x7d;"

/-- A function is assigned to a global before it is known that the global holds an integer. -/
def lateGlobal : String :=
  "main :: () -> u64 \x7b g = k; return late(); \x7d;
   g :: 1 + 1;
   k :: () -> void \x7b \x7d;
   late :: () -> u64 \x7b return g; \x7d;"

/-- Neither of the two exceptions can be left out: a function that promises a value may reach its end, and
an assignment that was not checked may put a value of another type into a global. -/
theorem calls_break_promises : BreaksPromise missingReturn ∧ BreaksPromise lateGlobal := by
  have endReached : (Pipeline.check missingReturn).toOption.any (misleads 5) = true := by decide +kernel
  have assignedLate : (Pipeline.check lateGlobal).toOption.any (misleads 5) = true := by decide +kernel
  exact ⟨breaksPromise_of_misleads endReached, breaksPromise_of_misleads assignedLate⟩

end Rill

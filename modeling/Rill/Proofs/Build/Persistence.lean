import Mathlib
import Rill.Proofs.Build.Phrases

/-!
# What building leaves as it is

`Build.Moves r m` says that the step `m`, where it ends with a result, leads from its context along
the relation `r`.

* Building a type only reads the context (`reads_buildType`).
* Building a value adds tables, functions and calls to be judged later. Everything that was there
  stays exactly as it is (`leaves_buildValue`).
* Statements also add variables to the table of their function's locals (`leaves_phrases`).
-/

namespace Rill

namespace BuildContext

/-- What building a value or a statement leaves as it is. Only the tables of `grown` may get more
variables. -/
structure Leaves (grown : TableId → Prop) (context after : BuildContext) : Prop where
  tables : ∀ (t : TableId) (vars : VariableTable), context.program.tables[t]? = some vars → ¬ grown t →
    after.program.tables[t]? = some vars
  slots : ∀ ref var, slotIn? context.program.tables ref = some var →
    slotIn? after.program.tables ref = some var
  functions : ∀ (id : FunctionId) (f : Function), context.program.functions[id]? = some f →
    after.program.functions[id]? = some f
  deferred : context.deferred <+: after.deferred
  scope : after.scope = context.scope
  results : after.results = context.results
  globals : after.program.globals = context.program.globals

namespace Leaves

variable {grown grown' : TableId → Prop} {context middle after : BuildContext}

theorem refl (grown : TableId → Prop) (context : BuildContext) : Leaves grown context context :=
  ⟨fun _ _ found _ => found, fun _ _ => id, fun _ _ => id, List.prefix_refl _, rfl, rfl, rfl⟩

theorem trans (first : Leaves grown context middle) (second : Leaves grown middle after) :
    Leaves grown context after where
  tables t vars found other := second.tables t vars (first.tables t vars found other) other
  slots ref var found := second.slots ref var (first.slots ref var found)
  functions id f found := second.functions id f (first.functions id f found)
  deferred := first.deferred.trans second.deferred
  scope := second.scope.trans first.scope
  results := second.results.trans first.results
  globals := second.globals.trans first.globals

instance : Std.Refl (Leaves grown) := ⟨refl grown⟩

instance : IsTrans BuildContext (Leaves grown) := ⟨fun _ _ _ => trans⟩

theorem mono (leaves : Leaves grown context after) (more : ∀ t, grown t → grown' t) :
    Leaves grown' context after :=
  { leaves with tables := fun t vars found other => leaves.tables t vars found fun g => other (more t g) }

/-- Declaring a variable at the end of a table that may grow. -/
theorem declare {t : TableId} {vars : VariableTable} (var : Variable)
    (tableAt : context.program.tables[t]? = some vars) :
    Leaves (· = t) context { context with program := context.program.declare t var } := by
  refine ⟨fun u others found other => ?_, fun ref old found => ?_, fun _ _ => id, List.prefix_refl _,
    rfl, rfl, rfl⟩
  · exact (Array.getElem?_modify ..).trans ((if_neg (Ne.symm other)).trans found)
  · refine (slotIn?_declare tableAt var ref).trans ?_
    rw [if_neg, found]
    rintro rfl
    simp [slotIn?, tableAt] at found

end Leaves

end BuildContext

namespace Build

open BuildContext (Leaves)

variable {α β : Type} {m : Build α} {f : α → Build β} {r : BuildContext → BuildContext → Prop}
  {grown : TableId → Prop}

theorem bind_eq_ok_iff {context after : BuildContext} {b : β} :
    (m >>= f) context = .ok (b, after) ↔
      ∃ a middle, m context = .ok (a, middle) ∧ f a middle = .ok (b, after) := by
  have unfolded : (m >>= f) context = (m context).bind fun result => f result.1 result.2 := rfl
  rw [unfolded]
  cases m context with
  | error abort => simp [Except.bind]
  | ok result =>
      obtain ⟨a, middle⟩ := result
      simp [Except.bind]

theorem bind_of_ok {context after : BuildContext} {a : α} (run : m context = .ok (a, after)) :
    (m >>= f) context = f a after := by
  change (m context).bind _ = _
  rw [run]
  rfl

theorem bind_of_error {context : BuildContext} {abort : Abort BuildError}
    (run : m context = .error abort) : (m >>= f) context = .error abort := by
  change (m context).bind _ = _
  rw [run]
  rfl

/-- Where the step ends with a result, it leads along `r`. -/
def Moves (r : BuildContext → BuildContext → Prop) (m : Build α) : Prop :=
  ∀ context a after, m context = .ok (a, after) → r context after

/-! ## Steps in general -/

namespace Moves

theorem mono {r' : BuildContext → BuildContext → Prop} (moves : Moves r m)
    (weaker : ∀ context after, r context after → r' context after) : Moves r' m :=
  fun context a after run => weaker context after (moves context a after run)

/-- A step that only reads moves along any reflexive relation. -/
theorem ofReads [Std.Refl r] (reads : Moves Eq m) : Moves r m :=
  reads.mono fun context _ same => same ▸ Std.Refl.refl context

theorem pure [Std.Refl r] (a : α) : Moves r (Pure.pure a) := by
  rintro context b after run
  cases run
  exact Std.Refl.refl context

theorem refuse {kind : BuildErrorKind} {span : Span} : Moves r (Build.refuse kind span : Build α) := by
  intro context a after run
  cases run

theorem bind [IsTrans BuildContext r] (first : Moves r m) (next : ∀ a, Moves r (f a)) :
    Moves r (m >>= f) := by
  intro context b after run
  obtain ⟨a, middle, run₁, run₂⟩ := bind_eq_ok_iff.mp run
  exact IsTrans.trans _ _ _ (first _ _ _ run₁) (next _ _ _ _ run₂)

theorem map (g : α → β) (moves : Moves r m) : Moves r (g <$> m) := by
  intro context b after run
  rw [map_eq_pure_bind] at run
  obtain ⟨a, middle, run₁, run₂⟩ := bind_eq_ok_iff.mp run
  cases run₂
  exact moves _ _ _ run₁

theorem ite {p : Prop} [Decidable p] {m' : Build α} (yes : Moves r m) (no : Moves r m') :
    Moves r (if p then m else m') := by
  split
  · exact yes
  · exact no

theorem mapM [Std.Refl r] [IsTrans BuildContext r] {xs : List α} (each : ∀ x ∈ xs, Moves r (f x)) :
    Moves r (xs.mapM f) := by
  induction xs with
  | nil => exact pure _
  | cons x xs ih =>
      rw [List.mapM_cons]
      have rest := ih fun other member => each other (by simp [member])
      exact (each x (by simp)).bind fun _ => rest.bind fun _ => pure _

theorem forM [Std.Refl r] [IsTrans BuildContext r] {f : α → Build Unit} {xs : List α}
    (each : ∀ x, Moves r (f x)) : Moves r (xs.forM f) := by
  induction xs with
  | nil => exact pure _
  | cons x xs ih => exact (each x).bind fun _ => ih

theorem get [Std.Refl r] : Moves r (MonadState.get : Build BuildContext) := by
  intro context a after run
  cases run
  exact Std.Refl.refl context

theorem ofFault [Std.Refl r] (result : Except Fault α) : Moves r (Build.ofFault result) := by
  cases result with
  | ok value => exact pure value
  | error fault =>
      intro context a after run
      cases run

end Moves

/-! ## Steps that only read -/

theorem reads_readVar (ref : VarRef) : Moves Eq (readVar ref) :=
  Moves.get.bind fun _ => .ofFault _

theorem readVar_eq_ok_iff {ref : VarRef} {context after : BuildContext} {var : Variable} :
    readVar ref context = .ok (var, after) ↔
      slotIn? context.program.tables ref = some var ∧ after = context := by
  rw [← Program.var_eq_ok_iff]
  change ofFault (context.program.var ref) context = _ ↔ _
  cases context.program.var ref with
  | error fault => simp [ofFault, throw, throwThe, MonadExceptOf.throw, StateT.lift]
  | ok found => simp [ofFault, pure, StateT.pure, Except.pure, eq_comm]

theorem reads_typeText (type? : Option Term) : Moves Eq (typeText type?) :=
  Moves.get.bind fun _ => .ofFault _

theorem reads_nameOf (phrase : Phrase) : Moves Eq (nameOf phrase) := by
  unfold nameOf
  split
  · exact .pure _
  · exact .refuse

theorem nameOf_eq_ok {phrase : Phrase} {name : String} {context after : BuildContext}
    (run : nameOf phrase context = .ok (name, after)) : phrase.construct = .ident name ∧ after = context := by
  unfold nameOf at run
  cases shape : phrase.construct with
  | ident text =>
      rw [shape] at run
      cases run
      exact ⟨rfl, rfl⟩
  | _ =>
      rw [shape] at run
      cases run

theorem reads_resolve (name : String) (span : Span) : Moves Eq (resolve name span) := by
  refine Moves.get.bind fun _ => Moves.bind (.ofFault _) fun ref? => ?_
  cases ref? with
  | some ref => exact .pure ref
  | none => exact .refuse

theorem reads_expect (type value : Term) (mismatch : (expected found : String) → BuildErrorKind) :
    Moves Eq (expect type value mismatch) := by
  refine Moves.bind (.ofFault _) fun _ => .ite (.pure _) ?_
  exact (reads_typeText _).bind fun _ => (reads_typeText _).bind fun _ => .refuse

theorem reads_expectU64 (place : U64Place) (value : Term) : Moves Eq (expectU64 place value) :=
  .ite (.pure _) ((reads_typeText _).bind fun _ => .refuse)

theorem reads_plainType (phrase : Phrase) : Moves Eq (plainType phrase) := by
  unfold plainType
  split
  · exact .pure _
  · exact .pure _
  · exact (reads_resolve _ _).bind fun _ => .pure _
  · exact .refuse

theorem reads_itemTypes {items : List Phrase}
    (each : ∀ item ∈ items, ∀ type, itemType? item = some type → Moves Eq (buildType type)) :
    Moves Eq (items.mapM buildItemType) :=
  .mapM fun item member => buildItemType_cases .refuse (each item member)

theorem reads_buildType (phrase : Phrase) : Moves Eq (buildType phrase) := by
  induction phrase using type_induction with
  | plain phrase plain =>
      rw [buildType_plain plain]
      exact reads_plainType phrase
  | functionType params result span itemsIh resultIh =>
      rw [buildType_functionType]
      exact (reads_itemTypes itemsIh).bind fun _ => resultIh.bind fun _ => .pure _

theorem reads_optionalType (type? : Option Phrase) : Moves Eq (type?.mapM buildType) := by
  cases type? with
  | none => exact .pure none
  | some type => exact Moves.map some (reads_buildType type)

theorem reads_readParam (phrase : Phrase) : Moves Eq (readParam phrase) := by
  unfold readParam
  split
  · refine (reads_nameOf _).bind fun _ => .ite .refuse ?_
    split
    · exact .pure _
    · exact .refuse
  · exact .refuse

theorem reads_literalType? (value : Phrase) : Moves Eq (literalType? value) := by
  unfold literalType?
  split
  · exact .pure _
  · refine (reads_buildType _).bind fun _ => Moves.bind (.mapM fun item _ => ?_) fun _ => .pure _
    exact (reads_readParam item).bind fun _ => reads_buildType _
  · exact .pure _

theorem reads_callType? (callee : VarRef) (calleeSpan span : Span) :
    Moves Eq (callType? callee calleeSpan span) := by
  refine (reads_readVar callee).bind fun var => ?_
  split
  · exact .pure _
  · exact .refuse
  · exact (reads_typeText _).bind fun _ => .refuse
  · exact .ite .refuse (.pure _)

/-! ## Values -/

/-- A step that leaves everything as it is but for the tables of `grown`, which may get more
variables. -/
abbrev Steady (grown : TableId → Prop) (m : Build α) : Prop :=
  Moves (Leaves grown) m

theorem Steady.mono {grown' : TableId → Prop} (steady : Steady grown m)
    (more : ∀ t, grown t → grown' t) : Steady grown' m :=
  Moves.mono steady fun _ _ leaves => leaves.mono more

theorem steady_defer (call : DeferredCall) :
    Steady grown (modify fun context => { context with deferred := context.deferred ++ [call] }) := by
  intro context a after run
  cases run
  exact { Leaves.refl grown context with deferred := List.prefix_append _ _ }

/-- The call of a built callee. -/
def callOf (span : Span) (callee : Term) : Build Term :=
  match callee.shape with
  | .variable ref => do
      let type? ← callType? ref callee.span span
      if type?.isNone && (← readVar ref).value?.isNone then
        modify fun context =>
          { context with deferred := context.deferred ++ [⟨ref, callee.span, span⟩] }
      return ⟨.call callee [], type?, span⟩
  | _ => refuse .unsupportedCallee callee.span

theorem buildCall_eq (span : Span) (args : Phrase) (callee : Build Term) :
    buildCall span args callee =
      if (paramItems args).isEmpty then callee >>= callOf span
      else refuse .callArguments args.span := by
  unfold buildCall
  dsimp only
  split
  · rfl
  · rfl

theorem steady_callOf (span : Span) (callee : Term) : Steady grown (callOf span callee) := by
  unfold callOf
  split
  · refine (Moves.ofReads (reads_callType? _ _ _)).bind fun type? => ?_
    refine (Moves.ofReads (reads_readVar _)).bind fun var => .ite ?_ (.pure _)
    exact (steady_defer _).bind fun _ => .pure _
  · exact .refuse

theorem steady_buildCall {span : Span} {args : Phrase} {callee : Build Term}
    (calleeSteady : Steady grown callee) : Steady grown (buildCall span args callee) := by
  rw [buildCall_eq]
  exact .ite (calleeSteady.bind (steady_callOf span)) .refuse

/-! ## Functions -/

theorem declare_eq_ok {t : TableId} {var : Variable} {context after : BuildContext} {ref : VarRef}
    (run : declare t var context = .ok (ref, after)) :
    ∃ vars, context.program.tables[t]? = some vars ∧ ref = ⟨t, vars.size⟩ ∧
      after = { context with program := context.program.declare t var } := by
  obtain ⟨_, _, got, run⟩ := bind_eq_ok_iff.mp run
  cases got
  obtain ⟨vars, middle, read, rest⟩ := bind_eq_ok_iff.mp run
  cases tableAt : context.program.table t with
  | error fault =>
      rw [tableAt] at read
      cases read
  | ok found =>
      rw [tableAt] at read
      cases read
      cases rest
      exact ⟨vars, fetch_eq_ok_iff.mp tableAt, rfl, rfl⟩

theorem declare_of_table {t : TableId} {vars : VariableTable} {context : BuildContext} (var : Variable)
    (tableAt : context.program.tables[t]? = some vars) :
    declare t var context =
      .ok (⟨t, vars.size⟩, { context with program := context.program.declare t var }) := by
  have read : ofFault (context.program.table t) context = .ok (vars, context) := by
    rw [Program.table, fetch_eq_ok_iff.mpr tableAt]
    rfl
  exact (bind_of_ok (m := get) rfl).trans ((bind_of_ok read).trans rfl)

theorem steady_declare (t : TableId) (var : Variable) : Steady (· = t) (declare t var) := by
  intro context ref after run
  obtain ⟨vars, tableAt, _, rfl⟩ := declare_eq_ok run
  exact .declare var tableAt

theorem steady_buildArgument (t : TableId) (phrase : Phrase) : Steady (· = t) (buildArgument t phrase) :=
  (Moves.ofReads (reads_readParam phrase)).bind fun _ =>
    (Moves.ofReads (reads_buildType _)).bind fun _ => (steady_declare t _).bind fun _ => .pure _

/-- The context with the two tables of a function opened. -/
def opened (context : BuildContext) : BuildContext :=
  { context with
    program := context.program.addTable.addTable
    scope := (context.program.tables.size + 1) :: context.program.tables.size :: context.scope }

/-- The context after a function was added and its scopes closed. -/
def closed (context : BuildContext) (f : Function) : BuildContext :=
  { context with
    program := context.program.addFunction f
    scope := context.scope.pop.pop
    results := context.results.tail }

/-- The end of a function literal: adds the function and gives the value that names it. -/
def closeFunction (span : Span) (args : TableId) (result : Term) (argTypes body : List Term) :
    Build Term := fun context =>
  .ok (.typed (.function context.program.functions.size) (.untyped (.functionType argTypes result) span)
    span, closed context ⟨span, args, result, args + 1, body⟩)

/-- A function literal after its tables were opened. -/
def buildOpened (span : Span) (params result : Phrase) (body : TableId → Build (List Term))
    (args : TableId) : Build Term := do
  let resultType ← buildType result
  let argTypes ← (paramItems params).mapM (buildArgument args)
  modify fun context => { context with results := resultType :: context.results }
  let statements ← body (args + 1)
  closeFunction span args resultType argTypes statements

/-- A function literal is built in the two tables that it opens. -/
theorem buildFunction_eq (span : Span) (params result : Phrase) (body : TableId → Build (List Term))
    (context : BuildContext) :
    buildFunction span params result body context =
      buildOpened span params result body context.program.tables.size (opened context) := by
  have size : context.program.addTable.tables.size = context.program.tables.size + 1 :=
    Array.size_push ..
  unfold opened buildOpened closeFunction
  rw [← size]
  rfl

theorem table_opened (context : BuildContext) (t : TableId) (vars : VariableTable)
    (found : context.program.tables[t]? = some vars) : (opened context).program.tables[t]? = some vars := by
  have inBounds := (Array.getElem?_eq_some_iff.mp found).1
  simp [opened, Program.addTable, Array.getElem?_push, Nat.ne_of_lt inBounds,
    Nat.ne_of_lt (Nat.lt_succ_of_lt inBounds), found]

/-- The steps of a function literal: its result and its parameters are read inside the two new tables,
and the function is added behind those of its body. -/
theorem buildFunction_eq_ok {span : Span} {params result : Phrase} {body : TableId → Build (List Term)}
    {context after : BuildContext} {value : Term}
    (run : buildFunction span params result body context = .ok (value, after)) :
    ∃ resultType argTypes declared statements last,
      buildType result (opened context) = .ok (resultType, opened context) ∧
      (paramItems params).mapM (buildArgument context.program.tables.size) (opened context) =
        .ok (argTypes, declared) ∧
      body (context.program.tables.size + 1) { declared with results := resultType :: declared.results } =
        .ok (statements, last) ∧
      value = .typed (.function last.program.functions.size)
        (.untyped (.functionType argTypes resultType) span) span ∧
      after = closed last
        ⟨span, context.program.tables.size, resultType, context.program.tables.size + 1, statements⟩ := by
  rw [buildFunction_eq] at run
  obtain ⟨resultType, inside, resultRun, run⟩ := bind_eq_ok_iff.mp run
  cases reads_buildType result _ _ _ resultRun
  obtain ⟨argTypes, declared, argsRun, run⟩ := bind_eq_ok_iff.mp run
  obtain ⟨_, entered, modified, run⟩ := bind_eq_ok_iff.mp run
  cases modified
  obtain ⟨statements, last, bodyRun, run⟩ := bind_eq_ok_iff.mp run
  cases run
  exact ⟨resultType, argTypes, declared, statements, last, resultRun, argsRun, bodyRun, rfl, rfl⟩

theorem steady_buildFunction {span : Span} {params result : Phrase} {body : TableId → Build (List Term)}
    (bodySteady : ∀ locals, Steady (· = locals) (body locals)) :
    Steady grown (buildFunction span params result body) := by
  intro context value after run
  obtain ⟨resultType, argTypes, declared, statements, last, _, argsRun, bodyRun, rfl, rfl⟩ :=
    buildFunction_eq_ok run
  have args := Moves.mapM (fun item _ => steady_buildArgument _ item) _ _ _ argsRun
  have rest := bodySteady _ _ _ _ bodyRun
  have kept : ∀ {t : TableId} {vars : VariableTable}, context.program.tables[t]? = some vars →
      last.program.tables[t]? = some vars := by
    intro t vars found
    have inBounds := (Array.getElem?_eq_some_iff.mp found).1
    refine rest.tables t vars (args.tables t vars (table_opened context t vars found) ?_) ?_
    · exact Nat.ne_of_lt inBounds
    · exact Nat.ne_of_lt (Nat.lt_succ_of_lt inBounds)
  refine ⟨fun t vars found _ => kept found, fun ref var found => ?_, fun id f found => ?_,
    args.deferred.trans rest.deferred, ?_, ?_, rest.globals.trans args.globals⟩
  · obtain ⟨vars, tableAt, varAt⟩ := slotIn?_eq_some_iff.mp found
    exact slotIn?_eq_some_iff.mpr ⟨vars, kept tableAt, varAt⟩
  · have found' := rest.functions id f (args.functions id f found)
    have inBounds := (Array.getElem?_eq_some_iff.mp found').1
    simp [closed, Program.addFunction, Array.getElem?_push, Nat.ne_of_lt inBounds, found']
  · change last.scope.pop.pop = context.scope
    rw [rest.scope]
    change declared.scope.pop.pop = context.scope
    rw [args.scope]
    rfl
  · change last.results.tail = context.results
    rw [rest.results]
    exact args.results

/-! ## Statements -/

theorem expect_eq_ok {type value : Term} {mismatch : (expected found : String) → BuildErrorKind}
    {context after : BuildContext} {u : Unit} (run : expect type value mismatch context = .ok (u, after)) :
    type.satisfies value = .ok true := by
  obtain ⟨answer, middle, asked, run⟩ := bind_eq_ok_iff.mp run
  cases satisfied : type.satisfies value with
  | error fault =>
      rw [satisfied] at asked
      cases asked
  | ok found =>
      rw [satisfied] at asked
      cases asked
      cases answer with
      | true => rfl
      | false =>
          obtain ⟨_, _, _, run⟩ := bind_eq_ok_iff.mp run
          obtain ⟨_, _, _, run⟩ := bind_eq_ok_iff.mp run
          cases run

theorem expect_of_satisfies {type value : Term} {mismatch : (expected found : String) → BuildErrorKind}
    {context : BuildContext} (satisfied : type.satisfies value = .ok true) :
    expect type value mismatch context = .ok ((), context) := by
  unfold expect
  rw [satisfied]
  rfl

/-- Checks a value against the type of a variable that has one. -/
def checkFor (var : Variable) (value : Term) : Build Unit :=
  match var.type? with
  | some type => expect type value (.mismatch var.name)
  | none => pure ()

theorem reads_checkFor (var : Variable) (value : Term) : Moves Eq (checkFor var value) := by
  unfold checkFor
  split
  · exact reads_expect _ _ _
  · exact .pure _

theorem checkFor_eq_ok {var : Variable} {value type : Term} {context after : BuildContext} {u : Unit}
    (run : checkFor var value context = .ok (u, after)) (typed : var.type? = some type) :
    type.satisfies value = .ok true := by
  unfold checkFor at run
  rw [typed] at run
  exact expect_eq_ok run

/-- Binding a value checks it and fills the variable. -/
theorem bind_eq {ref : VarRef} {var : Variable} {value : Term} {context : BuildContext}
    (found : slotIn? context.program.tables ref = some var) :
    Build.bind ref value context =
      (checkFor var value >>= fun _ => modifyVar ref (filled value)) context := by
  refine (bind_of_ok (readVar_eq_ok_iff.mpr ⟨found, rfl⟩)).trans ?_
  have run : ∀ change : Variable → Variable, modifyVar ref change context =
      .ok ((), { context with program := context.program.modifyVar ref change }) := fun _ => rfl
  unfold checkFor
  cases typed : var.type? with
  | some type =>
      change (expect type value _ >>= fun _ => modifyVar ref _) context =
        (expect type value _ >>= fun _ => modifyVar ref (filled value)) context
      cases checked : expect type value (.mismatch var.name) context with
      | error abort => rw [bind_of_error checked, bind_of_error checked]
      | ok result =>
          cases reads_expect _ _ _ _ _ _ checked
          rw [bind_of_ok checked, bind_of_ok checked, run, run, Program.modifyVar_congr found]
          simp [filled, typed]
  | none =>
      change (modifyVar ref _ >>= fun _ => modifyVar ref _) context = modifyVar ref (filled value) context
      rw [bind_of_ok (run _), run]
      change Except.ok ((), { context with program := (context.program.modifyVar ref _).modifyVar ref _ }) = _
      rw [Program.modifyVar_modifyVar, Program.modifyVar_congr found]
      simp [filled, typed]

/-- Binding a value fills a variable whose type, if it has one, the value satisfies. -/
theorem bind_eq_ok {ref : VarRef} {value : Term} {context after : BuildContext} {u : Unit}
    (run : Build.bind ref value context = .ok (u, after)) :
    ∃ var, slotIn? context.program.tables ref = some var ∧
      (∀ type, var.type? = some type → type.satisfies value = .ok true) ∧
      after = { context with program := context.program.modifyVar ref (filled value) } := by
  obtain ⟨var, _, read, _⟩ := bind_eq_ok_iff.mp run
  have found := (readVar_eq_ok_iff.mp read).1
  rw [bind_eq found] at run
  obtain ⟨_, _, checked, run⟩ := bind_eq_ok_iff.mp run
  cases reads_checkFor var value _ _ _ checked
  cases run
  exact ⟨var, found, fun type typed => checkFor_eq_ok checked typed, rfl⟩

theorem bind_of_satisfies {ref : VarRef} {var : Variable} {value : Term} {context : BuildContext}
    (found : slotIn? context.program.tables ref = some var)
    (fits : ∀ type, var.type? = some type → type.satisfies value = .ok true) :
    Build.bind ref value context =
      .ok ((), { context with program := context.program.modifyVar ref (filled value) }) := by
  have checked : checkFor var value context = .ok ((), context) := by
    unfold checkFor
    cases typed : var.type? with
    | none => rfl
    | some type => exact expect_of_satisfies (fits type typed)
  rw [bind_eq found]
  exact bind_of_ok checked

/-- A local binding declares a variable with its value, and is executed unless the value names a type. -/
theorem buildLocal_eq_ok {locals : TableId} {name : String} {nameSpan span : Span}
    {type? statement? : Option Term} {value : Term} {context after : BuildContext}
    (run : buildLocal locals name nameSpan span type? value context = .ok (statement?, after)) :
    ∃ vars, context.program.tables[locals]? = some vars ∧
      (∀ type, type? = some type → type.satisfies value = .ok true) ∧
      after = { context with
        program := context.program.declare locals (filled value ⟨name, nameSpan, type?, none⟩) } ∧
      statement? = if value.namesType then none
        else some (.untyped (.define ⟨locals, vars.size⟩ value) span) := by
  obtain ⟨target, middle, declares, run⟩ := bind_eq_ok_iff.mp run
  obtain ⟨vars, tableAt, rfl, rfl⟩ := declare_eq_ok declares
  obtain ⟨_, last, binds, run⟩ := bind_eq_ok_iff.mp run
  obtain ⟨var, found, fits, rfl⟩ := bind_eq_ok binds
  have isNew : var = ⟨name, nameSpan, type?, none⟩ :=
    Option.some.inj (found.symm.trans ((slotIn?_declare tableAt _ _).trans (if_pos rfl)))
  subst isNew
  have joined := Program.declare_modifyVar tableAt ⟨name, nameSpan, type?, none⟩ (filled value)
  simp only [joined] at run
  refine ⟨vars, tableAt, fits, ?_⟩
  cases names : value.namesType <;> rw [names] at run <;> cases run <;> exact ⟨rfl, rfl⟩

theorem steady_buildLocal (locals : TableId) (name : String) (nameSpan span : Span) (type? : Option Term)
    (value : Term) : Steady (· = locals) (buildLocal locals name nameSpan span type? value) := by
  intro context statement? after run
  obtain ⟨vars, tableAt, _, rfl, _⟩ := buildLocal_eq_ok run
  exact .declare _ tableAt

theorem steady_buildBareReturn (span : Span) : Steady grown (buildBareReturn span) := by
  refine Moves.get.bind fun context => .ite (.pure _) ?_
  exact (Moves.ofReads (reads_typeText _)).bind fun _ => .refuse

theorem steady_buildReturn (span : Span) (value : Term) : Steady grown (buildReturn span value) :=
  Moves.get.bind fun _ => (Moves.ofReads (reads_expect _ _ _)).bind fun _ => .pure _

theorem steady_buildAssign (span : Span) (target : VarRef) (value : Term) :
    Steady grown (buildAssign span target value) := by
  refine (Moves.ofReads (reads_readVar target)).bind fun var => ?_
  split
  · exact (Moves.ofReads (reads_expect _ _ _)).bind fun _ => .pure _
  · exact .pure _

/-- What building leaves as it is, by the kind of place a phrase stands in. -/
theorem leaves_phrases :
    (∀ phrase, Steady (fun _ => False) (buildValue phrase)) ∧
    (∀ locals phrase, Steady (· = locals) (buildBody locals phrase)) ∧
    (∀ locals phrases, Steady (· = locals) (buildStatements locals phrases)) ∧
    (∀ locals phrase, Steady (· = locals) (buildStatement locals phrase)) := by
  -- A value may stand where more is allowed to change.
  have weaken : ∀ {m : Build Term} {locals : TableId}, Steady (fun _ => False) m → Steady (· = locals) m :=
    fun steady => steady.mono fun _ impossible => impossible.elim
  apply phrase_induction
  case int =>
    intro value span
    rw [buildValue]
    exact .pure _
  case ident =>
    intro name span
    rw [buildValue]
    exact (Moves.ofReads (reads_resolve name span)).bind fun ref =>
      (Moves.ofReads (reads_readVar ref)).bind fun _ => .pure _
  case type =>
    intro phrase isType noName
    rw [buildValue_type isType noName]
    exact .ofReads (reads_buildType _)
  case function =>
    intro params result body span bodyIh
    rw [buildValue]
    exact steady_buildFunction bodyIh
  case sum =>
    intro left right span leftIh rightIh
    rw [buildValue]
    refine leftIh.bind fun _ => rightIh.bind fun _ => ?_
    exact (Moves.ofReads (reads_expectU64 _ _)).bind fun _ =>
      (Moves.ofReads (reads_expectU64 _ _)).bind fun _ => .pure _
  case call =>
    intro callee args span calleeIh
    rw [buildValue]
    exact steady_buildCall calleeIh
  case noValue =>
    intro phrase noValue
    rw [buildValue_refused noValue]
    exact .refuse
  case block =>
    intro locals children span childrenIh
    rw [buildBody]
    exact childrenIh
  case noBlock =>
    intro locals phrase noBlock
    rw [buildBody_refused noBlock]
    exact .refuse
  case done =>
    intro locals
    rw [buildStatements]
    exact .pure _
  case next =>
    intro locals inner span rest innerIh restIh
    rw [buildStatements]
    exact innerIh.bind fun _ => restIh.bind fun _ => .pure _
  case unclosed =>
    intro locals phrase rest unclosed
    rw [buildStatements_refused unclosed]
    exact .refuse
  case binding =>
    intro locals name type? value span valueIh
    rw [buildStatement]
    refine (Moves.ofReads (reads_nameOf name)).bind fun _ => ?_
    refine (Moves.ofReads (reads_optionalType type?)).bind fun _ => ?_
    exact (weaken valueIh).bind fun _ => steady_buildLocal locals _ _ span _ _
  case missingValue =>
    intro locals name type? span
    rw [buildStatement]
    exact (Moves.ofReads (reads_nameOf name)).bind fun _ => .refuse
  case print =>
    intro locals operand span operandIh
    rw [buildStatement]
    exact (weaken operandIh).bind fun _ => (Moves.ofReads (reads_expectU64 _ _)).bind fun _ => .pure _
  case bareReturn =>
    intro locals span
    rw [buildStatement]
    exact (steady_buildBareReturn span).bind fun _ => .pure _
  case valueReturn =>
    intro locals operand span operandIh
    rw [buildStatement]
    exact (weaken operandIh).bind fun _ => (steady_buildReturn span _).bind fun _ => .pure _
  case assign =>
    intro locals target value span valueIh
    rw [buildStatement]
    refine (Moves.ofReads (reads_nameOf target)).bind fun _ => (Moves.ofReads (reads_resolve _ _)).bind ?_
    exact fun _ => (weaken valueIh).bind fun _ => (steady_buildAssign span _ _).bind fun _ => .pure _
  case callAlone =>
    intro locals callee args span calleeIh
    rw [buildStatement]
    exact (weaken (steady_buildCall calleeIh)).bind fun _ => .pure _
  case noStatement =>
    intro locals phrase noStatement
    rw [buildStatement_refused noStatement]
    exact .refuse

theorem leaves_buildValue (phrase : Phrase) : Steady (fun _ => False) (buildValue phrase) :=
  leaves_phrases.1 phrase

end Build

end Rill

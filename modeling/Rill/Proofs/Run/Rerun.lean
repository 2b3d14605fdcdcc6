import Mathlib
import Rill.Proofs.Basic
import Rill.Proofs.Run.Results

/-!
# Running a program again

A run leaves its assignments behind in the program, and the next run starts with them. The main result is
`rerun_repeats`: where every assignment is to a local variable whose type is known, the next run ends in
the same way, with the same value and the same output.

Two runs are followed side by side. They agree on a set of variables that only grows
(`Scene.Agree`): it starts with the globals, which no statement changes, and every statement that stores
into a variable adds the variable. A term is covered when the set has every variable that the term uses,
also for the functions it holds (`Scene.Covered`). Covered terms have equal values in both runs
(`Scene.repeats`), because a statement uses a local variable only behind the statement that computes it.
-/

namespace Rill

/-- Every assignment is to a variable with a type that is no global. -/
def Program.AssignsLocals (program : Program) : Prop :=
  ∀ f ∈ program.functions, ∀ statement ∈ f.body, ∀ target value, statement.shape = .assign target value →
    target.table ≠ program.globals ∧ ∃ var type, program.var target = .ok var ∧ var.type? = some type

namespace Program

variable {program : Program}

theorem AssignsLocals.fitsGlobals (assigns : program.AssignsLocals) : program.FitsGlobals :=
  fun f member statement inBody target value shape isGlobal =>
    absurd isGlobal (assigns f member statement inBody target value shape).1

/-- Whether a variable is local and has a type. -/
def isTypedLocal (program : Program) (target : VarRef) : Bool :=
  target.table != program.globals &&
    match program.var target with
    | .ok var => var.type?.isSome
    | .error _ => false

theorem isTypedLocal_iff {target : VarRef} : program.isTypedLocal target = true ↔
    target.table ≠ program.globals ∧ ∃ var type, program.var target = .ok var ∧ var.type? = some type := by
  rw [isTypedLocal, Bool.and_eq_true, bne_iff_ne]
  cases program.var target <;> simp [Option.isSome_iff_exists]

theorem assignsLocals_iff : program.AssignsLocals ↔ ∀ f ∈ program.functions, ∀ statement ∈ f.body,
    statement.assignPasses (fun target _ => program.isTypedLocal target) = true := by
  simp only [AssignsLocals, Term.assignPasses_iff, isTypedLocal_iff]

instance : DecidablePred AssignsLocals :=
  fun _ => decidable_of_iff _ assignsLocals_iff.symm

end Program

namespace Scene

variable {s : Scene} {chain : ScopeChain} {term value : Term} {known known' : Set VarRef} {α β : Type}

/-! ## Covered terms -/

/-- Every variable with a type that the term uses is in the set. -/
def Covered (s : Scene) (known : Set VarRef) (term : Term) : Prop :=
  ∀ ref var type, term.Uses s.program.functions ref → s.slot? ref = some var → var.type? = some type →
    ref ∈ known

namespace Covered

theorem mono (covered : s.Covered known term) (more : known ⊆ known') : s.Covered known' term :=
  fun ref var type uses found typed => more (covered ref var type uses found typed)

theorem part {part : Term} (covered : s.Covered known term) (member : part ∈ term.shape.parts) :
    s.Covered known part :=
  fun ref var type uses => covered ref var type (Term.uses_iff.mpr (Or.inr (Or.inr ⟨part, member, uses⟩)))

/-- A term without variables, functions and parts. -/
theorem of_plain (noUse : term.shape.use? = none) (noFunction : ∀ id, term.shape ≠ .function id)
    (noParts : term.shape.parts = []) : s.Covered known term := by
  intro ref var type uses _ _
  rcases Term.uses_iff.mp uses with here | ⟨id, isFunction, _⟩ | ⟨part, member, _⟩
  · cases noUse.symm.trans here
  · exact absurd isFunction (noFunction id)
  · rw [noParts] at member
    cases member

theorem void {span : Span} : s.Covered known (.voidAt span) :=
  .of_plain rfl nofun rfl

end Covered

/-! ## Stores that agree -/

/-- The stores have the same output and the same known variables, and these hold covered terms. -/
structure Agree (s : Scene) (known : Set VarRef) (a b : Store) : Prop where
  output : a.output = b.output
  slots : ∀ ref ∈ known, slotIn? a.tables ref = slotIn? b.tables ref
  covered : ∀ ref ∈ known, ∀ var value, slotIn? a.tables ref = some var → var.value? = some value →
    s.Covered known value

/-- Two ends of a step: both have the same result and leave stores that agree, or both stop for the same
reason with the same output. -/
inductive SameEnd (s : Scene) (known : Set VarRef) (post : Set VarRef → α → Prop) :
    EStateM.Result Stop Store α → EStateM.Result Stop Store α → Prop
  | ok {known' : Set VarRef} {result : α} {a b : Store} : known ⊆ known' → s.Agree known' a b →
      post known' result → s.SameEnd known post (.ok result a) (.ok result b)
  | stopped {reason : Stop} {a b : Store} : a.output = b.output →
      s.SameEnd known post (.error reason a) (.error reason b)

/-- The step ends in the same way from any two typed stores that agree. -/
def Repeats (s : Scene) (known : Set VarRef) (m : Eval α) (post : Set VarRef → α → Prop) : Prop :=
  ∀ a b, s.StoreTyped a → s.StoreTyped b → s.Agree known a b → s.SameEnd known post (m a) (m b)

namespace Repeats

variable {m : Eval α} {f : α → Eval β} {middle : α → Prop} {post : Set VarRef → α → Prop}
  {last : Set VarRef → β → Prop}

theorem pure {result : α} (holds : post known result) : s.Repeats known (Pure.pure result) post :=
  fun _ _ _ _ agree => .ok subset_rfl agree holds

theorem stop {reason : Stop} : s.Repeats known (throw reason) post :=
  fun _ _ _ _ agree => .stopped agree.output

theorem fail {fault : Fault} : s.Repeats known (Eval.fail fault) post :=
  fun _ _ _ _ agree => .stopped agree.output

theorem fail_bind {fault : Fault} : s.Repeats known (Eval.fail fault >>= f) last :=
  fun _ _ _ _ agree => .stopped agree.output

/-- The stores in the middle are typed because each run by itself keeps its store typed. -/
theorem bind (keeps : Eval.Keeps s.StoreTyped m middle) (first : s.Repeats known m post)
    (next : ∀ known' result, known ⊆ known' → middle result → post known' result →
      s.Repeats known' (f result) last) : s.Repeats known (m >>= f) last := by
  intro a b typedA typedB agree
  have ends := first a b typedA typedB agree
  have keptA := keeps a typedA
  have keptB := keeps b typedB
  simp only [Bind.bind, EStateM.bind]
  generalize m a = endA at ends keptA ⊢
  generalize m b = endB at ends keptB ⊢
  cases ends with
  | stopped sameOutput => exact .stopped sameOutput
  | @ok known' result a' b' more agree' holds =>
      have ends' := next known' result more keptA.2 holds a' b' keptA.1 keptB.1 agree'
      dsimp only
      generalize f result a' = endA' at ends' ⊢
      generalize f result b' = endB' at ends' ⊢
      cases ends' with
      | stopped sameOutput => exact .stopped sameOutput
      | ok more' agree'' holds' => exact .ok (more.trans more') agree'' holds'

end Repeats

/-- A known variable is read alike in both runs. -/
theorem repeats_readVar {ref : VarRef} {var : Variable} (found : s.slot? ref = some var)
    (isKnown : ref ∈ known) : s.Repeats known (Eval.readVar ref) fun known' read =>
      ∀ value, read.value? = some value → s.Covered known' value := by
  intro a b typedA typedB agree
  obtain ⟨value?, stored, _⟩ := typedA ref var found
  have storedB := (agree.slots ref isKnown).symm.trans stored
  rw [Eval.readVar_of_slot stored, Eval.readVar_of_slot storedB]
  exact .ok subset_rfl agree fun value held => agree.covered ref isKnown _ value stored held

theorem repeats_print (text : String) : s.Repeats known (Eval.print text) fun _ _ => True :=
  fun _ _ _ _ agree =>
    .ok subset_rfl ⟨congrArg (· ++ text) agree.output, agree.slots, agree.covered⟩ trivial

/-- Storing a covered value makes the variable known. -/
theorem repeats_writeVar {target : VarRef} {var : Variable} (found : s.slot? target = some var)
    (covered : s.Covered known value) :
    s.Repeats known (Eval.writeVar target value) fun known' _ => target ∈ known' := by
  intro a b typedA typedB agree
  obtain ⟨_, storedA, _⟩ := typedA target var found
  obtain ⟨_, storedB, _⟩ := typedB target var found
  have more : known ⊆ insert target known := Set.subset_insert _ _
  rw [Eval.writeVar_of_slot storedA, Eval.writeVar_of_slot storedB]
  refine .ok more ⟨agree.output, fun ref isKnown => ?_, fun ref isKnown other held otherAt otherHeld => ?_⟩
    (Set.mem_insert _ _)
  · rw [Eval.slotIn?_written, Eval.slotIn?_written]
    by_cases same : ref = target
    · subst same
      rw [if_pos rfl, if_pos rfl, storedA, storedB]
      rfl
    · rw [if_neg same, if_neg same]
      exact agree.slots ref (isKnown.resolve_left same)
  · rw [Eval.slotIn?_written] at otherAt
    by_cases same : ref = target
    · subst same
      rw [if_pos rfl, storedA] at otherAt
      cases otherAt
      cases otherHeld
      exact covered.mono more
    · rw [if_neg same] at otherAt
      exact (agree.covered ref (isKnown.resolve_left same) other held otherAt otherHeld).mono more

/-! ## Statements -/

/-- The evaluation repeats covered terms that promise a type, and gives covered values. -/
def RepeatsTerms (s : Scene) (evaluate : Term → Eval Term) : Prop :=
  ∀ known term type, s.Built term → s.Promises term type → s.Covered known term →
    s.Repeats known (evaluate term) s.Covered

/-- What running statements gives: a covered value if they return one. A variable that the statement
defines is known unless it returned. -/
def Progress (s : Scene) (statement : Term) (known : Set VarRef) (returned : Option Term) : Prop :=
  match returned with
  | some value => s.Covered known value
  | none => ∀ ref value, statement.shape = .define ref value → ref ∈ known

section Statements

variable {evaluate : Term → Eval Term} {result statement type : Term}

theorem repeats_store {rest : Eval β} {target : VarRef} {var : Variable} {last : Set VarRef → β → Prop}
    (gives : s.Gives evaluate) (repeats : s.RepeatsTerms evaluate)
    (isValue : s.Value chain value) (found : s.slot? target = some var) (promises : s.Promises value type)
    (fits : ∀ varType, var.type? = some varType → s.Promises value varType)
    (covered : s.Covered known value)
    (behind : ∀ known', target ∈ known' → s.Repeats known' rest last) :
    s.Repeats known (evaluate value >>= fun computed => Eval.writeVar target computed >>= fun _ => rest)
      last := by
  refine .bind (gives value ⟨chain, isValue⟩) (repeats known value type ⟨chain, isValue⟩ promises covered) ?_
  rintro known' computed _ ⟨built, outcome⟩ computedCovered
  refine .bind (.writeVar fun store typed => typed.write found ⟨built, fun varType varTyped => ?_⟩)
    (repeats_writeVar found computedCovered) fun known'' _ _ _ isKnown => behind known'' isKnown
  exact (outcome varType (fits varType varTyped)).promises

/-- A covered statement is repeated. -/
theorem repeats_statement (complete : s.Complete) (gives : s.Gives evaluate)
    (repeats : s.RepeatsTerms evaluate) (isStatement : s.Statement chain result statement)
    (resultIn : TypeIn s.program.tables result) (fits : s.FitsTarget statement)
    (typedTarget : ∀ target value, statement.shape = .assign target value →
      ∃ var type, s.slot? target = some var ∧ var.type? = some type)
    (covered : s.Covered known statement) :
    s.Repeats known (Eval.runStatements evaluate [statement]) (s.Progress statement) := by
  have behind : ∀ known', (∀ ref value, statement.shape = .define ref value → ref ∈ known') →
      s.Repeats known' (Eval.runStatements evaluate []) (s.Progress statement) :=
    fun _ computed => .pure computed
  rw [Eval.runStatements]
  cases isStatement with
  | print isValue isU64 =>
      obtain ⟨type, typed, _⟩ := Term.isU64?_iff.mp isU64
      refine .bind (gives _ ⟨chain, isValue⟩) (repeats known _ type ⟨chain, isValue⟩
        (Or.inr (.recorded typed rfl)) (covered.part (List.mem_singleton_self _))) ?_
      intro known' computed _ _ _
      split
      · exact .bind (.print fun _ typed => typed) (repeats_print _) fun known'' _ _ _ _ => behind known'' (by rintro _ _ ⟨⟩)
      · exact .fail_bind
  | call isValue =>
      obtain ⟨type, hasType⟩ := isValue.call_hasType complete
      exact .bind (gives _ ⟨chain, isValue⟩) (repeats known _ type ⟨chain, isValue⟩ (Or.inr hasType) covered)
        fun known' _ _ _ _ => behind known' (by rintro _ _ ⟨⟩)
  | @assign target var value span inChain found isValue =>
      obtain ⟨var', type, found', varTyped⟩ := typedTarget target value rfl
      cases found.symm.trans found'
      have promises : ∀ varType, var.type? = some varType → s.Promises value varType := by
        intro varType typed
        have satisfied := fits target value rfl var varType found typed
        have typeIn := complete.sound.slot_type found typed
        exact Or.inr (isValue.hasType_of_satisfies complete.sound typeIn satisfied).1
      exact repeats_store gives repeats isValue found (promises type varTyped) promises
        (covered.part (List.mem_singleton_self _)) fun known' _ => behind known' (by rintro _ _ ⟨⟩)
  | @define target var value span head found bound isValue names =>
      obtain ⟨type, hasType⟩ := isValue.local_hasType complete names
      refine repeats_store gives repeats isValue found (Or.inr hasType)
        (complete.sound.held found bound).promises (covered.part (List.mem_singleton_self _)) ?_
      intro known' isKnown
      refine behind known' fun ref _ isDefine => ?_
      cases isDefine
      exact isKnown
  | bareReturn isVoid => exact .pure Covered.void
  | @valueReturn value span isValue satisfied =>
      have hasType := (isValue.hasType_of_satisfies complete.sound resultIn satisfied).1
      exact .bind (gives _ ⟨chain, isValue⟩) (repeats known _ result ⟨chain, isValue⟩ (Or.inr hasType)
        (covered.part (List.mem_singleton_self _))) fun _ _ _ _ computedCovered => .pure computedCovered

/-- What is known in the body of a function behind the given statements: what the function needs, and
what the statements have computed. -/
structure KnownBehind (s : Scene) (id : FunctionId) (before : List Term) (known : Set VarRef) : Prop where
  outer : ∀ ref var type, Needs s.program.functions id ref → s.slot? ref = some var →
    var.type? = some type → ref ∈ known
  computed : ∀ statement ∈ before, ∀ ref value, statement.shape = .define ref value → ref ∈ known

/-- The next statement is covered: it uses what the function needs and what was computed before. -/
theorem KnownBehind.covered {id : FunctionId} {f : Function} {before rest : List Term}
    (lexical : s.program.Lexical) (found : s.program.functions[id]? = some f)
    (noArgs : s.program.tables[f.args]? = some #[]) (behind : s.KnownBehind id before known)
    (body : f.body = before ++ statement :: rest) : s.Covered known statement := by
  intro ref var type uses slotAt typed
  have inBody : statement ∈ f.body := by simp [body]
  by_cases isArg : ref.table = f.args
  · obtain ⟨table, tableAt, varAt⟩ := slotIn?_eq_some_iff.mp slotAt
    rw [isArg] at tableAt
    cases noArgs.symm.trans tableAt
    simp at varAt
  · by_cases isLocal : ref.table = f.locals
    · rcases (lexical.orderly id f found).prepared _ (.refl _) before statement rest body ref
        uses isLocal with ⟨define, member, value, isDefine⟩ | ⟨var', slotAt', untyped⟩
      · exact behind.computed define member ref value isDefine
      · cases slotAt.symm.trans slotAt'
        cases untyped.symm.trans typed
    · exact behind.outer ref var type (needs_iff.mpr ⟨f, statement, found, inBody, uses, isArg, isLocal⟩)
        slotAt typed

/-- A final part of the body of a function is repeated. -/
theorem repeats_statements (complete : s.Complete) (lexical : s.program.Lexical)
    (assigns : s.program.AssignsLocals) (gives : s.Gives evaluate) (repeats : s.RepeatsTerms evaluate)
    {id : FunctionId} {f : Function} (found : s.program.functions[id]? = some f)
    (noArgs : s.program.tables[f.args]? = some #[]) {before rest : List Term}
    (body : f.body = before ++ rest) (behind : s.KnownBehind id before known) :
    s.Repeats known (Eval.runStatements evaluate rest) fun known' returned =>
      ∀ value, returned = some value → s.Covered known' value := by
  have member : f ∈ s.program.functions := Array.mem_of_getElem? found
  obtain ⟨outer, function⟩ := complete.sound.functions id f found
  -- What is behind grows with the induction: a statement finds the locals that it uses computed.
  induction rest generalizing before known with
  | nil => exact .pure nofun
  | cons statement rest ih =>
      have inBody : statement ∈ f.body := by simp [body]
      have next : f.body = (before ++ [statement]) ++ rest := by simp [body]
      have isStatement := function.body statement inBody
      have fits := fitsTarget_of_lexical lexical assigns.fitsGlobals f member statement inBody
      have typedTarget : ∀ target value, statement.shape = .assign target value →
          ∃ var type, s.slot? target = some var ∧ var.type? = some type := by
        intro target value shape
        obtain ⟨_, var, type, varAt, typed⟩ := assigns f member statement inBody target value shape
        exact ⟨var, type, Program.var_eq_ok_iff.mp varAt, typed⟩
      rw [Eval.runStatements_first]
      refine .bind (keeps_statement complete gives isStatement function.result fits)
        (repeats_statement complete gives repeats isStatement function.result fits typedTarget
          (behind.covered lexical found noArgs body)) ?_
      rintro known' (_ | value) more _ progress
      · refine ih next ⟨fun ref var type needs slotAt typed => ?_, fun other inBefore => ?_⟩
        · exact more (behind.outer ref var type needs slotAt typed)
        · rcases List.mem_append.mp inBefore with earlier | isStatement
          · exact fun ref value isDefine => more (behind.computed other earlier ref value isDefine)
          · cases List.mem_singleton.mp isStatement
            exact progress
      · refine .pure fun value' same => ?_
        cases same
        exact progress

theorem repeats_callWith (complete : s.Complete) (lexical : s.program.Lexical)
    (assigns : s.program.AssignsLocals) (gives : s.Gives evaluate) (repeats : s.RepeatsTerms evaluate)
    {id : FunctionId} {f : Function} (found : s.program.functions[id]? = some f)
    (noArgs : s.program.tables[f.args]? = some #[]) (behind : s.KnownBehind id [] known) :
    s.Repeats known (Eval.callWith evaluate s.program.functions id) s.Covered := by
  have member : f ∈ s.program.functions := Array.mem_of_getElem? found
  obtain ⟨outer, function⟩ := complete.sound.functions id f found
  have fits := fitsTarget_of_lexical lexical assigns.fitsGlobals f member
  have keeps := keeps_statements complete gives function.result fun statement inBody =>
    ⟨function.body statement inBody, fits statement inBody⟩
  have body := repeats_statements complete lexical assigns gives repeats found noArgs rfl behind
  unfold Eval.callWith
  rw [fetch_eq_ok_iff.mpr found, Eval.ofFault, pure_bind]
  refine .bind keeps body ?_
  rintro known' (_ | value) _ _ covered
  · exact .pure Covered.void
  · exact .pure (covered value rfl)

end Statements

/-! ## Terms -/

/-- A function value that is covered can be called: what the function needs is known. -/
theorem Covered.knownBehind {id : FunctionId} (covered : s.Covered known value)
    (isFunction : value.shape = .function id) : s.KnownBehind id [] known := by
  refine ⟨fun ref var type needs => covered ref var type ?_, nofun⟩
  exact Term.uses_iff.mpr (Or.inr (Or.inl ⟨id, isFunction, needs⟩))

/-- Evaluation repeats covered terms. -/
theorem repeats (complete : s.Complete) (lexical : s.program.Lexical)
    (assigns : s.program.AssignsLocals) (fuel : Nat) :
    s.RepeatsTerms (Eval.evaluate s.program.functions fuel) := by
  have gives := gives complete (fitsTarget_of_lexical lexical assigns.fitsGlobals)
  induction fuel with
  | zero => exact fun _ _ _ _ _ _ => .stop
  | succ fuel ih =>
      rintro known term type ⟨chain, isValue⟩ promises covered
      rw [Eval.evaluate]
      cases isValue with
      | int => exact .pure covered
      | type inTables noName =>
          cases inTables with
          | «variable» => exact absurd rfl (noName _)
          | void | u64 | functionType => exact .fail
      | @«variable» ref var type? span inChain found typed =>
          -- Only a variable with a type is evaluated, and those are known where the term is covered.
          obtain ⟨varType, varTyped, _⟩ := promises.variable_type found typed
          have isKnown : ref ∈ known :=
            covered ref var varType (Term.uses_iff.mpr (Or.inl rfl)) found varTyped
          refine .bind (keeps_readVar found) (repeats_readVar found isKnown) ?_
          intro known' read _ holds heldCovered
          cases held : read.value? with
          | none => exact .fail
          | some value =>
              obtain ⟨built, heldPromises⟩ := holds value held
              exact ih known' value varType built (heldPromises varType varTyped) (heldCovered value held)
      | function => exact .pure covered
      | @sum left right span isLeft isRight leftU64 rightU64 =>
          obtain ⟨leftType, leftTyped, _⟩ := Term.isU64?_iff.mp leftU64
          obtain ⟨rightType, rightTyped, _⟩ := Term.isU64?_iff.mp rightU64
          have leftCovered : s.Covered known left := covered.part (by simp [Term.typed, Term.Shape.parts])
          have rightCovered : s.Covered known right := covered.part (by simp [Term.typed, Term.Shape.parts])
          refine .bind (gives fuel left ⟨chain, isLeft⟩) (ih known left leftType ⟨chain, isLeft⟩
            (Or.inr (.recorded leftTyped rfl)) leftCovered) fun known' leftValue more _ _ => ?_
          refine .bind (gives fuel right ⟨chain, isRight⟩) (ih known' right rightType ⟨chain, isRight⟩
            (Or.inr (.recorded rightTyped rfl)) (rightCovered.mono more)) fun known'' rightValue _ _ _ => ?_
          split
          · exact .pure (.of_plain rfl (by rintro _ ⟨⟩) rfl)
          · exact .fail
      | @call ref calleeType? type? calleeSpan span isCallee callType =>
          obtain ⟨var, result, inner, typeSpan, found, varTyped, _⟩ := complete.callType callType
          have calleePromises : s.Promises ⟨.variable ref, calleeType?, calleeSpan⟩
              ⟨.functionType [] result, inner, typeSpan⟩ := Or.inr (.variable found varTyped)
          have calleeCovered : s.Covered known ⟨.variable ref, calleeType?, calleeSpan⟩ :=
            covered.part (by simp [Term.Shape.parts])
          refine .bind (gives fuel _ ⟨chain, isCallee⟩)
            (ih known _ _ ⟨chain, isCallee⟩ calleePromises calleeCovered) ?_
          rintro known' callee _ ⟨_, outcome⟩ valueCovered
          split
          · next id isFunction =>
            -- The type of the callee has no arguments, so the table of the arguments is empty.
            obtain ⟨f, function, noArgs, _⟩ := (outcome _ calleePromises).callable isFunction
            exact repeats_callWith complete lexical assigns (gives fuel) ih function noArgs
              (valueCovered.knownBehind isFunction)
          · exact .fail

/-! ## Runs -/

/-- The globals. -/
def globalRefs (s : Scene) : Set VarRef :=
  { ref | ref.table = s.program.globals }

/-- No statement stores into a global: bindings are local, and assignments are by assumption. -/
theorem Complete.globals_untouched (complete : s.Complete) (lexical : s.program.Lexical)
    (assigns : s.program.AssignsLocals) : ∀ f ∈ s.program.functions, ∀ statement ∈ f.body, ∀ target,
      statement.Writes target → target.table ≠ s.program.globals := by
  rintro f member statement inBody target ⟨value, isAssign | isDefine⟩
  · exact (assigns f member statement inBody target value isAssign).1
  · obtain ⟨id, inBounds, rfl⟩ := Array.mem_iff_getElem.mp member
    have found := Array.getElem?_eq_getElem inBounds
    obtain ⟨outer, function⟩ := complete.sound.functions id _ found
    have isStatement := function.body statement inBody
    have head : some s.program.functions[id].locals = some target.table := by
      cases isStatement with
      | define head =>
          cases isDefine
          exact head
      | print | call | assign | bareReturn | valueReturn => cases isDefine
    rw [← Option.some.inj head]
    exact (lexical.orderly id _ found).locals

section Runs

variable {tables : Array VariableTable}

/-- Stores with the globals as they were built agree on the globals. -/
theorem agree_globals (lexical : s.program.Lexical)
    (globals : tables[s.program.globals]? = s.program.tables[s.program.globals]?) (output : String) :
    s.Agree s.globalRefs ⟨s.program.tables, output⟩ ⟨tables, output⟩ := by
  refine ⟨rfl, fun ref isGlobal => ?_, fun ref isGlobal var value found held other _ _ uses _ _ => ?_⟩
  · have isGlobal' : ref.table = s.program.globals := isGlobal
    simp only [slotIn?, isGlobal', globals]
  · obtain ⟨t, index⟩ := ref
    cases (isGlobal : t = s.program.globals)
    exact lexical.values _ (.refl _) value ⟨index, var, found, held⟩ other uses

/-- The entry point depends on the globals and on the sizes of the tables. -/
theorem Complete.entry_congr (complete : s.Complete)
    (globals : tables[s.program.globals]? = s.program.tables[s.program.globals]?)
    (sizes : ∀ t : TableId, tables[t]?.map Array.size = s.program.tables[t]?.map Array.size) :
    { s.program with tables }.entry = s.program.entry := by
  obtain ⟨vars, globalsAt⟩ := complete.sound.table_of_frame complete.sound.globals
  have globalsEq : s.program.globalVars = .ok vars := globalsAt
  have globalsEq' : { s.program with tables }.globalVars = .ok vars :=
    fetch_eq_ok_iff.mpr (globals.trans (fetch_eq_ok_iff.mp globalsAt))
  unfold Program.entry
  rw [globalsEq, globalsEq']
  simp only [Except.mapError, bind, Except.bind]
  cases entry : Program.entryPoint? vars with
  | none => rfl
  | some id =>
      obtain ⟨f, table, found, tableAt, _⟩ := complete.entryPoint (fetch_eq_ok_iff.mp globalsAt) entry
      have size := sizes f.args
      rw [tableAt, Option.map_some] at size
      obtain ⟨table', tableAt', sameSize⟩ := Option.map_eq_some_iff.mp size
      simp only [Program.function, Program.table, fetch_eq_ok_iff.mpr found, fetch_eq_ok_iff.mpr tableAt,
        fetch_eq_ok_iff.mpr tableAt', sameSize]

/-- The function of the entry point needs nothing but globals. -/
theorem Complete.entry_known (complete : s.Complete) (lexical : s.program.Lexical) {id : FunctionId}
    (entered : s.program.entry = .ok id) : s.KnownBehind id [] s.globalRefs := by
  obtain ⟨vars, globalsAt⟩ := complete.sound.table_of_frame complete.sound.globals
  obtain ⟨index, var, type?, span, found, held⟩ := Program.exists_entry_global
    (fetch_eq_ok_iff.mp globalsAt) (Program.entryPoint_of_entry globalsAt entered)
  have covered : s.Covered s.globalRefs ⟨.function id, type?, span⟩ := fun ref _ _ uses _ _ =>
    lexical.values _ (.refl _) _ ⟨index, var, found, held⟩ ref uses
  exact covered.knownBehind rfl

/-- Calling the entry point from the variables as they were built, and from any reachable store. -/
theorem Complete.repeats_entry (complete : s.Complete) (lexical : s.program.Lexical)
    (assigns : s.program.AssignsLocals) {id : FunctionId} (entered : s.program.entry = .ok id) (fuel : Nat) :
    s.Repeats s.globalRefs (Eval.call s.program.functions fuel id) s.Covered := by
  have fits := fitsTarget_of_lexical lexical assigns.fitsGlobals
  rcases complete.entry with ⟨id', f, entered', found, noArgs, _⟩ | noEntry | ⟨n, arity⟩
  · cases entered.symm.trans entered'
    exact repeats_callWith complete lexical assigns (gives complete fits fuel)
      (repeats complete lexical assigns fuel) found noArgs (complete.entry_known lexical entered)
  · cases entered.symm.trans noEntry
  · cases entered.symm.trans arity

end Runs

end Scene

/-- Running an accepted program that assigns local variables only, and running it again with what an
earlier run has left behind, however that ended, gives the same result and the same output. -/
theorem rerun_repeats {source : String} {program : Program}
    (checked : Pipeline.check source = .ok program) (assigns : program.AssignsLocals)
    (earlier fuel : Nat) (before output : String) :
    let again := (program.run earlier before).program.run fuel output
    again.result = (program.run fuel output).result ∧ again.output = (program.run fuel output).output := by
  obtain ⟨phrases, built⟩ := check_built checked
  have lexical := buildPhrases_lexical built
  obtain ⟨s, rfl, complete⟩ := buildPhrases_complete built
  have fits := Scene.fitsTarget_of_lexical lexical assigns.fitsGlobals
  have reachable := s.program.reachable_run earlier before
  have globals := reachable.table_eq (complete.globals_untouched lexical assigns)
  have sameEntry := complete.entry_congr globals reachable.table_size
  rw [Program.run_program]
  dsimp only
  generalize (s.program.run earlier before).program.tables = tables at reachable globals sameEntry ⊢
  cases entered : s.program.entry with
  | error halt =>
      rw [Program.run_of_refused entered, Program.run_of_refused (sameEntry.trans entered)]
      exact ⟨rfl, rfl⟩
  | ok id =>
      have typed := complete.storeTyped_of_reachable fits reachable
      have ends := complete.repeats_entry lexical assigns entered fuel ⟨s.program.tables, output⟩
        ⟨tables, output⟩ (complete.sound.storeTyped output) typed
        (Scene.agree_globals lexical globals output)
      rw [Program.run_of_entry entered, Program.run_of_entry (sameEntry.trans entered), Program.invoke,
        Program.invoke]
      generalize Eval.call s.program.functions fuel id ⟨s.program.tables, output⟩ = first at ends ⊢
      generalize Eval.call s.program.functions fuel id ⟨tables, output⟩ = second at ends ⊢
      cases ends with
      | ok _ agree _ => exact ⟨rfl, agree.output.symm⟩
      | @stopped reason _ _ sameOutput => cases reason <;> exact ⟨rfl, sameOutput.symm⟩

/-- A source that leaves a local variable behind with another value than it was built with. -/
def countingLocal : String :=
  "main :: () -> u64 \x7b
     x :: 1;
     bump :: () -> void \x7b x = x + 1; print_u64 x; \x7d;
     bump();
     bump();
     return x;
   \x7d;"

theorem rerun_countingLocal_repeats : ∃ program, Pipeline.check countingLocal = .ok program ∧
    program.AssignsLocals ∧ (program.run 5 "").output = "23" ∧ ∀ earlier fuel before output,
      let again := (program.run earlier before).program.run fuel output
      again.result = (program.run fuel output).result ∧
        again.output = (program.run fuel output).output := by
  have accepted : (Pipeline.check countingLocal).toOption.any (fun program =>
      decide (program.AssignsLocals ∧ (program.run 5 "").output = "23")) = true := by
    decide +kernel
  obtain ⟨program, checked, passes⟩ := any_toOption_iff.mp accepted
  obtain ⟨assigns, printed⟩ := of_decide_eq_true passes
  exact ⟨program, checked, assigns, printed, rerun_repeats checked assigns⟩

end Rill

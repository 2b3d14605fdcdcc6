import Mathlib
import Rill.Proofs.Build.Annotations
import Rill.Proofs.Build.Runs
import Rill.Proofs.Build.Stages

/-!
# What built terms use

A term uses a variable when it reads or assigns it in value position, or when it holds a function whose
statements do. What a function needs is what its statements use of the tables around it (`Needs`).

* A value only uses variables that were visible when it was built (`Build.ValueBuilt`).
* A statement only uses a local variable of its function once a statement before it has computed the
  variable, unless the variable has no type (`Program.Orderly`).
* Every function is held by the value of a global or by a statement of a later function.

`buildPhrases_lexical` says so of every program that was built.
-/

namespace Rill

/-! ## Nodes in value position -/

/-- `node` is a term or occurs in one of its parts. The types recorded in a term do not count. -/
inductive Term.Within (node : Term) : Term → Prop
  | here : Within node node
  | part {term part : Term} : part ∈ term.shape.parts → Within node part → Within node term

/-- The variable that a shape reads or assigns. -/
def Term.Shape.use? {α : Type} : Term.Shape α → Option VarRef
  | .variable ref | .assign ref _ => some ref
  | _ => none

/-- The term holds the function with the id. -/
def Term.Carries (term : Term) (id : FunctionId) : Prop :=
  ∃ node : Term, node.Within term ∧ node.shape = .function id

/-- What a function uses of the tables around it: by itself, or for a function in its statements. -/
inductive Needs (functions : Array Function) : FunctionId → VarRef → Prop
  | own {id : FunctionId} {f : Function} {statement node : Term} {ref : VarRef} :
      functions[id]? = some f → statement ∈ f.body → node.Within statement →
      node.shape.use? = some ref → ref.table ≠ f.args → ref.table ≠ f.locals → Needs functions id ref
  | inner {id inner : FunctionId} {f : Function} {statement : Term} {ref : VarRef} :
      functions[id]? = some f → statement ∈ f.body → statement.Carries inner →
      Needs functions inner ref → ref.table ≠ f.args → ref.table ≠ f.locals → Needs functions id ref

/-- The term uses the variable, or holds a function that needs it. -/
def Term.Uses (functions : Array Function) (term : Term) (ref : VarRef) : Prop :=
  (∃ node : Term, node.Within term ∧ node.shape.use? = some ref) ∨
    ∃ id, term.Carries id ∧ Needs functions id ref

section Nodes

variable {functions : Array Function} {term : Term} {ref : VarRef} {id : FunctionId}

theorem Term.carries_iff :
    term.Carries id ↔ term.shape = .function id ∨ ∃ part ∈ term.shape.parts, part.Carries id := by
  constructor
  · rintro ⟨node, within, isFunction⟩
    cases within with
    | here => exact Or.inl isFunction
    | part member within => exact Or.inr ⟨_, member, node, within, isFunction⟩
  · rintro (isFunction | ⟨part, member, node, within, isFunction⟩)
    · exact ⟨term, .here, isFunction⟩
    · exact ⟨node, .part member within, isFunction⟩

theorem Term.uses_iff :
    term.Uses functions ref ↔ term.shape.use? = some ref ∨
      (∃ id, term.shape = .function id ∧ Needs functions id ref) ∨
      ∃ part ∈ term.shape.parts, part.Uses functions ref := by
  constructor
  · rintro (⟨node, within, uses⟩ | ⟨id, carries, needs⟩)
    · cases within with
      | here => exact Or.inl uses
      | part member within => exact Or.inr (Or.inr ⟨_, member, Or.inl ⟨node, within, uses⟩⟩)
    · rcases Term.carries_iff.mp carries with isFunction | ⟨part, member, carries⟩
      · exact Or.inr (Or.inl ⟨id, isFunction, needs⟩)
      · exact Or.inr (Or.inr ⟨part, member, Or.inr ⟨id, carries, needs⟩⟩)
  · rintro (uses | ⟨id, isFunction, needs⟩ | ⟨part, member, ⟨node, within, uses⟩ | ⟨id, carries, needs⟩⟩)
    · exact Or.inl ⟨term, .here, uses⟩
    · exact Or.inr ⟨id, ⟨term, .here, isFunction⟩, needs⟩
    · exact Or.inl ⟨node, .part member within, uses⟩
    · exact Or.inr ⟨id, Term.carries_iff.mpr (Or.inr ⟨part, member, carries⟩), needs⟩

theorem needs_iff :
    Needs functions id ref ↔ ∃ f statement, functions[id]? = some f ∧ statement ∈ f.body ∧
      statement.Uses functions ref ∧ ref.table ≠ f.args ∧ ref.table ≠ f.locals := by
  constructor
  · intro needs
    cases needs with
    | own found member within uses notArgs notLocals =>
        exact ⟨_, _, found, member, Or.inl ⟨_, within, uses⟩, notArgs, notLocals⟩
    | inner found member carries needs notArgs notLocals =>
        exact ⟨_, _, found, member, Or.inr ⟨_, carries, needs⟩, notArgs, notLocals⟩
  · rintro ⟨f, statement, found, member, ⟨node, within, uses⟩ | ⟨inner, carries, needs⟩, notArgs, notLocals⟩
    · exact .own found member within uses notArgs notLocals
    · exact .inner found member carries needs notArgs notLocals

end Nodes

/-- A later state of a table of functions. -/
def Continues (functions later : Array Function) : Prop :=
  ∀ (id : FunctionId) (f : Function), functions[id]? = some f → later[id]? = some f

theorem Continues.refl (functions : Array Function) : Continues functions functions :=
  fun _ _ found => found

theorem Continues.trans {functions middle later : Array Function} (first : Continues functions middle)
    (second : Continues middle later) : Continues functions later :=
  fun id f found => second id f (first id f found)

/-! ## Contexts -/

namespace BuildContext

open Build (Moves)

variable {context middle after : BuildContext} {grown : TableId → Prop} {ref : VarRef}
  {later : Array Function} {term : Term}

/-- The place is that of a variable in scope. -/
def Visible (context : BuildContext) (ref : VarRef) : Prop :=
  ref.table ∈ context.scope ∧ ∃ var, slotIn? context.program.tables ref = some var

/-- Every variable that the term uses is visible. -/
def Sees (context : BuildContext) (later : Array Function) (term : Term) : Prop :=
  ∀ ref, term.Uses later ref → context.Visible ref

/-- The tables in scope and the table of the globals exist. -/
structure Grounded (context : BuildContext) : Prop where
  scope : context.ScopeIn
  globals : context.program.globals < context.program.tables.size

/-- A table that is there and may not grow stays as it is, so nothing in it becomes visible. -/
theorem Visible.before (visible : after.Visible ref) (grounded : context.Grounded)
    (leaves : Leaves grown context after) (other : ¬ grown ref.table) : context.Visible ref := by
  obtain ⟨inScope, var, found⟩ := visible
  rw [leaves.scope] at inScope
  have tableAt := Array.getElem?_eq_getElem (grounded.scope _ inScope)
  obtain ⟨vars, tableAt', varAt⟩ := slotIn?_eq_some_iff.mp found
  cases (leaves.tables _ _ tableAt other).symm.trans tableAt'
  exact ⟨inScope, var, slotIn?_eq_some_iff.mpr ⟨_, tableAt, varAt⟩⟩

theorem Sees.before (sees : after.Sees later term) (grounded : context.Grounded)
    (leaves : Leaves (fun _ => False) context after) : context.Sees later term :=
  fun ref uses => (sees ref uses).before grounded leaves id

theorem Sees.of_parts (uses : ∀ ref, term.shape.use? = some ref → context.Visible ref)
    (noFunction : ∀ id, term.shape ≠ .function id)
    (parts : ∀ part ∈ term.shape.parts, context.Sees later part) : context.Sees later term := by
  intro ref isUsed
  rcases Term.uses_iff.mp isUsed with here | ⟨id, isFunction, _⟩ | ⟨part, member, inPart⟩
  · exact uses ref here
  · exact absurd isFunction (noFunction id)
  · exact parts part member ref inPart

theorem Sees.of_variable {type? : Option Term} {span : Span} (visible : context.Visible ref) :
    context.Sees later ⟨.variable ref, type?, span⟩ := by
  refine .of_parts (fun other isUsed => ?_) nofun nofun
  cases isUsed
  exact visible

theorem Leaves.continues (leaves : Leaves grown context after)
    (continues : Continues after.program.functions later) : Continues context.program.functions later :=
  fun id f found => continues id f (leaves.functions id f found)

end BuildContext

/-! ## Types -/

namespace Build

open BuildContext (Leaves Grounded Visible Sees)

variable {α β : Type} {context after : BuildContext} {later : Array Function}

/-- Whatever the step gives satisfies `post`. -/
def Gives (m : Build α) (context : BuildContext) (post : α → Prop) : Prop :=
  ∀ a after, m context = .ok (a, after) → post a

theorem Gives.afterRead {m : Build α} {f : α → Build β} {middle : α → Prop} {post : β → Prop}
    (reads : Moves Eq m) (first : Gives m context middle)
    (next : ∀ a, middle a → Gives (f a) context post) : Gives (m >>= f) context post := by
  intro b last run
  obtain ⟨a, after, run₁, run₂⟩ := bind_eq_ok_iff.mp run
  have same := reads _ _ _ run₁
  subst same
  exact next a (first a _ run₁) b last run₂

theorem Gives.pure {a : α} {post : α → Prop} (holds : post a) : Gives (pure a) context post := by
  rintro b after run
  cases run
  exact holds

theorem Gives.refuse {kind : BuildErrorKind} {span : Span} {post : α → Prop} :
    Gives (Build.refuse kind span) context post := by
  rintro a after run
  cases run

theorem Gives.mapM {f : α → Build β} {xs : List α} {post : β → Prop} (reads : ∀ x ∈ xs, Moves Eq (f x))
    (each : ∀ x ∈ xs, Gives (f x) context post) : Gives (xs.mapM f) context fun ys => ∀ y ∈ ys, post y := by
  induction xs with
  | nil => exact .pure (by simp)
  | cons x xs ih =>
      rw [List.mapM_cons]
      have readsRest : ∀ other ∈ xs, Moves Eq (f other) := fun other member => reads other (by simp [member])
      have rest := ih readsRest fun other member => each other (by simp [member])
      exact .afterRead (reads x (by simp)) (each x (by simp)) fun y holds =>
        .afterRead (.mapM readsRest) rest fun ys others => .pure (List.forall_mem_cons.mpr ⟨holds, others⟩)

theorem gives_resolve (name : String) (span : Span) (scope : context.ScopeIn) :
    Gives (resolve name span) context context.Visible :=
  fun _ _ run => (wp_result (wp_resolve name span scope) run).2

theorem sees_plainType (phrase : Phrase) (scope : context.ScopeIn) :
    Gives (plainType phrase) context (context.Sees later) := by
  unfold plainType
  split
  · exact .pure (.of_parts nofun nofun nofun)
  · exact .pure (.of_parts nofun nofun nofun)
  · exact Gives.afterRead (reads_resolve _ _) (gives_resolve _ _ scope) fun ref visible =>
      .pure (.of_variable visible)
  · exact .refuse

theorem sees_functionType {args : List Term} {result : Term} {span : Span}
    (argsSeen : ∀ arg ∈ args, context.Sees later arg) (resultSeen : context.Sees later result) :
    context.Sees later (.untyped (.functionType args result) span) := by
  refine .of_parts nofun nofun fun part member => ?_
  rcases List.mem_append.mp member with inArgs | isResult
  · exact argsSeen part inArgs
  · cases List.mem_singleton.mp isResult
    exact resultSeen

theorem sees_itemTypes {items : List Phrase}
    (each : ∀ item ∈ items, ∀ type, itemType? item = some type →
      Gives (buildType type) context (context.Sees later)) :
    Gives (items.mapM buildItemType) context fun types => ∀ type ∈ types, context.Sees later type :=
  .mapM (fun _ _ => buildItemType_cases .refuse fun type _ => reads_buildType type) fun item member =>
    buildItemType_cases (P := fun m => Gives m context (context.Sees later)) .refuse (each item member)

/-- The names in a type are looked up where the type stands. -/
theorem sees_buildType (phrase : Phrase) (scope : context.ScopeIn) :
    Gives (buildType phrase) context (context.Sees later) := by
  induction phrase using type_induction with
  | plain phrase plain =>
      rw [buildType_plain plain]
      exact sees_plainType phrase scope
  | functionType params result span itemsIh resultIh =>
      rw [buildType_functionType]
      exact .afterRead (reads_itemTypes fun _ _ type _ => reads_buildType type) (sees_itemTypes itemsIh)
        fun args argsSeen => .afterRead (reads_buildType result) resultIh
          fun type typeSeen => .pure (sees_functionType argsSeen typeSeen)

/-! ## What is added -/

end Build

/-- A local variable may be used behind the given statements: one of them computes it, unless it has no
type. -/
def Prepared (tables : Array VariableTable) (before : List Term) (ref : VarRef) : Prop :=
  (∃ statement ∈ before, ∃ value, statement.shape = .define ref value) ∨
    ∃ var, slotIn? tables ref = some var ∧ var.type? = none

namespace Program

/-- An assigned value satisfies the type of its target, if that has one. -/
def Fits (program : Program) (statement : Term) : Prop :=
  ∀ target value, statement.shape = .assign target value →
    ∃ var, slotIn? program.tables target = some var ∧
      ∀ type, var.type? = some type → type.satisfies value = .ok true

/-- A value assigned to anything but a global satisfies the type of its target, if that has one. -/
def FitsTarget (program : Program) (statement : Term) : Prop :=
  ∀ target value, statement.shape = .assign target value → target.table ≠ program.globals →
    ∃ var, slotIn? program.tables target = some var ∧
      ∀ type, var.type? = some type → type.satisfies value = .ok true

/-- The statements of a function use its local variables in order and assign in type. -/
structure Orderly (program : Program) (f : Function) : Prop where
  locals : f.locals ≠ program.globals
  prepared : ∀ later, Continues program.functions later → ∀ before statement rest,
    f.body = before ++ statement :: rest → ∀ ref, statement.Uses later ref → ref.table = f.locals →
      Prepared program.tables before ref
  fits : ∀ statement ∈ f.body, program.FitsTarget statement

variable {program program' : Program} {f : Function} {statement : Term}

theorem Fits.mono (fits : program.Fits statement)
    (slots : ∀ ref var, slotIn? program.tables ref = some var → slotIn? program'.tables ref = some var) :
    program'.Fits statement := by
  intro target value isAssign
  obtain ⟨var, found, satisfied⟩ := fits target value isAssign
  exact ⟨var, slots target var found, satisfied⟩

theorem Fits.fitsTarget (fits : program.Fits statement) : program.FitsTarget statement :=
  fun target value isAssign _ => fits target value isAssign

theorem FitsTarget.mono (fits : program.FitsTarget statement)
    (globals : program'.globals = program.globals)
    (slots : ∀ ref var, ref.table ≠ program.globals → slotIn? program.tables ref = some var →
      slotIn? program'.tables ref = some var) : program'.FitsTarget statement := by
  intro target value isAssign notGlobal
  rw [globals] at notGlobal
  obtain ⟨var, found, satisfied⟩ := fits target value isAssign notGlobal
  exact ⟨var, slots target var notGlobal found, satisfied⟩

theorem Orderly.mono (orderly : program.Orderly f) (globals : program'.globals = program.globals)
    (functions : Continues program.functions program'.functions)
    (slots : ∀ ref var, ref.table ≠ program.globals → slotIn? program.tables ref = some var →
      slotIn? program'.tables ref = some var) : program'.Orderly f where
  locals := globals ▸ orderly.locals
  prepared later continues before statement rest body ref uses isLocal := by
    have continues' : Continues program.functions later :=
      fun id f found => continues id f (functions id f found)
    rcases orderly.prepared later continues' before statement rest body ref uses isLocal with
      defined | ⟨var, found, untyped⟩
    · exact Or.inl defined
    · exact Or.inr ⟨var, slots ref var (isLocal ▸ orderly.locals) found, untyped⟩
  fits statement member := (orderly.fits statement member).mono globals slots

/-- The function is held by a statement of a later function. -/
def Inner (functions : Array Function) (id : FunctionId) : Prop :=
  ∃ (outer : FunctionId) (g : Function), id < outer ∧ functions[outer]? = some g ∧
    ∃ statement ∈ g.body, statement.Carries id

theorem Inner.mono {functions later : Array Function} {id : FunctionId} (inner : Inner functions id)
    (continues : Continues functions later) : Inner later id := by
  obtain ⟨outer, g, inside, found, held⟩ := inner
  exact ⟨outer, g, inside, continues outer g found, held⟩

end Program

namespace BuildContext

/-- What building terms adds to a context: functions that have a place and are orderly. -/
structure Adds (context : BuildContext) (terms : List Term) (after : BuildContext) : Prop where
  tables : context.program.tables.size ≤ after.program.tables.size
  placed : ∀ id, context.program.functions.size ≤ id → id < after.program.functions.size →
    (∃ term ∈ terms, term.Carries id) ∨ Program.Inner after.program.functions id
  orderly : ∀ (id : FunctionId) (f : Function), after.program.functions[id]? = some f →
    context.program.functions[id]? = some f ∨ after.program.Orderly f
  fits : ∀ (id : FunctionId) (f : Function), after.program.functions[id]? = some f →
    context.program.functions[id]? = some f ∨ ∀ statement ∈ f.body, after.program.Fits statement

namespace Adds

variable {context middle after : BuildContext} {grown : TableId → Prop} {terms more : List Term}

/-- A step that adds no functions. -/
theorem ofSame (tables : context.program.tables.size ≤ after.program.tables.size)
    (functions : after.program.functions = context.program.functions) : Adds context terms after where
  tables := tables
  placed id isNew inBounds := by
    rw [functions] at inBounds
    omega
  orderly id f found := Or.inl (functions ▸ found)
  fits id f found := Or.inl (functions ▸ found)

theorem mono (adds : Adds context terms after)
    (carries : ∀ term ∈ terms, ∀ id, term.Carries id → ∃ other ∈ more, other.Carries id) :
    Adds context more after where
  tables := adds.tables
  placed id isNew inBounds := by
    rcases adds.placed id isNew inBounds with ⟨term, member, carried⟩ | inner
    · exact Or.inl (carries term member id carried)
    · exact Or.inr inner
  orderly := adds.orderly
  fits := adds.fits

theorem append (first : Adds context terms middle) (second : Adds middle more after)
    (leaves : Leaves grown middle after) : Adds context (terms ++ more) after where
  tables := first.tables.trans second.tables
  placed id isNew inBounds := by
    by_cases early : id < middle.program.functions.size
    · rcases first.placed id isNew early with ⟨term, member, carried⟩ | inner
      · exact Or.inl ⟨term, List.mem_append_left _ member, carried⟩
      · exact Or.inr (inner.mono leaves.functions)
    · rcases second.placed id (Nat.le_of_not_lt early) inBounds with ⟨term, member, carried⟩ | inner
      · exact Or.inl ⟨term, List.mem_append_right _ member, carried⟩
      · exact Or.inr inner
  orderly id f found := by
    rcases second.orderly id f found with old | new
    · rcases first.orderly id f old with older | orderly
      · exact Or.inl older
      · exact Or.inr (orderly.mono leaves.globals leaves.functions fun ref var _ => leaves.slots ref var)
    · exact Or.inr new
  fits id f found := by
    rcases second.fits id f found with old | new
    · rcases first.fits id f old with older | fits
      · exact Or.inl older
      · exact Or.inr fun statement member => (fits statement member).mono leaves.slots
    · exact Or.inr new

end Adds

theorem Grounded.leaves {context after : BuildContext} {grown : TableId → Prop}
    (grounded : context.Grounded) (leaves : Leaves grown context after)
    (tables : context.program.tables.size ≤ after.program.tables.size) : after.Grounded where
  scope t member := by
    rw [leaves.scope] at member
    exact (grounded.scope t member).trans_le tables
  globals := by
    rw [leaves.globals]
    exact grounded.globals.trans_le tables

end BuildContext

namespace Build

open BuildContext (Leaves Grounded Visible Sees Adds)

variable {context middle after : BuildContext} {locals : TableId} {value : Term}

/-- What holds of a value that was built between two contexts. -/
structure ValueBuilt (context : BuildContext) (value : Term) (after : BuildContext) : Prop where
  adds : context.Adds [value] after
  sees : ∀ later, Continues after.program.functions later → context.Sees later value
  names : value.namesType = true → value.type? = none ∧ after = context

/-- What holds of a statement that was built between two contexts. -/
structure StatementBuilt (locals : TableId) (context : BuildContext) (statement? : Option Term)
    (after : BuildContext) : Prop where
  adds : context.Adds statement?.toList after
  sees : ∀ later, Continues after.program.functions later → ∀ statement ∈ statement?,
    context.Sees later statement
  visible : ∀ ref, after.Visible ref → context.Visible ref ∨
    ref.table = locals ∧ Prepared after.program.tables statement?.toList ref
  fits : ∀ statement ∈ statement?, after.program.Fits statement

/-- What holds of the statements of a block that were built between two contexts. -/
structure StatementsBuilt (locals : TableId) (context : BuildContext) (body : List Term)
    (after : BuildContext) : Prop where
  adds : context.Adds body after
  sees : ∀ later, Continues after.program.functions later → ∀ before statement rest,
    body = before ++ statement :: rest → ∀ ref, statement.Uses later ref → context.Visible ref ∨
      ref.table = locals ∧ Prepared after.program.tables before ref
  fits : ∀ statement ∈ body, after.program.Fits statement

/-- What the step builds in a grounded context is as `built` says. -/
def Builds {α : Type} (m : Build α) (built : BuildContext → α → BuildContext → Prop) : Prop :=
  ∀ context a after, context.Grounded → m context = .ok (a, after) → built context a after

/-! ## Values -/

theorem untyped_buildType (phrase : Phrase) :
    Gives (buildType phrase) context fun type => type.type? = none := by
  intro type after run
  cases (TypeRun.of_ok run).1 <;> rfl

/-- A step that only reads the context, and gives a value that sees what it uses. -/
theorem valueBuilt_of_reads {m : Build Term} (reads : Moves Eq m)
    (sees : ∀ context : BuildContext, ∀ later, context.Grounded → Gives m context (context.Sees later))
    (untyped : ∀ context, Gives m context fun value => value.namesType = true → value.type? = none) :
    Builds m ValueBuilt := by
  intro context value after grounded run
  have same := reads _ _ _ run
  subst same
  exact ⟨.ofSame le_rfl rfl, fun later _ => sees context later grounded value _ run,
    fun names => ⟨untyped context value _ run names, rfl⟩⟩

theorem valueBuilt_type (phrase : Phrase) : Builds (buildType phrase) ValueBuilt :=
  valueBuilt_of_reads (reads_buildType phrase) (fun _ _ grounded => sees_buildType phrase grounded.scope)
    fun _ value _ run _ => untyped_buildType phrase value _ run

theorem valueBuilt_ident (name : String) (span : Span) :
    Builds (buildValue ⟨.ident name, span⟩) ValueBuilt := by
  refine valueBuilt_of_reads ?_ (fun context later grounded => ?_) fun context => ?_
  · rw [buildValue]
    exact (reads_resolve name span).bind fun ref => (reads_readVar ref).bind fun _ => .pure _
  · rw [buildValue]
    exact .afterRead (reads_resolve name span) (gives_resolve name span grounded.scope) fun ref visible =>
      .afterRead (reads_readVar ref) (fun _ _ _ => trivial) fun _ (_ : True) => .pure (.of_variable visible)
  · rw [buildValue]
    refine .afterRead (reads_resolve name span) (fun _ _ _ => trivial) fun ref (_ : True) =>
      .afterRead (reads_readVar ref) (fun _ _ _ => trivial) fun var (_ : True) => .pure ?_
    exact Option.isNone_iff_eq_none.mp

/-- Two values one after the other, as the parts of a term. -/
theorem ValueBuilt.both {left right : Term} (grounded : context.Grounded)
    (first : ValueBuilt context left middle) (second : ValueBuilt middle right after)
    (leaves : Leaves (fun _ => False) context middle) (leaves' : Leaves (fun _ => False) middle after) :
    context.Adds [left, right] after ∧
      ∀ later, Continues after.program.functions later → ∀ part ∈ [left, right], context.Sees later part := by
  refine ⟨first.adds.append second.adds leaves', fun later continues part member => ?_⟩
  rcases List.mem_pair.mp member with rfl | rfl
  · exact first.sees later (leaves'.continues continues)
  · exact (second.sees later continues).before grounded leaves

theorem Adds.wrap {terms : List Term} {term : Term} (adds : context.Adds terms after)
    (parts : term.shape.parts = terms) : context.Adds [term] after :=
  adds.mono fun part member _ carried =>
    ⟨term, List.mem_singleton_self _, Term.carries_iff.mpr (Or.inr ⟨part, parts ▸ member, carried⟩)⟩

theorem valueBuilt_sum {left right : Phrase} {span : Span} (leftIh : Builds (buildValue left) ValueBuilt)
    (rightIh : Builds (buildValue right) ValueBuilt) :
    Builds (buildValue ⟨.sum left right, span⟩) ValueBuilt := by
  intro context value after grounded run
  cases ValueRun.of_ok run with
  | type _ typeRun => cases typeRun
  | sum leftRun rightRun _ _ =>
      have leaves := leaves_buildValue left _ _ _ leftRun
      have leaves' := leaves_buildValue right _ _ _ rightRun
      have leftBuilt := leftIh _ _ _ grounded leftRun
      have rightBuilt := rightIh _ _ _ (grounded.leaves leaves leftBuilt.adds.tables) rightRun
      obtain ⟨adds, sees⟩ := leftBuilt.both grounded rightBuilt leaves leaves'
      refine ⟨Adds.wrap adds rfl, fun later continues => ?_, by rintro ⟨⟩⟩
      exact .of_parts (by rintro _ ⟨⟩) (by rintro _ ⟨⟩) (sees later continues)

theorem valueBuilt_call {span : Span} {args : Phrase} {callee : Build Term}
    (calleeIh : Builds callee ValueBuilt) : Builds (buildCall span args callee) ValueBuilt := by
  intro context value after grounded run
  obtain ⟨_, calleeTerm, middle, ref, type?, calleeRun, _, rfl, program⟩ := buildCall_eq_ok run
  have built := calleeIh _ _ _ grounded calleeRun
  refine ⟨?_, fun later continues => ?_, by rintro ⟨⟩⟩
  · have adds : context.Adds [calleeTerm] after := by
      constructor <;> rw [program]
      · exact built.adds.tables
      · exact built.adds.placed
      · exact built.adds.orderly
      · exact built.adds.fits
    exact Adds.wrap adds rfl
  · rw [program] at continues
    refine .of_parts (by rintro _ ⟨⟩) (by rintro _ ⟨⟩) fun part member => ?_
    cases List.mem_singleton.mp member
    exact built.sees later continues

/-! ## Functions -/

/-- No table and no function is added. -/
structure SameTables (context after : BuildContext) : Prop where
  tables : after.program.tables.size = context.program.tables.size
  functions : after.program.functions = context.program.functions

instance : Std.Refl SameTables := ⟨fun _ => ⟨rfl, rfl⟩⟩

instance : IsTrans BuildContext SameTables where
  trans _ _ _ first second :=
    ⟨second.tables.trans first.tables, second.functions.trans first.functions⟩

theorem sameTables_buildArgument (t : TableId) (phrase : Phrase) :
    Moves SameTables (buildArgument t phrase) := by
  refine Moves.bind (.ofReads (reads_readParam phrase)) fun _ => Moves.bind (.ofReads (reads_buildType _)) ?_
  refine fun _ => Moves.bind (fun context ref after run => ?_) fun _ => .pure _
  obtain ⟨vars, tableAt, _, rfl⟩ := declare_eq_ok run
  exact ⟨by simp [Program.declare], rfl⟩

/-- The context in which the body of a function is built: its two tables are new, and that of its locals
is empty. -/
structure Entered (context : BuildContext) (entered : BuildContext) : Prop where
  tables : entered.program.tables.size = context.program.tables.size + 2
  old : ∀ (t : TableId) (vars : VariableTable), context.program.tables[t]? = some vars →
    entered.program.tables[t]? = some vars
  locals : entered.program.tables[context.program.tables.size + 1]? = some #[]
  functions : entered.program.functions = context.program.functions
  globals : entered.program.globals = context.program.globals
  scope : entered.scope =
    (context.program.tables.size + 1) :: context.program.tables.size :: context.scope

theorem entered_of_arguments {params : Phrase} {argTypes : List Term} {declared : BuildContext}
    (results : List Term)
    (run : (paramItems params).mapM (buildArgument context.program.tables.size) (opened context) =
      .ok (argTypes, declared)) : Entered context { declared with results } := by
  have leaves := Moves.mapM (fun item _ => steady_buildArgument _ item) _ _ _ run
  have same := Moves.mapM (fun item _ => sameTables_buildArgument _ item) _ _ _ run
  refine ⟨same.tables.trans (by simp [opened, Program.addTable]), fun t vars found => ?_, ?_,
    same.functions, leaves.globals, leaves.scope⟩
  · have inBounds := (Array.getElem?_eq_some_iff.mp found).1
    exact leaves.tables t vars (table_opened context t vars found) (Nat.ne_of_lt inBounds)
  · refine leaves.tables _ _ ?_ (Nat.succ_ne_self _)
    exact Array.getElem?_push.trans (if_pos (by simp [Program.addTable]))

theorem function_closed (last : BuildContext) (f : Function) :
    (closed last f).program.functions[last.program.functions.size]? = some f := by
  simp [closed, Program.addFunction]

theorem continues_closed (last : BuildContext) (f : Function) :
    Continues last.program.functions (closed last f).program.functions := by
  intro id g found
  have inBounds := (Array.getElem?_eq_some_iff.mp found).1
  simp [closed, Program.addFunction, Array.getElem?_push, Nat.ne_of_lt inBounds, found]

namespace Entered

variable {entered last : BuildContext} {ref : VarRef}

theorem grounded (into : Entered context entered) (grounded : context.Grounded) : entered.Grounded where
  scope t member := by
    rw [into.scope] at member
    rw [into.tables]
    rcases List.mem_cons.mp member with rfl | member
    · exact Nat.lt_succ_self _
    · rcases List.mem_cons.mp member with rfl | member
      · exact Nat.lt_add_of_pos_right Nat.two_pos
      · exact Nat.lt_add_right 2 (grounded.scope t member)
  globals := by
    rw [into.globals, into.tables]
    exact Nat.lt_add_right 2 grounded.globals

theorem not_visible (into : Entered context entered)
    (isLocal : ref.table = context.program.tables.size + 1) : ¬ entered.Visible ref := by
  rintro ⟨_, var, found⟩
  obtain ⟨vars, tableAt, varAt⟩ := slotIn?_eq_some_iff.mp found
  rw [isLocal, into.locals] at tableAt
  cases tableAt
  simp at varAt

/-- What is visible inside and not the function's own was visible outside. -/
theorem outer_visible (into : Entered context entered) (grounded : context.Grounded)
    (visible : entered.Visible ref) (notArgs : ref.table ≠ context.program.tables.size)
    (notLocals : ref.table ≠ context.program.tables.size + 1) : context.Visible ref := by
  obtain ⟨inScope, var, found⟩ := visible
  rw [into.scope] at inScope
  have inOuter := ((List.mem_cons.mp inScope).resolve_left notLocals |> List.mem_cons.mp).resolve_left notArgs
  have tableAt := Array.getElem?_eq_getElem (grounded.scope _ inOuter)
  obtain ⟨vars, tableAt', varAt⟩ := slotIn?_eq_some_iff.mp found
  cases (into.old _ _ tableAt).symm.trans tableAt'
  exact ⟨inOuter, var, slotIn?_eq_some_iff.mpr ⟨_, tableAt, varAt⟩⟩

section Closing

variable {f : Function}

/-- The statements of a function whose body was built use its local variables in order. -/
theorem orderly (into : Entered context entered) (grounded : context.Grounded)
    (built : StatementsBuilt (context.program.tables.size + 1) entered f.body last)
    (leaves : Leaves (· = context.program.tables.size + 1) entered last)
    (locals : f.locals = context.program.tables.size + 1) : (closed last f).program.Orderly f where
  locals := by
    have globals : last.program.globals = context.program.globals := leaves.globals.trans into.globals
    change f.locals ≠ last.program.globals
    rw [locals, globals]
    exact (Nat.lt_succ_of_lt grounded.globals).ne'
  prepared later continues before statement rest body ref uses isLocal := by
    rw [locals] at isLocal
    -- Nothing in the table of the locals was visible when the body was entered.
    exact ((built.sees later ((continues_closed last f).trans continues) before statement rest body ref
      uses).resolve_left (into.not_visible isLocal)).2
  fits statement member := (built.fits statement member).fitsTarget.mono rfl fun _ _ _ => id

/-- What a function whose body was built needs was visible outside. -/
theorem sees {later : Array Function} {argTypes : List Term} {span : Span}
    (into : Entered context entered) (grounded : context.Grounded)
    (built : StatementsBuilt (context.program.tables.size + 1) entered f.body last)
    (args : f.args = context.program.tables.size) (locals : f.locals = context.program.tables.size + 1)
    (continues : Continues (closed last f).program.functions later) :
    context.Sees later (.typed (.function last.program.functions.size)
      (.untyped (.functionType argTypes f.result) span) span) := by
  intro ref uses
  rcases Term.uses_iff.mp uses with here | ⟨id, isFunction, needs⟩ | ⟨part, member, _⟩
  · cases here
  · cases isFunction
    obtain ⟨g, statement, found, member, uses, notArgs, notLocals⟩ := needs_iff.mp needs
    cases (continues _ _ (function_closed last f)).symm.trans found
    obtain ⟨before, rest, body⟩ := List.append_of_mem member
    rw [args] at notArgs
    rw [locals] at notLocals
    have visible := (built.sees later ((continues_closed last f).trans continues) before statement rest
      body ref uses).resolve_right fun own => notLocals own.1
    exact into.outer_visible grounded visible notArgs notLocals
  · cases member

/-- The function that is added once its body was built. -/
theorem valueBuilt {argTypes : List Term} {span : Span} (into : Entered context entered)
    (grounded : context.Grounded)
    (built : StatementsBuilt (context.program.tables.size + 1) entered f.body last)
    (leaves : Leaves (· = context.program.tables.size + 1) entered last)
    (args : f.args = context.program.tables.size) (locals : f.locals = context.program.tables.size + 1) :
    ValueBuilt context (.typed (.function last.program.functions.size)
      (.untyped (.functionType argTypes f.result) span) span) (closed last f) := by
  have newAt := function_closed last f
  have kept := continues_closed last f
  have functions : ∀ id g, id ≠ last.program.functions.size →
      (closed last f).program.functions[id]? = some g → last.program.functions[id]? = some g := by
    intro id g notLast found
    simpa [closed, Program.addFunction, Array.getElem?_push, notLast] using found
  refine ⟨⟨?_, fun id isNew inBounds => ?_, fun id g found => ?_, fun id g found => ?_⟩,
    fun later continues => ?_, by rintro ⟨⟩⟩
  · have := into.tables
    exact le_trans (by omega) built.adds.tables
  · by_cases isLast : id = last.program.functions.size
    · exact Or.inl ⟨_, List.mem_singleton_self _, _, .here, isLast ▸ rfl⟩
    · have early : id < last.program.functions.size := by
        simp [closed, Program.addFunction] at inBounds
        omega
      rw [← into.functions] at isNew
      refine Or.inr ?_
      rcases built.adds.placed id isNew early with ⟨statement, member, carried⟩ | inner
      · exact ⟨_, f, early, newAt, statement, member, carried⟩
      · exact inner.mono kept
  · by_cases isLast : id = last.program.functions.size
    · subst isLast
      cases newAt.symm.trans found
      exact Or.inr (into.orderly grounded built leaves locals)
    · rcases built.adds.orderly id g (functions id g isLast found) with older | orderly
      · exact Or.inl (into.functions ▸ older)
      · exact Or.inr (orderly.mono rfl kept fun _ _ _ found => found)
  · by_cases isLast : id = last.program.functions.size
    · subst isLast
      cases newAt.symm.trans found
      exact Or.inr built.fits
    · rcases built.adds.fits id g (functions id g isLast found) with older | fits
      · exact Or.inl (into.functions ▸ older)
      · exact Or.inr fits
  · exact into.sees grounded built args locals continues

end Closing

end Entered

theorem valueBuilt_function {span : Span} {params result : Phrase} {body : TableId → Build (List Term)}
    (steady : ∀ locals, Steady (· = locals) (body locals))
    (bodyIh : ∀ locals, Builds (body locals) (StatementsBuilt locals)) :
    Builds (buildFunction span params result body) ValueBuilt := by
  intro context value after grounded run
  obtain ⟨resultType, argTypes, declared, statements, last, _, argsRun, bodyRun, rfl, rfl⟩ :=
    buildFunction_eq_ok run
  have into := entered_of_arguments (resultType :: declared.results) argsRun
  have built := bodyIh _ _ _ _ (into.grounded grounded) bodyRun
  exact into.valueBuilt grounded (f := ⟨span, _, resultType, _, statements⟩) built (steady _ _ _ _ bodyRun)
    rfl rfl

/-! ## Statements -/

/-- Nothing without a type satisfies a type, but for an integer. -/
theorem not_satisfies_of_namesType {type : Term} (names : value.namesType = true)
    (untyped : value.type? = none) : type.satisfies value ≠ .ok true := by
  intro satisfied
  have notInt : ∀ n, value.shape ≠ .int n := by
    intro n isInt
    simp [Term.namesType, isInt] at names
  unfold Term.satisfies at satisfied
  rw [untyped] at satisfied
  split at satisfied
  · cases satisfied
  · split at satisfied
    · next n isInt => exact notInt n isInt
    · cases satisfied
  · cases satisfied
  · cases satisfied
  · cases satisfied

/-- A statement around a value. -/
theorem ValueBuilt.statement {statement : Term} (built : ValueBuilt context value after)
    (grounded : context.Grounded) (leaves : Leaves (fun _ => False) context after)
    (parts : statement.shape.parts = [value]) (noFunction : ∀ id, statement.shape ≠ .function id)
    (uses : ∀ ref, statement.shape.use? = some ref → context.Visible ref)
    (fits : after.program.Fits statement) :
    StatementBuilt locals context (some statement) after := by
  refine ⟨Adds.wrap built.adds parts, fun later continues other isStatement => ?_, fun ref visible => ?_,
    fun other isStatement => ?_⟩
  · cases isStatement
    refine .of_parts uses noFunction fun part member => ?_
    rw [parts] at member
    cases List.mem_singleton.mp member
    exact built.sees later continues
  · exact Or.inl (visible.before grounded leaves id)
  · cases isStatement
    exact fits

/-- A call as a statement. -/
theorem ValueBuilt.callStatement {span : Span} {callee args : Phrase} {call : Term}
    (built : ValueBuilt context call after) (grounded : context.Grounded)
    (run : buildCall span args (buildValue callee) context = .ok (call, after)) :
    StatementBuilt locals context (some call) after := by
  have leaves := steady_buildCall (leaves_buildValue callee) _ _ _ run
  obtain ⟨_, calleeTerm, _, _, type?, _, _, rfl, _⟩ := buildCall_eq_ok run
  refine ⟨built.adds, fun later continues other isStatement => ?_,
    fun ref visible => Or.inl (visible.before grounded leaves id), fun other isStatement target value isAssign => ?_⟩
  · cases isStatement
    exact built.sees later continues
  · cases isStatement
    cases isAssign

/-- A local binding: the new variable is computed by the statement, or it has no type. -/
theorem ValueBuilt.local {name : String} {nameSpan span : Span} {type? statement? : Option Term}
    (built : ValueBuilt context value middle) (grounded : context.Grounded)
    (leaves : Leaves (fun _ => False) context middle)
    (run : buildLocal locals name nameSpan span type? value middle = .ok (statement?, after)) :
    StatementBuilt locals context statement? after := by
  have steady := steady_buildLocal _ _ _ _ _ _ _ _ _ run
  obtain ⟨vars, tableAt, fits, rfl, rfl⟩ := buildLocal_eq_ok run
  have slots : ∀ ref, slotIn? (middle.program.declare locals
      (filled value ⟨name, nameSpan, type?, none⟩)).tables ref =
        if ref = ⟨locals, vars.size⟩ then some (filled value ⟨name, nameSpan, type?, none⟩)
        else slotIn? middle.program.tables ref := slotIn?_declare tableAt _
  have unchanged : middle.Adds [] { middle with
      program := middle.program.declare locals (filled value ⟨name, nameSpan, type?, none⟩) } :=
    .ofSame (by simp [Program.declare]) rfl
  -- What was visible before stays so; the new variable is the only other one.
  have visible : ∀ ref : VarRef, Visible { middle with
      program := middle.program.declare locals (filled value ⟨name, nameSpan, type?, none⟩) } ref →
      context.Visible ref ∨ ref = ⟨locals, vars.size⟩ := by
    rintro ref ⟨inScope, var, found⟩
    rw [slots] at found
    split at found
    · next isNew => exact Or.inr isNew
    · have inMiddle : middle.Visible ref := ⟨inScope, var, found⟩
      exact Or.inl (inMiddle.before grounded leaves id)
  cases names : value.namesType with
  | true =>
      obtain ⟨untyped, rfl⟩ := built.names names
      rw [if_pos rfl]
      have noType : type? = none := by
        cases type? with
        | none => rfl
        | some type => exact absurd (fits type rfl) (not_satisfies_of_namesType names untyped)
      refine ⟨unchanged, by rintro _ _ _ ⟨⟩, fun ref isVisible => ?_, by rintro _ ⟨⟩⟩
      rcases visible ref isVisible with old | rfl
      · exact Or.inl old
      · refine Or.inr ⟨rfl, Or.inr ⟨_, (slots _).trans (if_pos rfl), ?_⟩⟩
        simp [filled, noType, untyped]
  | false =>
      rw [if_neg Bool.false_ne_true]
      refine ⟨Adds.wrap (built.adds.append unchanged steady) rfl, fun later continues statement isStatement => ?_,
        fun ref isVisible => ?_, fun statement isStatement target value isAssign => ?_⟩
      · cases isStatement
        refine .of_parts (by rintro _ ⟨⟩) (by rintro _ ⟨⟩) fun part member => ?_
        cases List.mem_singleton.mp member
        exact built.sees later continues
      · rcases visible ref isVisible with old | rfl
        · exact Or.inl old
        · exact Or.inr ⟨rfl, Or.inl ⟨_, List.mem_singleton_self _, value, rfl⟩⟩
      · cases isStatement
        cases isAssign

/-- A statement before others. -/
theorem StatementBuilt.cons {first : Option Term} {others : List Term}
    (built : StatementBuilt locals context first middle) (rest : StatementsBuilt locals middle others after)
    (leaves : Leaves (· = locals) middle after) :
    StatementsBuilt locals context (first.toList ++ others) after := by
  have prepared : ∀ {before : List Term} {ref : VarRef}, Prepared middle.program.tables before ref →
      Prepared after.program.tables before ref := by
    rintro before ref (defined | ⟨var, found, untyped⟩)
    · exact Or.inl defined
    · exact Or.inr ⟨var, leaves.slots ref var found, untyped⟩
  have more : ∀ {before before' : List Term} {ref : VarRef}, before ⊆ before' →
      Prepared after.program.tables before ref → Prepared after.program.tables before' ref := by
    rintro before before' ref subset (⟨statement, member, defined⟩ | untyped)
    · exact Or.inl ⟨statement, subset member, defined⟩
    · exact Or.inr untyped
  -- The uses of the statements behind the first one.
  have later : ∀ functions, Continues after.program.functions functions →
      ∀ before statement behind, others = before ++ statement :: behind →
      ∀ ref, statement.Uses functions ref → context.Visible ref ∨
        ref.table = locals ∧ Prepared after.program.tables (first.toList ++ before) ref := by
    intro functions continues before statement behind isOthers ref uses
    rcases rest.sees functions continues before statement behind isOthers ref uses with visible | ⟨own, known⟩
    · rcases built.visible ref visible with outside | ⟨own, known⟩
      · exact Or.inl outside
      · exact Or.inr ⟨own, more (List.subset_append_left _ _) (prepared known)⟩
    · exact Or.inr ⟨own, more (List.subset_append_right _ _) known⟩
  refine ⟨built.adds.append rest.adds leaves, fun functions continues before statement behind body ref uses => ?_,
    fun statement member => ?_⟩
  · cases first with
    | none => exact later functions continues before statement behind body ref uses
    | some head =>
        cases before with
        | nil =>
            cases body
            exact Or.inl (built.sees functions (leaves.continues continues) _ rfl ref uses)
        | cons head' before =>
            obtain ⟨rfl, isOthers⟩ := List.cons.inj body
            exact later functions continues before statement behind isOthers ref uses
  · rcases List.mem_append.mp member with isFirst | isOther
    · exact (built.fits statement (Option.mem_toList.mp isFirst)).mono leaves.slots
    · exact rest.fits statement isOther

/-- What holds of everything that is built, by the kind of place it stands in. -/
theorem builds_uses :
    (∀ phrase, Builds (buildValue phrase) ValueBuilt) ∧
    (∀ locals phrase, Builds (buildBody locals phrase) (StatementsBuilt locals)) ∧
    (∀ locals phrases, Builds (buildStatements locals phrases) (StatementsBuilt locals)) ∧
    (∀ locals phrase, Builds (buildStatement locals phrase) (StatementBuilt locals)) := by
  apply phrase_induction
  case int =>
    intro value span context built after grounded run
    rw [buildValue] at run
    cases run
    refine ⟨.ofSame le_rfl rfl, fun _ _ => ?_, by rintro ⟨⟩⟩
    exact .of_parts (by rintro _ ⟨⟩) (by rintro _ ⟨⟩) (by rintro _ ⟨⟩)
  case ident => exact valueBuilt_ident
  case type =>
    intro phrase isType noName
    rw [buildValue_type isType noName]
    exact valueBuilt_type phrase
  case function =>
    intro params result body span bodyIh
    rw [buildValue]
    exact valueBuilt_function (fun locals => leaves_phrases.2.1 locals body) bodyIh
  case sum =>
    intro left right span leftIh rightIh
    exact valueBuilt_sum leftIh rightIh
  case call =>
    intro callee args span calleeIh
    rw [buildValue]
    exact valueBuilt_call calleeIh
  case noValue =>
    intro phrase noValue context value after grounded run
    rw [buildValue_refused noValue] at run
    cases run
  case block =>
    intro locals children span childrenIh
    rw [buildBody]
    exact childrenIh
  case noBlock =>
    intro locals phrase noBlock context value after grounded run
    rw [buildBody_refused noBlock] at run
    cases run
  case done =>
    intro locals context body after grounded run
    rw [buildStatements] at run
    cases run
    exact ⟨.ofSame le_rfl rfl, fun _ _ before statement rest isNil => by simp at isNil, by rintro _ ⟨⟩⟩
  case next =>
    intro locals inner span rest innerIh restIh context body after grounded run
    obtain ⟨_, _, first, middle, others, isInner, firstRun, restRun, rfl⟩ := buildStatements_eq_ok run
    cases isInner
    have leaves := leaves_phrases.2.2.2 locals inner _ _ _ firstRun
    have firstBuilt := innerIh _ _ _ grounded firstRun
    exact firstBuilt.cons (restIh _ _ _ (grounded.leaves leaves firstBuilt.adds.tables) restRun)
      (leaves_phrases.2.2.1 locals rest _ _ _ restRun)
  case unclosed =>
    intro locals phrase rest unclosed context body after grounded run
    rw [buildStatements_refused unclosed] at run
    cases run
  case binding =>
    intro locals name type? value span valueIh context statement? after grounded run
    cases StatementRun.of_ok run with
    | binding _ valueRun localRun =>
        exact (valueIh _ _ _ grounded valueRun).local grounded (leaves_buildValue value _ _ _ valueRun) localRun
  case missingValue =>
    intro locals name type? span context statement? after grounded run
    cases StatementRun.of_ok run
  case print =>
    intro locals operand span operandIh context statement? after grounded run
    cases StatementRun.of_ok run with
    | print valueRun _ =>
        exact (operandIh _ _ _ grounded valueRun).statement grounded (leaves_buildValue operand _ _ _ valueRun)
          rfl (by rintro _ ⟨⟩) (by rintro _ ⟨⟩) (by rintro _ _ ⟨⟩)
  case bareReturn =>
    intro locals span context statement? after grounded run
    cases StatementRun.of_ok run
    refine ⟨.ofSame le_rfl rfl, fun later _ statement isStatement => ?_, fun ref => Or.inl, ?_⟩
    · cases isStatement
      exact .of_parts (by rintro _ ⟨⟩) (by rintro _ ⟨⟩) (by rintro _ ⟨⟩)
    · rintro statement isStatement target value isAssign
      cases isStatement
      cases isAssign
  case valueReturn =>
    intro locals operand span operandIh context statement? after grounded run
    cases StatementRun.of_ok run with
    | valueReturn valueRun =>
        exact (operandIh _ _ _ grounded valueRun).statement grounded (leaves_buildValue operand _ _ _ valueRun)
          rfl (by rintro _ ⟨⟩) (by rintro _ ⟨⟩) (by rintro _ _ ⟨⟩)
  case assign =>
    intro locals target value span valueIh context statement? after grounded run
    cases StatementRun.of_ok run with
    | assign resolved valueRun found fits =>
        refine (valueIh _ _ _ grounded valueRun).statement grounded (leaves_buildValue value _ _ _ valueRun)
          rfl (by rintro _ ⟨⟩) (fun other isTarget => ?_) fun other assigned isAssign => ?_
        · cases isTarget
          exact gives_resolve _ _ grounded.scope _ _ resolved
        · cases isAssign
          exact ⟨_, found, fits⟩
  case callAlone =>
    intro locals callee args span calleeIh context statement? after grounded run
    cases StatementRun.of_ok run with
    | call callRun => exact (valueBuilt_call calleeIh _ _ _ grounded callRun).callStatement grounded callRun
  case noStatement =>
    intro locals phrase noStatement context statement? after grounded run
    rw [buildStatement_refused noStatement] at run
    cases run

end Build

end Rill

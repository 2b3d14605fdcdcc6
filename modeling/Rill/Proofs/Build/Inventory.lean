import Mathlib
import Rill.Proofs.Basic
import Rill.Proofs.Build.Signatures
import Rill.Proofs.Reduction.Literals

/-!
# What a build makes of a source

A build makes one function of every function literal, with two tables of its own, and one variable of
every binding. The main result is `build_inventory`: nothing is lost on the way from the tree to the
program, and nothing is there twice.

* `Program.Renders` says what a function has of its literal: its parameters in its argument table, its
  local bindings in its other table, and its statements in their order, but for bindings that name types.
* Building a phrase adds the functions of its literals and their tables, and nothing else
  (`BuildContext.Gains`). Types hold no literals (`Build.clean_buildType`).
* The literals of the top level are the function nodes of the tree (`reduce_literals`).
-/

namespace Rill

/-- The two tables of a function. -/
def Function.tables (f : Function) : List TableId :=
  [f.args, f.locals]

/-! ## Programs and phrases -/

namespace Program

/-- The variable at the place has the name. -/
def Names (program : Program) (ref : VarRef) (name : String) : Prop :=
  ∃ var, slotIn? program.tables ref = some var ∧ var.name = name

/-- The value is what the phrase says. -/
inductive Stands (program : Program) : Phrase → Term → Prop
  | int {n : UInt64} {span : Span} : Stands program ⟨.int n, span⟩ (.intAt n span)
  | void {span : Span} : Stands program ⟨.void, span⟩ (.voidAt span)
  | u64 {span : Span} : Stands program ⟨.u64, span⟩ (.u64At span)
  | functionType {params result : Phrase} {args : List Term} {type : Term} {span : Span} :
      Stands program ⟨.functionType params result, span⟩ (.untyped (.functionType args type) span)
  | name {name : String} {ref : VarRef} {type? : Option Term} {span : Span} :
      program.Names ref name → Stands program ⟨.ident name, span⟩ ⟨.variable ref, type?, span⟩
  | function {params result body : Phrase} {id : FunctionId} {f : Function} {type? : Option Term}
      {span : Span} : program.functions[id]? = some f → f.span = span →
      Stands program ⟨.function params result body, span⟩ ⟨.function id, type?, span⟩
  | sum {left right : Phrase} {leftTerm rightTerm : Term} {type? : Option Term} {span : Span} :
      Stands program left leftTerm → Stands program right rightTerm →
      Stands program ⟨.sum left right, span⟩ ⟨.sum leftTerm rightTerm, type?, span⟩
  | call {callee args : Phrase} {calleeTerm : Term} {type? : Option Term} {span : Span} :
      Stands program callee calleeTerm →
      Stands program ⟨.call callee args, span⟩ ⟨.call calleeTerm [], type?, span⟩

/-- The statement does what the phrase says. -/
inductive Performs (program : Program) : Phrase → Term → Prop
  | print {operand : Phrase} {value : Term} {span : Span} : program.Stands operand value →
      Performs program ⟨.printU64 operand, span⟩ (.untyped (.printU64 value) span)
  | bareReturn {span : Span} :
      Performs program ⟨.returnWith none, span⟩ (.untyped (.returnWith none) span)
  | valueReturn {operand : Phrase} {value : Term} {span : Span} : program.Stands operand value →
      Performs program ⟨.returnWith (some operand), span⟩ (.untyped (.returnWith (some value)) span)
  | assign {name : String} {nameSpan span : Span} {phrase : Phrase} {target : VarRef} {value : Term} :
      program.Names target name → program.Stands phrase value →
      Performs program ⟨.assign ⟨.ident name, nameSpan⟩ phrase, span⟩ (.untyped (.assign target value) span)
  | call {callee args : Phrase} {call : Term} {span : Span} :
      program.Stands ⟨.call callee args, span⟩ call → Performs program ⟨.call callee args, span⟩ call

/-- The variable at the place has the name and holds what the phrase says. -/
def Binds (program : Program) (ref : VarRef) (name : String) (phrase : Phrase) (value : Term) : Prop :=
  ∃ var, slotIn? program.tables ref = some var ∧ var.name = name ∧ var.value? = some value ∧
    program.Stands phrase value

/-- What one statement of a body becomes, when `index` local variables are declared before it and `next`
behind it. A binding declares the next one, and is executed unless its value names a type. -/
inductive Follows (program : Program) (locals : TableId) : Nat → Phrase → Option Term → Nat → Prop
  | type {name : String} {nameSpan span : Span} {type? : Option Phrase} {phrase : Phrase} {value : Term}
      {index : Nat} : program.Binds ⟨locals, index⟩ name phrase value → value.namesType = true →
      Follows program locals index ⟨.binding ⟨.ident name, nameSpan⟩ type? (some phrase), span⟩ none (index + 1)
  | define {name : String} {nameSpan span : Span} {type? : Option Phrase} {phrase : Phrase} {value : Term}
      {index : Nat} : program.Binds ⟨locals, index⟩ name phrase value → value.namesType = false →
      Follows program locals index ⟨.binding ⟨.ident name, nameSpan⟩ type? (some phrase), span⟩
        (some (.untyped (.define ⟨locals, index⟩ value) span)) (index + 1)
  | perform {phrase : Phrase} {statement : Term} {index : Nat} : program.Performs phrase statement →
      Follows program locals index phrase (some statement) index

/-- What the statements of a body become, from the local variable at `index` on to the last one. -/
inductive Lists (program : Program) (locals : TableId) : Nat → List Phrase → List Term → Prop
  | nil {vars : VariableTable} : program.tables[locals]? = some vars → Lists program locals vars.size [] []
  | cons {inner : Phrase} {outer : Span} {rest : List Phrase} {statement? : Option Term} {body : List Term}
      {index next : Nat} : program.Follows locals index inner statement? next →
      Lists program locals next rest body →
      Lists program locals index (⟨.statement inner, outer⟩ :: rest) (statement?.toList ++ body)

/-- The variable is that of a parameter: it has a type and no value. -/
def IsParameter (item : Phrase) (var : Variable) : Prop :=
  ∃ phrase type, item.param? = some (var.name, phrase) ∧ var.type? = some type ∧ var.value? = none

/-- The function is that of the literal. -/
inductive Renders (program : Program) : Phrase → Function → Prop
  | mk {params result : Phrase} {children : List Phrase} {bodySpan span : Span} {f : Function}
      {args : VariableTable} : f.span = span → program.tables[f.args]? = some args →
      List.Forall₂ IsParameter (Build.paramItems params) args.toList →
      program.Lists f.locals 0 children f.body →
      Renders program ⟨.function params result ⟨.curly children, bodySpan⟩, span⟩ f

/-! ## Later states -/

/-- A later state of the program has its functions, and its variables by their names. -/
structure Retains (program later : Program) : Prop where
  names : ∀ ref name, program.Names ref name → later.Names ref name
  functions : Continues program.functions later.functions

theorem Retains.trans {program middle later : Program} (first : program.Retains middle)
    (second : middle.Retains later) : program.Retains later where
  names ref name named := second.names ref name (first.names ref name named)
  functions := first.functions.trans second.functions

/-- A later state of the program that also has every table but that of the globals as it was. -/
structure Carries (program later : Program) : Prop where
  retains : program.Retains later
  tables : ∀ t vars, t ≠ 0 → program.tables[t]? = some vars → later.tables[t]? = some vars

theorem Carries.trans {program middle later : Program} (first : program.Carries middle)
    (second : middle.Carries later) : program.Carries later where
  retains := first.retains.trans second.retains
  tables t vars notGlobal found := second.tables t vars notGlobal (first.tables t vars notGlobal found)

section Mono

variable {program later : Program} {locals : TableId} {index next : Nat} {phrase : Phrase} {value : Term}

theorem Stands.mono (stands : program.Stands phrase value) (retains : program.Retains later) :
    later.Stands phrase value := by
  induction stands with
  | int => exact .int
  | void => exact .void
  | u64 => exact .u64
  | functionType => exact .functionType
  | name named => exact .name (retains.names _ _ named)
  | function found spanned => exact .function (retains.functions _ _ found) spanned
  | sum _ _ left right => exact .sum left right
  | call _ callee => exact .call callee

theorem Performs.mono (performs : program.Performs phrase value) (retains : program.Retains later) :
    later.Performs phrase value := by
  cases performs with
  | print stands => exact .print (stands.mono retains)
  | bareReturn => exact .bareReturn
  | valueReturn stands => exact .valueReturn (stands.mono retains)
  | assign named stands => exact .assign (retains.names _ _ named) (stands.mono retains)
  | call stands => exact .call (stands.mono retains)

theorem Binds.mono {ref : VarRef} {name : String} (binds : program.Binds ref name phrase value)
    (retains : program.Retains later)
    (slot : ∀ var, slotIn? program.tables ref = some var → slotIn? later.tables ref = some var) :
    later.Binds ref name phrase value := by
  obtain ⟨var, found, named, held, stands⟩ := binds
  exact ⟨var, slot var found, named, held, stands.mono retains⟩

theorem Follows.mono {statement? : Option Term} (follows : program.Follows locals index phrase statement? next)
    (retains : program.Retains later)
    (slots : ∀ i var, slotIn? program.tables ⟨locals, i⟩ = some var →
      slotIn? later.tables ⟨locals, i⟩ = some var) : later.Follows locals index phrase statement? next := by
  cases follows with
  | type binds names => exact .type (binds.mono retains (slots _)) names
  | define binds names => exact .define (binds.mono retains (slots _)) names
  | perform performs => exact .perform (performs.mono retains)

theorem Lists.mono {phrases : List Phrase} {body : List Term}
    (lists : program.Lists locals index phrases body) (retains : program.Retains later)
    (table : ∀ vars, program.tables[locals]? = some vars → later.tables[locals]? = some vars) :
    later.Lists locals index phrases body := by
  induction lists with
  | nil tableAt => exact .nil (table _ tableAt)
  | cons follows _ ih =>
      refine .cons (follows.mono retains fun i var found => ?_) ih
      obtain ⟨vars, tableAt, varAt⟩ := slotIn?_eq_some_iff.mp found
      exact slotIn?_eq_some_iff.mpr ⟨vars, table vars tableAt, varAt⟩

theorem Renders.mono {f : Function} (renders : program.Renders phrase f) (retains : program.Retains later)
    (tables : ∀ t ∈ f.tables, ∀ vars, program.tables[t]? = some vars → later.tables[t]? = some vars) :
    later.Renders phrase f := by
  cases renders with
  | mk spanned argsAt params lists =>
      refine .mk spanned (tables f.args (by simp [Function.tables]) _ argsAt) params (lists.mono retains ?_)
      exact tables f.locals (by simp [Function.tables])

theorem forall₂_renders_mono {literals : List Phrase} {functions : List Function}
    (rendered : List.Forall₂ program.Renders literals functions) (retains : program.Retains later)
    (tables : ∀ f ∈ functions, ∀ t ∈ f.tables, ∀ vars, program.tables[t]? = some vars →
      later.tables[t]? = some vars) : List.Forall₂ later.Renders literals functions := by
  induction rendered with
  | nil => exact .nil
  | cons renders _ ih =>
      obtain ⟨first, rest⟩ := List.forall_mem_cons.mp tables
      exact .cons (renders.mono retains first) (ih rest)

end Mono

end Program

/-! ## What is added -/

namespace BuildContext

variable {context middle after : BuildContext} {grown : TableId → Prop} {literals more : List Phrase}
  {added others : List Function}

theorem Leaves.retains (leaves : Leaves grown context after) : context.program.Retains after.program where
  names ref name := by
    rintro ⟨var, found, named⟩
    exact ⟨var, leaves.slots ref var found, named⟩
  functions := leaves.functions

theorem Leaves.carries (leaves : Leaves (fun _ => False) context after) :
    context.program.Carries after.program :=
  ⟨leaves.retains, fun t vars _ tableAt => leaves.tables t vars tableAt id⟩

/-- What was added since: the functions of the literals, and their tables. -/
structure Gains (context : BuildContext) (literals : List Phrase) (added : List Function)
    (after : BuildContext) : Prop where
  functions : after.program.functions.toList = context.program.functions.toList ++ added
  rendered : List.Forall₂ after.program.Renders literals added
  tables : after.program.tables.size = context.program.tables.size + 2 * added.length
  used : (added.flatMap Function.tables).Perm
    (List.range' context.program.tables.size (2 * added.length))

/-- A step that adds no functions and no tables. -/
theorem Gains.none (functions : after.program.functions = context.program.functions)
    (tables : after.program.tables.size = context.program.tables.size) : Gains context [] [] after where
  functions := by rw [functions, List.append_nil]
  rendered := .nil
  tables := tables
  used := .nil

/-- Only the program of the later context matters. -/
theorem Gains.congr (gains : Gains context literals added middle) (same : after.program = middle.program) :
    Gains context literals added after := by
  obtain ⟨functions, rendered, tables, used⟩ := gains
  rw [← same] at functions rendered tables
  exact ⟨functions, rendered, tables, used⟩

/-- The tables of a function that was added are new. -/
theorem Gains.tables_new (gains : Gains context literals added after) {f : Function} (isNew : f ∈ added)
    {t : TableId} (isUsed : t ∈ f.tables) : context.program.tables.size ≤ t := by
  have inRange := gains.used.mem_iff.mp (List.mem_flatMap.mpr ⟨f, isNew, isUsed⟩)
  exact (List.mem_range'_1.mp inRange).1

theorem Gains.append (first : Gains context literals added middle) (second : Gains middle more others after)
    (retains : middle.program.Retains after.program)
    (kept : ∀ t vars, context.program.tables.size ≤ t → middle.program.tables[t]? = some vars →
      after.program.tables[t]? = some vars) :
    Gains context (literals ++ more) (added ++ others) after where
  functions := by rw [second.functions, first.functions, List.append_assoc]
  rendered := by
    have early := Program.forall₂_renders_mono first.rendered retains fun f isNew t isUsed vars found =>
      kept t vars (first.tables_new isNew isUsed) found
    exact List.rel_append early second.rendered
  tables := by
    rw [second.tables, first.tables, List.length_append]
    omega
  used := by
    have starts : middle.program.tables.size = context.program.tables.size + 2 * added.length := first.tables
    rw [List.flatMap_append, List.length_append, Nat.mul_add, ← List.range'_append_1, ← starts]
    exact first.used.append second.used

theorem Gains.append_leaves (first : Gains context literals added middle)
    (second : Gains middle more others after) (leaves : Leaves grown middle after)
    (grows : ∀ t, grown t → t < context.program.tables.size) :
    Gains context (literals ++ more) (added ++ others) after :=
  first.append second leaves.retains fun t vars isNew found =>
    leaves.tables t vars found fun isGrown => absurd (grows t isGrown) (Nat.not_lt.mpr isNew)

/-- Behind a step that declares local variables only, in a table that was there before. -/
theorem Gains.append_locals {locals : TableId} {vars : VariableTable}
    (first : Gains context literals added middle) (second : Gains middle more others after)
    (leaves : Leaves (· = locals) middle after) (tableAt : context.program.tables[locals]? = some vars) :
    Gains context (literals ++ more) (added ++ others) after := by
  refine first.append_leaves second leaves ?_
  rintro t rfl
  exact (Array.getElem?_eq_some_iff.mp tableAt).1

end BuildContext

/-! ## Literals of phrases -/

namespace Phrase

theorem literals_mk (construct : Construct Phrase) (span : Span) (notFunction : construct.isFunction = false) :
    literals ⟨construct, span⟩ = construct.inner.flatMap literals := by
  rw [literals_eq]
  simp [notFunction]

theorem literals_function (params result body : Phrase) (span : Span) :
    literals ⟨.function params result body, span⟩ =
      params.literals ++ (result.literals ++ (body.literals ++ [⟨.function params result body, span⟩])) := by
  rw [literals_eq]
  simp [Construct.inner, Construct.parts, Construct.isFunction]

/-- A construct around one phrase has the literals of that. -/
theorem literals_around {construct : Construct Phrase} {operand : Phrase} (span : Span)
    (notFunction : construct.isFunction = false) (parts : construct.inner = [operand]) :
    literals ⟨construct, span⟩ = operand.literals := by
  rw [literals_mk construct span notFunction, parts, List.flatMap_singleton]

theorem literals_binding (name : Phrase) (type? value? : Option Phrase) (span : Span) :
    literals ⟨.binding name type? value?, span⟩ =
      type?.toList.flatMap literals ++ value?.toList.flatMap literals := by
  rw [literals_mk (.binding name type? value?) span rfl]
  simp [Construct.inner]

theorem literals_ident (name : String) (span : Span) : literals ⟨.ident name, span⟩ = [] :=
  literals_mk (.ident name) span rfl

theorem literals_typed (name type : Phrase) (span : Span) :
    literals ⟨.binding name (some type) none, span⟩ = type.literals := by
  rw [literals_binding]
  simp

/-- The literals of a parameter list are those of its items. -/
theorem literals_paramItems (params : Phrase) :
    (Build.paramItems params).flatMap literals = params.literals :=
  Build.flatMap_paramItems (fun items span => literals_mk (.paren items) span rfl)
    (fun _ span => literals_around span rfl rfl) params

theorem literals_functionType (params result : Phrase) (span : Span) :
    literals ⟨.functionType params result, span⟩ =
      (Build.paramItems params).flatMap literals ++ result.literals := by
  rw [literals_paramItems, literals_mk (.functionType params result) span rfl]
  simp [Construct.inner, Construct.parts]

end Phrase

/-- The literals of a top-level binding, if its type holds none. -/
def Global.literals (binding : Global) : List Phrase :=
  binding.value?.toList.flatMap Phrase.literals

namespace Build

open BuildContext (Leaves Gains)

variable {context middle after : BuildContext} {locals : TableId} {value : Term}

/-! ## Types hold no literals -/

/-- The step only succeeds if there are no literals. -/
def Clean {α : Type} (m : Build α) (literals : List Phrase) : Prop :=
  ∀ context a after, m context = .ok (a, after) → literals = []

theorem clean_plainType (phrase : Phrase) : Clean (plainType phrase) phrase.literals := by
  intro context type after run
  obtain ⟨construct, span⟩ := phrase
  cases construct with
  | void => exact Phrase.literals_mk .void span rfl
  | u64 => exact Phrase.literals_mk .u64 span rfl
  | ident name => exact Phrase.literals_ident name span
  | _ => cases run

theorem clean_itemTypes {items : List Phrase}
    (each : ∀ item ∈ items, ∀ type, itemType? item = some type → Clean (buildType type) type.literals) :
    Clean (items.mapM buildItemType) (items.flatMap Phrase.literals) := by
  induction items with
  | nil =>
      intro context types after run
      rfl
  | cons item items ih =>
      intro context types after run
      rw [List.mapM_cons] at run
      obtain ⟨type, _, itemRun, run⟩ := bind_eq_ok_iff.mp run
      obtain ⟨others, _, restRun, run⟩ := bind_eq_ok_iff.mp run
      have first : Clean (buildItemType item) item.literals := by
        refine buildItemType_cases (P := fun m => Clean m item.literals) ?_ ?_
        · rintro _ _ _ ⟨⟩
        · intro type given
          rw [gather_itemType Phrase.literals_typed given]
          exact each item (by simp) type given
      have rest := ih fun item member => each item (by simp [member])
      rw [List.flatMap_cons, first _ _ _ itemRun, rest _ _ _ restRun, List.nil_append]

/-- A phrase that is read as a type holds no literals. -/
theorem clean_buildType (phrase : Phrase) : Clean (buildType phrase) phrase.literals := by
  induction phrase using type_induction with
  | plain phrase plain =>
      rw [buildType_plain plain]
      exact clean_plainType phrase
  | functionType params result span itemsIh resultIh =>
      intro context type after run
      cases (TypeRun.of_ok run).1 with
      | functionType argsRun resultRun =>
          rw [Phrase.literals_functionType, clean_itemTypes itemsIh _ _ _ argsRun,
            resultIh _ _ _ resultRun, List.nil_append]

theorem clean_optionalType (type? : Option Phrase) :
    Clean (type?.mapM buildType) (type?.toList.flatMap Phrase.literals) := by
  intro context typeTerm? after run
  cases type? with
  | none => rfl
  | some type =>
      simp only [Option.mapM_some, map_eq_pure_bind] at run
      obtain ⟨typeTerm, _, typeRun, _⟩ := bind_eq_ok_iff.mp run
      simpa using clean_buildType _ _ _ _ typeRun

/-! ## Functions -/

theorem literals_of_param {item type : Phrase} {name : String} (isParam : item.param? = some (name, type)) :
    item.literals = type.literals := by
  obtain ⟨construct, span⟩ := item
  unfold Phrase.param? at isParam
  split at isParam
  · next namePhrase typePhrase shape =>
    cases shape
    split at isParam
    · cases isParam
      exact Phrase.literals_typed _ _ span
    · cases isParam
  · cases isParam

/-- The parameters of a function, behind what its table holds. -/
theorem arguments_made {items : List Phrase} {types : List Term} {table : TableId} {vars : VariableTable}
    (tableAt : context.program.tables[table]? = some vars)
    (run : items.mapM (buildArgument table) context = .ok (types, after)) :
    items.flatMap Phrase.literals = [] ∧ ∃ params : List Variable,
      after.program.tables[table]? = some (vars ++ params.toArray) ∧
      List.Forall₂ Program.IsParameter items params := by
  induction items generalizing context types vars with
  | nil =>
      cases run
      exact ⟨rfl, [], by simpa using tableAt, .nil⟩
  | cons item items ih =>
      rw [List.mapM_cons] at run
      obtain ⟨type, middle, itemRun, more⟩ := bind_eq_ok_iff.mp run
      obtain ⟨others, _, restRun, returns⟩ := bind_eq_ok_iff.mp more
      cases returns
      obtain ⟨param, _, isParam, typeRun, _, rfl⟩ := buildArgument_eq_ok itemRun
      have declared : (context.program.declare table ⟨param.name, param.nameSpan, some type, none⟩).tables[table]? =
          some (vars.push ⟨param.name, param.nameSpan, some type, none⟩) := by
        simp [Program.declare, Array.getElem?_modify, tableAt]
      obtain ⟨clean, params, paramsAt, areParams⟩ := ih declared restRun
      refine ⟨?_, ⟨param.name, param.nameSpan, some type, none⟩ :: params, ?_,
        .cons ⟨param.type, type, isParam, rfl, rfl⟩ areParams⟩
      · rw [List.flatMap_cons, clean, literals_of_param isParam, clean_buildType _ _ _ _ typeRun, List.nil_append]
      · simpa using paramsAt

/-- What holds of a value that was built: what is new, and what the value says. -/
def ValueMade (phrase : Phrase) (context : BuildContext) (value : Term) (after : BuildContext) : Prop :=
  (∃ added, context.Gains phrase.literals added after) ∧ after.program.Stands phrase value

/-- What holds of the statements of a block that were built in a table with some local variables. -/
def StatementsMade (locals : TableId) (phrases : List Phrase) (context : BuildContext) (body : List Term)
    (after : BuildContext) : Prop :=
  ∀ vars, context.program.tables[locals]? = some vars →
    (∃ added, context.Gains (phrases.flatMap Phrase.literals) added after) ∧
      after.program.Lists locals vars.size phrases body

/-- What holds of a body that was built. -/
def BodyMade (locals : TableId) (phrase : Phrase) (context : BuildContext) (body : List Term)
    (after : BuildContext) : Prop :=
  ∃ children span, phrase = ⟨.curly children, span⟩ ∧ StatementsMade locals children context body after

/-- What holds of a statement that was built. -/
def StatementMade (locals : TableId) (phrase : Phrase) (context : BuildContext) (statement? : Option Term)
    (after : BuildContext) : Prop :=
  ∀ vars, context.program.tables[locals]? = some vars →
    (∃ added, context.Gains phrase.literals added after) ∧
      ∃ vars' : VariableTable, after.program.tables[locals]? = some vars' ∧
        after.program.Follows locals vars.size phrase statement? vars'.size

/-- Whatever the step gives is as `made` says. -/
def Makes {α : Type} (m : Build α) (made : BuildContext → α → BuildContext → Prop) : Prop :=
  ∀ context a after, m context = .ok (a, after) → made context a after

theorem retains_closed (last : BuildContext) (f : Function) :
    last.program.Retains (closed last f).program :=
  ⟨fun _ _ named => named, continues_closed last f⟩

/-- A function that is added behind those of its body, with the two tables that were opened for it. -/
theorem gains_closed {entered last : BuildContext} {f : Function} {literals : List Phrase} {literal : Phrase}
    {added : List Function} (into : Entered context entered) (gains : entered.Gains literals added last)
    (tables : f.tables = [context.program.tables.size, context.program.tables.size + 1])
    (renders : (closed last f).program.Renders literal f) :
    context.Gains (literals ++ [literal]) (added ++ [f]) (closed last f) where
  functions := by
    have pushed : (closed last f).program.functions.toList = last.program.functions.toList ++ [f] := by
      simp [closed, Program.addFunction]
    rw [pushed, gains.functions, into.functions, List.append_assoc]
  rendered := by
    have inner := Program.forall₂_renders_mono gains.rendered (retains_closed last f) fun _ _ _ _ _ => id
    exact List.rel_append inner (.cons renders .nil)
  tables := by
    have size : (closed last f).program.tables.size = last.program.tables.size := rfl
    rw [size, gains.tables, into.tables, List.length_append, List.length_singleton]
    omega
  used := by
    have inside := gains.used
    rw [into.tables] at inside
    have range : List.range' context.program.tables.size (2 * (added ++ [f]).length) =
        f.tables ++ List.range' (context.program.tables.size + 2) (2 * added.length) := by
      rw [tables, List.length_append, List.length_singleton, Nat.mul_add, List.range'_succ, List.range'_succ]
      rfl
    -- The function comes last in the list, but its tables were opened before those of its body.
    rw [range, List.flatMap_append, List.flatMap_singleton]
    exact (inside.append_right f.tables).trans List.perm_append_comm

theorem made_function {params result body : Phrase} {span : Span}
    (bodyIh : ∀ locals, Makes (buildBody locals body) (BodyMade locals body)) :
    Makes (buildValue ⟨.function params result body, span⟩)
      (ValueMade ⟨.function params result body, span⟩) := by
  intro context value after run
  rw [buildValue] at run
  obtain ⟨resultType, argTypes, declared, statements, last, resultRun, argsRun, bodyRun, rfl, rfl⟩ :=
    buildFunction_eq_ok run
  have into := entered_of_arguments (resultType :: declared.results) argsRun
  -- The first of the two new tables gets the parameters, the second one stays empty until the body.
  have opens : (opened context).program.tables[context.program.tables.size]? = some #[] := by
    simp [opened, Program.addTable, Array.getElem_push]
  obtain ⟨noParams, vars, argsAt, areParams⟩ := arguments_made opens argsRun
  obtain ⟨children, bodySpan, rfl, made⟩ := bodyIh _ _ _ _ bodyRun
  obtain ⟨⟨added, gains⟩, lists⟩ := made #[] into.locals
  have leaves := leaves_phrases.2.1 _ _ _ _ _ bodyRun
  -- Parameters and result hold no literals, so what is new comes from the body and the function itself.
  rw [Phrase.literals_paramItems] at noParams
  have noResult := clean_buildType _ _ _ _ resultRun
  have literals : Phrase.literals ⟨.function params result ⟨.curly children, bodySpan⟩, span⟩ =
      children.flatMap Phrase.literals ++ [⟨.function params result ⟨.curly children, bodySpan⟩, span⟩] := by
    rw [Phrase.literals_function, noParams, noResult, Phrase.literals_mk (.curly children) bodySpan rfl]
    rfl
  have argsKept : last.program.tables[context.program.tables.size]? = some vars.toArray := by
    simpa using leaves.tables _ _ argsAt (Nat.succ_ne_self _).symm
  have renders : (closed last ⟨span, context.program.tables.size, resultType,
      context.program.tables.size + 1, statements⟩).program.Renders
        ⟨.function params result ⟨.curly children, bodySpan⟩, span⟩
        ⟨span, context.program.tables.size, resultType, context.program.tables.size + 1, statements⟩ :=
    .mk rfl argsKept areParams (lists.mono (retains_closed last _) fun _ => id)
  exact ⟨⟨_, literals ▸ gains_closed into gains rfl renders⟩, .function (function_closed last _) rfl⟩

/-! ## Values -/

theorem names_resolve {name : String} {span : Span} {ref : VarRef}
    (run : resolve name span context = .ok (ref, after)) : after.program.Names ref name := by
  obtain ⟨meaning, rfl⟩ := resolve_eq_ok run
  obtain ⟨vars, tableAt, found⟩ := lookup?_in_table meaning
  obtain ⟨⟨var, varAt, isNamed⟩, _⟩ := lastIndex?_eq_some_iff.mp found
  exact ⟨var, slotIn?_eq_some_iff.mpr ⟨vars, tableAt, by simpa using varAt⟩, by simpa using isNamed⟩

theorem made_ident (name : String) (span : Span) :
    Makes (buildValue ⟨.ident name, span⟩) (ValueMade ⟨.ident name, span⟩) := by
  intro context value after run
  cases ValueRun.of_ok run with
  | type noName _ => cases noName
  | ident resolved _ =>
      rw [ValueMade, Phrase.literals_ident]
      exact ⟨⟨[], .none rfl rfl⟩, .name (names_resolve resolved)⟩

/-- A type in place of a value. -/
theorem made_type {phrase : Phrase} (noName : phrase.construct.isIdent = false) :
    Makes (buildType phrase) (ValueMade phrase) := by
  intro context value after run
  have clean := clean_buildType _ _ _ _ run
  obtain ⟨typeRun, rfl⟩ := TypeRun.of_ok run
  rw [ValueMade, clean]
  refine ⟨⟨[], .none rfl rfl⟩, ?_⟩
  cases typeRun with
  | void => exact .void
  | u64 => exact .u64
  | ident => cases noName
  | functionType => exact .functionType

theorem made_sum {left right : Phrase} {span : Span} (leftIh : Makes (buildValue left) (ValueMade left))
    (rightIh : Makes (buildValue right) (ValueMade right)) :
    Makes (buildValue ⟨.sum left right, span⟩) (ValueMade ⟨.sum left right, span⟩) := by
  intro context value after run
  cases ValueRun.of_ok run with
  | type _ typeRun => cases typeRun
  | sum leftRun rightRun _ _ =>
      obtain ⟨⟨added, leftGains⟩, leftStands⟩ := leftIh _ _ _ leftRun
      obtain ⟨⟨others, rightGains⟩, rightStands⟩ := rightIh _ _ _ rightRun
      have leaves := leaves_buildValue right _ _ _ rightRun
      have literals : Phrase.literals ⟨.sum left right, span⟩ = left.literals ++ right.literals := by
        rw [Phrase.literals_mk (.sum left right) span rfl]
        simp [Construct.inner, Construct.parts]
      rw [ValueMade, literals]
      exact ⟨⟨_, leftGains.append_leaves rightGains leaves (by rintro _ ⟨⟩)⟩,
        .sum (leftStands.mono leaves.retains) rightStands⟩

theorem made_call {callee args : Phrase} {span : Span} (calleeIh : Makes (buildValue callee) (ValueMade callee)) :
    Makes (buildCall span args (buildValue callee)) (ValueMade ⟨.call callee args, span⟩) := by
  intro context call after run
  obtain ⟨noArgs, calleeTerm, middle, ref, type?, calleeRun, _, rfl, program⟩ := buildCall_eq_ok run
  obtain ⟨⟨added, gains⟩, stands⟩ := calleeIh _ _ _ calleeRun
  have literals : Phrase.literals ⟨.call callee args, span⟩ = callee.literals := by
    rw [Phrase.literals_mk (.call callee args) span rfl]
    simp [Construct.inner, Construct.parts, ← Phrase.literals_paramItems args, noArgs]
  rw [ValueMade, literals, program]
  exact ⟨⟨added, gains.congr program⟩, .call stands⟩

/-! ## Statements -/

/-- A statement around a value, which declares nothing. -/
theorem ValueMade.statement {phrase operand : Phrase} {statement : Term}
    (made : ValueMade operand context value after) (leaves : Leaves (fun _ => False) context after)
    (literals : phrase.literals = operand.literals)
    (performs : after.program.Stands operand value → after.program.Performs phrase statement) :
    StatementMade locals phrase context (some statement) after := by
  intro vars tableAt
  obtain ⟨gains, stands⟩ := made
  rw [literals]
  exact ⟨gains, vars, leaves.tables locals vars tableAt id, .perform (performs stands)⟩

/-- A local binding: the new variable is the next one of its table. -/
theorem ValueMade.local {name : String} {nameSpan span : Span} {typePhrase? : Option Phrase}
    {type? statement? : Option Term} {phrase : Phrase} (made : ValueMade phrase context value middle)
    (leaves : Leaves (fun _ => False) context middle) (clean : typePhrase?.toList.flatMap Phrase.literals = [])
    (run : buildLocal locals name nameSpan span type? value middle = .ok (statement?, after)) :
    StatementMade locals ⟨.binding ⟨.ident name, nameSpan⟩ typePhrase? (some phrase), span⟩ context
      statement? after := by
  intro vars tableAt
  have steady := steady_buildLocal _ _ _ _ _ _ _ _ _ run
  obtain ⟨⟨added, gains⟩, stands⟩ := made
  obtain ⟨vars', tableAt', _, rfl, isStatement⟩ := buildLocal_eq_ok run
  cases (leaves.tables locals vars tableAt id).symm.trans tableAt'
  have literals : Phrase.literals ⟨.binding ⟨.ident name, nameSpan⟩ typePhrase? (some phrase), span⟩ =
      phrase.literals := by
    rw [Phrase.literals_binding, clean]
    simp
  have declares : Gains middle [] [] { middle with
      program := middle.program.declare locals (filled value ⟨name, nameSpan, type?, none⟩) } :=
    .none rfl (by simp [Program.declare])
  -- The new variable is in an old table, so the functions of the value are as they were.
  have gains' := gains.append_locals declares steady tableAt
  rw [List.append_nil, List.append_nil] at gains'
  rw [literals]
  refine ⟨⟨added, gains'⟩, vars.push (filled value ⟨name, nameSpan, type?, none⟩), ?_, ?_⟩
  · simp [Program.declare, Array.getElem?_modify, tableAt']
  · have binds : (middle.program.declare locals (filled value ⟨name, nameSpan, type?, none⟩)).Binds
        ⟨locals, vars.size⟩ name phrase value :=
      ⟨_, (slotIn?_declare tableAt' _ _).trans (if_pos rfl), rfl, rfl, stands.mono steady.retains⟩
    rw [Array.size_push]
    cases names : value.namesType with
    | true =>
        rw [names, if_pos rfl] at isStatement
        rw [isStatement]
        exact .type binds names
    | false =>
        rw [names, if_neg Bool.false_ne_true] at isStatement
        rw [isStatement]
        exact .define binds names

theorem made_binding {name value : Phrase} {type? : Option Phrase} {span : Span}
    (valueIh : Makes (buildValue value) (ValueMade value)) :
    Makes (buildStatement locals ⟨.binding name type? (some value), span⟩)
      (StatementMade locals ⟨.binding name type? (some value), span⟩) := by
  intro context statement? after run
  cases StatementRun.of_ok run with
  | binding typed valueRun localRun =>
      have clean := clean_optionalType type? _ _ _ typed
      exact (valueIh _ _ _ valueRun).local (leaves_buildValue value _ _ _ valueRun) clean localRun

theorem made_print {operand : Phrase} {span : Span} (operandIh : Makes (buildValue operand) (ValueMade operand)) :
    Makes (buildStatement locals ⟨.printU64 operand, span⟩) (StatementMade locals ⟨.printU64 operand, span⟩) := by
  intro context statement? after run
  cases StatementRun.of_ok run with
  | print valueRun _ =>
      exact (operandIh _ _ _ valueRun).statement (leaves_buildValue operand _ _ _ valueRun)
        (Phrase.literals_around span rfl rfl) .print

theorem made_return {operand : Phrase} {span : Span} (operandIh : Makes (buildValue operand) (ValueMade operand)) :
    Makes (buildStatement locals ⟨.returnWith (some operand), span⟩)
      (StatementMade locals ⟨.returnWith (some operand), span⟩) := by
  intro context statement? after run
  cases StatementRun.of_ok run with
  | valueReturn valueRun =>
      exact (operandIh _ _ _ valueRun).statement (leaves_buildValue operand _ _ _ valueRun)
        (Phrase.literals_around span rfl rfl) .valueReturn

theorem made_assign {target value : Phrase} {span : Span} (valueIh : Makes (buildValue value) (ValueMade value)) :
    Makes (buildStatement locals ⟨.assign target value, span⟩)
      (StatementMade locals ⟨.assign target value, span⟩) := by
  intro context statement? after run
  cases StatementRun.of_ok run with
  | assign resolved valueRun _ _ =>
      have leaves := leaves_buildValue value _ _ _ valueRun
      have literals : ∀ name nameSpan,
          Phrase.literals ⟨.assign ⟨.ident name, nameSpan⟩ value, span⟩ = value.literals := by
        intro name nameSpan
        rw [Phrase.literals_mk (.assign ⟨.ident name, nameSpan⟩ value) span rfl]
        simp [Construct.inner, Construct.parts, Phrase.literals_ident]
      exact (valueIh _ _ _ valueRun).statement leaves (literals _ _)
        (.assign (leaves.retains.names _ _ (names_resolve resolved)))

/-- A statement before others. -/
theorem StatementMade.cons {inner : Phrase} {outer : Span} {rest : List Phrase} {first : Option Term}
    {body : List Term} (made : StatementMade locals inner context first middle)
    (others : StatementsMade locals rest middle body after) (leaves : Leaves (· = locals) middle after) :
    StatementsMade locals (⟨.statement inner, outer⟩ :: rest) context (first.toList ++ body) after := by
  intro vars tableAt
  obtain ⟨⟨added, gains⟩, vars', tableAt', follows⟩ := made vars tableAt
  obtain ⟨⟨more, gains'⟩, lists⟩ := others vars' tableAt'
  rw [List.flatMap_cons, Phrase.literals_around outer rfl rfl]
  exact ⟨⟨_, gains.append_locals gains' leaves tableAt⟩,
    .cons (follows.mono leaves.retains fun i => leaves.slots ⟨locals, i⟩) lists⟩

/-- What is built keeps the inventory, by the kind of place it stands in. -/
theorem makes_phrases :
    (∀ phrase, Makes (buildValue phrase) (ValueMade phrase)) ∧
    (∀ locals phrase, Makes (buildBody locals phrase) (BodyMade locals phrase)) ∧
    (∀ locals phrases, Makes (buildStatements locals phrases) (StatementsMade locals phrases)) ∧
    (∀ locals phrase, Makes (buildStatement locals phrase) (StatementMade locals phrase)) := by
  apply phrase_induction
  case int =>
    intro value span context built after run
    rw [buildValue] at run
    cases run
    rw [ValueMade, Phrase.literals_mk (.int value) span rfl]
    exact ⟨⟨[], .none rfl rfl⟩, .int⟩
  case ident => exact made_ident
  case type =>
    intro phrase isType noName
    rw [buildValue_type isType noName]
    exact made_type noName
  case function =>
    intro params result body span bodyIh
    exact made_function bodyIh
  case sum =>
    intro left right span leftIh rightIh
    exact made_sum leftIh rightIh
  case call =>
    intro callee args span calleeIh
    rw [buildValue]
    exact made_call calleeIh
  case noValue =>
    intro phrase noValue context value after run
    rw [buildValue_refused noValue] at run
    cases run
  case block =>
    intro locals children span childrenIh context body after run
    rw [buildBody] at run
    exact ⟨children, span, rfl, childrenIh context body after run⟩
  case noBlock =>
    intro locals phrase noBlock context value after run
    rw [buildBody_refused noBlock] at run
    cases run
  case done =>
    intro locals context body after run
    rw [buildStatements] at run
    cases run
    intro vars tableAt
    exact ⟨⟨[], .none rfl rfl⟩, .nil tableAt⟩
  case next =>
    intro locals inner span rest innerIh restIh context body after run
    obtain ⟨_, _, first, middle, others, isInner, firstRun, restRun, rfl⟩ := buildStatements_eq_ok run
    cases isInner
    exact (innerIh _ _ _ firstRun).cons (restIh _ _ _ restRun) (leaves_phrases.2.2.1 locals rest _ _ _ restRun)
  case unclosed =>
    intro locals phrase rest unclosed context body after run
    rw [buildStatements_refused unclosed] at run
    cases run
  case binding =>
    intro locals name type? value span valueIh
    exact made_binding valueIh
  case missingValue =>
    intro locals name type? span context statement? after run
    cases StatementRun.of_ok run
  case print =>
    intro locals operand span operandIh
    exact made_print operandIh
  case bareReturn =>
    intro locals span context statement? after run
    cases StatementRun.of_ok run
    intro vars tableAt
    rw [Phrase.literals_mk (.returnWith none) span rfl]
    exact ⟨⟨[], .none rfl rfl⟩, vars, tableAt, .perform .bareReturn⟩
  case valueReturn =>
    intro locals operand span operandIh
    exact made_return operandIh
  case assign =>
    intro locals target value span valueIh
    exact made_assign valueIh
  case callAlone =>
    intro locals callee args span calleeIh context statement? after run
    cases StatementRun.of_ok run with
    | call callRun =>
        exact (made_call calleeIh _ _ _ callRun).statement
          (steady_buildCall (leaves_buildValue callee) _ _ _ callRun) rfl .call
  case noStatement =>
    intro locals phrase noStatement context statement? after run
    rw [buildStatement_refused noStatement] at run
    cases run

/-! ## Globals -/

variable {bindings : List Global} {binding : Global} {index : Nat}

/-- Filling a global changes neither its name nor what is not global. -/
theorem carries_filled (program : Program) (index : Nat) (value : Term) :
    program.Carries (program.modifyVar ⟨0, index⟩ (filled value)) := by
  refine ⟨⟨?_, fun _ _ => id⟩, fun t vars notGlobal tableAt => ?_⟩
  · rintro ref name ⟨var, found, named⟩
    by_cases same : ref = ⟨0, index⟩
    · subst same
      exact ⟨filled value var, slotIn?_modifyVar_same found, named⟩
    · exact ⟨var, (slotIn?_modifyVar_of_ne same).trans found, named⟩
  · simp [Program.modifyVar, Array.getElem?_modify, Ne.symm notGlobal, tableAt]

/-- What holds once a stretch of globals was filled, from `index` on. -/
structure GlobalsMade (bindings : List Global) (index : Nat) (context after : BuildContext) : Prop where
  gains : ∃ added, context.Gains (bindings.flatMap Global.literals) added after
  carries : context.program.Carries after.program
  binds : ∀ i binding name, bindings[i]? = some binding → context.program.Names ⟨0, index + i⟩ name →
    ∃ phrase value, binding.value? = some phrase ∧ after.program.Binds ⟨0, index + i⟩ name phrase value

theorem made_fill {u : Unit} (run : fill (binding.pending 0 index) context = .ok (u, after))
    (hasGlobals : 0 < context.program.tables.size) : GlobalsMade [binding] index context after := by
  obtain ⟨phrase, value, middle, var, isValue, valueRun, varAt, _, rfl⟩ := fill_eq_ok run
  obtain ⟨⟨added, gains⟩, stands⟩ := makes_phrases.1 phrase _ _ _ valueRun
  have leaves := leaves_buildValue phrase _ _ _ valueRun
  have fills := carries_filled middle.program index value
  refine ⟨⟨added, ?_⟩, leaves.carries.trans fills, ?_⟩
  · have literals : [binding].flatMap Global.literals = phrase.literals := by
      simp [Global.literals, isValue]
    have kept : Gains middle [] [] { middle with
        program := middle.program.modifyVar ⟨0, index⟩ (filled value) } :=
      .none rfl (by simp [Program.modifyVar])
    have joined := gains.append kept fills.retains fun t vars isNew => fills.tables t vars (by omega)
    rwa [List.append_nil, List.append_nil, ← literals] at joined
  · intro i other name isOther named
    obtain ⟨rfl, rfl⟩ : i = 0 ∧ binding = other := by simpa [List.getElem?_singleton] using isOther
    obtain ⟨held, heldAt, isName⟩ := leaves.retains.names _ _ named
    cases varAt.symm.trans heldAt
    exact ⟨phrase, value, isValue, filled value var, slotIn?_modifyVar_same varAt, isName, rfl,
      stands.mono fills.retains⟩

theorem made_fills {vars : VariableTable} {u : Unit} (tableAt : context.program.tables[0]? = some vars)
    (run : (Global.pendings 0 index bindings).forM fill context = .ok (u, after)) :
    GlobalsMade bindings index context after := by
  induction bindings generalizing context index vars with
  | nil =>
      cases run
      exact ⟨⟨[], .none rfl rfl⟩, ⟨⟨fun _ _ => id, fun _ _ => id⟩, fun _ _ _ => id⟩, nofun⟩
  | cons binding bindings ih =>
      obtain ⟨_, next, fills, rest⟩ := bind_eq_ok_iff.mp run
      have hasGlobals := (Array.getElem?_eq_some_iff.mp tableAt).1
      obtain ⟨⟨added, gains⟩, carries, binds⟩ := made_fill fills hasGlobals
      obtain ⟨vars', tableAt', _⟩ := (sameSizes_fill _ _ _ _ fills).tables 0 vars tableAt
      obtain ⟨⟨others, more⟩, later, bindsLater⟩ := ih tableAt' rest
      refine ⟨⟨added ++ others, ?_⟩, carries.trans later, fun i other name isOther named => ?_⟩
      · have joined := gains.append more later.retains fun t vars isNew => later.tables t vars (by omega)
        simpa using joined
      · cases i with
        | zero =>
            -- The first global has its value, and no later turn changes it.
            cases isOther
            obtain ⟨phrase, value, isValue, isBound⟩ := binds 0 binding name rfl named
            have kept := fills_elsewhere (i := index) tableAt' rest (Or.inl (Nat.lt_succ_self index))
            exact ⟨phrase, value, isValue, isBound.mono later.retains fun var found => kept.trans found⟩
        | succ i =>
            have place : index + (i + 1) = index + 1 + i := by omega
            rw [place] at named ⊢
            exact bindsLater i other name isOther (carries.retains.names _ _ named)

/-- A binding whose type can be read off has literals in its value only. -/
theorem clean_signature (binding : Global) :
    Clean binding.signature (binding.type?.toList.flatMap Phrase.literals) := by
  intro context type? after run
  unfold Global.signature signature Global.pending at run
  cases isType : binding.type? with
  | none => rfl
  | some type =>
      rw [isType] at run
      exact clean_optionalType (some type) _ _ _ run

end Build

theorem Phrase.literals_of_global {phrase : Phrase} {binding : Global} (isGlobal : phrase.global? = some binding) :
    phrase.literals = binding.type?.toList.flatMap Phrase.literals ++ binding.literals := by
  obtain ⟨construct, span⟩ := phrase
  unfold Phrase.global? at isGlobal
  split at isGlobal
  · next inner isStatement =>
    cases isStatement
    obtain ⟨construct, innerSpan⟩ := inner
    split at isGlobal
    · next namePhrase type? value? isBinding =>
      cases isBinding
      split at isGlobal
      · cases isGlobal
        rw [Phrase.literals_around span rfl rfl, Phrase.literals_binding]
        rfl
      · cases isGlobal
    · cases isGlobal
  · cases isGlobal

/-- The literals of top-level phrases are those of the values bound. -/
theorem literals_of_globals {phrases : List Phrase} {bindings : List Global}
    (areGlobals : phrases.map Phrase.global? = bindings.map some)
    (clean : ∀ binding ∈ bindings, binding.type?.toList.flatMap Phrase.literals = []) :
    phrases.flatMap Phrase.literals = bindings.flatMap Global.literals := by
  induction phrases generalizing bindings with
  | nil =>
      cases bindings with
      | nil => rfl
      | cons => cases areGlobals
  | cons phrase phrases ih =>
      cases bindings with
      | nil => cases areGlobals
      | cons binding bindings =>
          obtain ⟨isGlobal, others⟩ := List.cons.inj areGlobals
          obtain ⟨first, rest⟩ := List.forall_mem_cons.mp clean
          rw [List.flatMap_cons, List.flatMap_cons, Phrase.literals_of_global isGlobal, first, ih others rest,
            List.nil_append]

/-! ## Whole programs -/

/-- The variable is that of the top-level binding, and holds what the binding says. -/
def Program.IsGlobal (program : Program) (phrase : Phrase) (var : Variable) : Prop :=
  ∃ binding valuePhrase value, phrase.global? = some binding ∧ var.name = binding.name ∧
    binding.value? = some valuePhrase ∧ var.value? = some value ∧ program.Stands valuePhrase value

/-- The filled globals are the top-level bindings in their order. -/
theorem Build.GlobalsMade.inOrder {phrases : List Phrase} {bindings : List Global} {types : List (Option Term)}
    {final : BuildContext} {vars : VariableTable}
    (made : GlobalsMade bindings 0 (withGlobals (List.zipWith Global.typed bindings types)) final)
    (areGlobals : phrases.map Phrase.global? = bindings.map some) (lengths : bindings.length = types.length)
    (tableAt : final.program.tables[0]? = some vars) (size : vars.size = bindings.length) :
    List.Forall₂ final.program.IsGlobal phrases vars.toList := by
  have phraseLengths : phrases.length = bindings.length := by simpa using congrArg List.length areGlobals
  refine List.forall₂_iff_get.mpr ⟨by simp [phraseLengths, size], fun i inPhrases inVars => ?_⟩
  have inBindings : i < bindings.length := phraseLengths ▸ inPhrases
  have isGlobal : phrases[i].global? = some bindings[i] := by
    simpa [inPhrases, inBindings] using congrArg (·[i]?) areGlobals
  have named : (withGlobals (List.zipWith Global.typed bindings types)).program.Names ⟨0, 0 + i⟩
      bindings[i].name := by
    refine ⟨bindings[i].typed types[i], ?_, rfl⟩
    simp [slotIn?, withGlobals, inBindings, ← lengths]
  obtain ⟨phrase, value, isValue, var, varAt, isName, held, stands⟩ :=
    made.binds i bindings[i] _ (List.getElem?_eq_getElem inBindings) named
  have isVar : vars[i]? = some var := by simpa [slotIn?, tableAt] using varAt
  have sameVar : vars.toList.get ⟨i, inVars⟩ = var := by
    simpa using (Array.getElem?_eq_some_iff.mp isVar).2
  rw [sameVar]
  exact ⟨bindings[i], phrase, value, isGlobal, isName, isValue, held, stands⟩

/-- The program has what the tree says, once each. -/
structure Program.Inventory (program : Program) (tree : ParseTree) : Prop where
  /-- There is one function for every function node, and it is that of the literal there. -/
  functions : ∃ (origins : List NodeId) (literals : List Phrase), origins.Nodup ∧
    (∀ id, id ∈ origins ↔ ∃ node, tree.nodes[id]? = some node ∧ node.construct.isFunction = true) ∧
    List.Forall₂ (fun origin literal => ParseTree.readAt tree.nodes tree.nodes.size origin = .ok literal)
      origins literals ∧
    List.Forall₂ program.Renders literals program.functions.toList
  size : program.tables.size = 2 * program.functions.size + 1
  /-- Every table is that of the globals, or one of the two of one function. -/
  tables : (program.globals :: program.functions.toList.flatMap Function.tables).Perm
    (List.range program.tables.size)
  /-- The globals are the top-level bindings in their order. -/
  globals : ∃ phrases vars, tree.topLevel = .ok phrases ∧ program.globalVars = .ok vars ∧
    List.Forall₂ program.IsGlobal phrases vars.toList

/-- A build makes one function of every function literal, with two tables of its own, and one global of
every top-level binding. -/
theorem build_inventory {lexemes : List Lexeme} {tree : ParseTree} {program : Program}
    (reduced : reduce lexemes = .ok tree) (built : build tree = .ok program) : program.Inventory tree := by
  obtain ⟨phrases, isTopLevel, origins, nodup, isOrigin, read⟩ := reduce_literals reduced
  unfold build at built
  rw [isTopLevel] at built
  obtain ⟨bindings, types, final, areGlobals, signed, fills, rfl⟩ := buildPhrases_stages built
  have made := Build.made_fills rfl fills
  obtain ⟨added, gains⟩ := made.gains
  obtain ⟨isGlobals, sizes⟩ := Build.Moves.forM Build.sameSizes_fill _ _ _ fills
  obtain ⟨vars, tableAt, size⟩ := sizes 0 _ rfl
  have globals : final.program.globals = 0 := isGlobals
  have clean : ∀ binding ∈ bindings, binding.type?.toList.flatMap Phrase.literals = [] := by
    intro binding member
    obtain ⟨i, bindingAt⟩ := List.getElem?_of_mem member
    obtain ⟨type?, _, vars, _, reads⟩ := forall₂_getElem? signed bindingAt
    exact Build.clean_signature binding _ _ _ reads
  have functions : final.program.functions.toList = added := gains.functions
  have count : final.program.functions.size = added.length := by rw [← functions, Array.length_toList]
  have tables : final.program.tables.size = 1 + 2 * added.length := gains.tables
  refine ⟨⟨origins, phrases.flatMap Phrase.literals, nodup, isOrigin, read, ?_⟩, ?_, ?_,
    ⟨phrases, vars, isTopLevel, ?_, ?_⟩⟩
  · rw [literals_of_globals areGlobals clean, functions]
    exact gains.rendered
  · rw [tables, count, Nat.add_comm]
  · have range : List.range (1 + 2 * added.length) = 0 :: List.range' 1 (2 * added.length) := by
      rw [List.range_eq_range', Nat.add_comm, List.range'_succ]
    rw [globals, functions, tables, range]
    exact gains.used.cons 0
  · exact fetch_eq_ok_iff.mpr (globals ▸ tableAt)
  · have lengths := signed.length_eq
    exact made.inOrder areGlobals lengths tableAt (size.trans (by simp [Build.withGlobals, lengths]))

/-- `main :: (n : u64) -> void { t :: u64; f :: () -> u64 { x :: n; return x; }; print_u64 f() + 1; };`,
each token at its own place. -/
def nestedLiteral : List Lexeme :=
  let tokens : List Token :=
    [.ident "main", .doubleColon, .opening .paren, .ident "n", .colon, .u64, .closing .paren, .arrow, .void,
      .opening .brace, .ident "t", .doubleColon, .u64, .semicolon,
      .ident "f", .doubleColon, .opening .paren, .closing .paren, .arrow, .u64,
      .opening .brace, .ident "x", .doubleColon, .ident "n", .semicolon, .returnWord, .ident "x", .semicolon,
      .closing .brace, .semicolon,
      .printWord, .ident "f", .opening .paren, .closing .paren, .plus, .int 1, .semicolon,
      .closing .brace, .semicolon]
  tokens.zipIdx.map fun (token, i) => ⟨token, ⟨2 * i, 2 * i + 1⟩⟩

/-- The outer function has three statements in the source and two in the program: one names a type. -/
theorem build_inventory_nestedLiteral : ∃ tree program outer, reduce nestedLiteral = .ok tree ∧
    build tree = .ok program ∧ program.tables.size = 5 ∧ program.functions[1]? = some outer ∧
    outer.body.length = 2 ∧ program.Inventory tree := by
  have accepted : (reduce nestedLiteral).toOption.any (fun tree =>
      (build tree).toOption.any fun program => program.functions[1]?.any fun outer =>
        decide (program.tables.size = 5 ∧ outer.body.length = 2)) = true := by
    decide +kernel
  simp only [Option.any_eq_true, toOption_eq_some_iff, decide_eq_true_eq] at accepted
  obtain ⟨tree, reduced, program, built, outer, outerAt, tables, body⟩ := accepted
  exact ⟨tree, program, outer, reduced, built, tables, outerAt, body, build_inventory reduced built⟩

end Rill

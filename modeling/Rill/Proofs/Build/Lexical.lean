import Mathlib
import Rill.Proofs.Basic
import Rill.Proofs.Build.Uses
import Rill.Proofs.Reduction.Renaming

/-!
# Closed and lexically scoped programs

A program names its tables, variables and functions by position. The main result is
`build_closed_and_scoped`: building what was reduced meets no fault, every position in the program that
it gives is one of something there, and variables are named where they are in scope.

* That a program is closed is read off its scene (`Scene.Sound.closed`).
* The globals are filled in order, and each fill adds functions that are placed and orderly
  (`FilledTo.next`), so a finished program is `Program.Lexical`.
* What a function needs of the tables around it is in scope: it belongs to the globals or to a function
  around it (`Program.Lexical.inScope_of_needs`).
-/

namespace Rill

/-! ## Programs -/

namespace Program

/-- The term is the value of a global. -/
def GlobalValue (program : Program) (value : Term) : Prop :=
  ∃ index var, slotIn? program.tables ⟨program.globals, index⟩ = some var ∧ var.value? = some value

/-- How the functions of a program are nested, and what its terms use. -/
structure Lexical (program : Program) : Prop where
  placed : ∀ id < program.functions.size,
    (∃ value, program.GlobalValue value ∧ value.Carries id) ∨ Inner program.functions id
  orderly : ∀ (id : FunctionId) (f : Function), program.functions[id]? = some f → program.Orderly f
  values : ∀ later, Continues program.functions later → ∀ value, program.GlobalValue value →
    ∀ ref, value.Uses later ref → ref.table = program.globals

end Program

namespace Build

open BuildContext (Leaves Grounded)

variable {context after : BuildContext} {index : Nat}

/-- The state of a build that has filled the globals before `index`. -/
structure FilledTo (index : Nat) (context : BuildContext) : Prop where
  scope : context.scope = [0]
  globals : context.program.globals = 0
  table : ∃ vars, context.program.tables[0]? = some vars
  empty : ∀ i var, index ≤ i → slotIn? context.program.tables ⟨0, i⟩ = some var → var.value? = none
  lexical : context.program.Lexical

theorem FilledTo.grounded (filledTo : FilledTo index context) : context.Grounded := by
  obtain ⟨vars, tableAt⟩ := filledTo.table
  have inBounds := (Array.getElem?_eq_some_iff.mp tableAt).1
  refine ⟨fun t member => ?_, ?_⟩
  · rw [filledTo.scope] at member
    cases List.mem_singleton.mp member
    exact inBounds
  · rw [filledTo.globals]
    exact inBounds

theorem FilledTo.start {vars : List Variable} (empty : ∀ var ∈ vars, var.value? = none) :
    FilledTo 0 (withGlobals vars) := by
  have noValue : ∀ i var, slotIn? (withGlobals vars).program.tables ⟨0, i⟩ = some var → var.value? = none := by
    intro i var found
    obtain ⟨table, tableAt, varAt⟩ := slotIn?_eq_some_iff.mp found
    cases tableAt
    have varAt' : vars.toArray[i]? = some var := varAt
    exact empty var (List.mem_toArray.mp (Array.mem_of_getElem? varAt'))
  refine ⟨rfl, rfl, ⟨_, rfl⟩, fun i var _ => noValue i var, ⟨nofun, nofun, ?_⟩⟩
  · rintro later _ value ⟨i, var, found, held⟩
    cases (noValue i var found).symm.trans held

/-- Building a value changes no global. -/
theorem FilledTo.sameGlobals (filledTo : FilledTo index context)
    (leaves : Leaves (fun _ => False) context after) (i : Nat) :
    slotIn? after.program.tables ⟨0, i⟩ = slotIn? context.program.tables ⟨0, i⟩ := by
  obtain ⟨vars, tableAt⟩ := filledTo.table
  simp only [slotIn?, tableAt, leaves.tables 0 vars tableAt id]

/-- Filling a global adds its value to the values of the globals and takes none away. -/
theorem FilledTo.globalValue_iff {value other : Term} {var : Variable} (filledTo : FilledTo index context)
    (leaves : Leaves (fun _ => False) context after)
    (found : slotIn? after.program.tables ⟨0, index⟩ = some var) :
    (after.program.modifyVar ⟨0, index⟩ (filled value)).GlobalValue other ↔
      other = value ∨ context.program.GlobalValue other := by
  have globals : (after.program.modifyVar ⟨0, index⟩ (filled value)).globals = 0 :=
    leaves.globals.trans filledTo.globals
  have empty : var.value? = none :=
    filledTo.empty index var le_rfl (filledTo.sameGlobals leaves index ▸ found)
  have others : ∀ i, i ≠ index →
      slotIn? (after.program.modifyVar ⟨0, index⟩ (filled value)).tables ⟨0, i⟩ =
        slotIn? context.program.tables ⟨0, i⟩ :=
    fun i different => (slotIn?_modifyVar_of_ne (by simpa using different)).trans
      (filledTo.sameGlobals leaves i)
  rw [Program.GlobalValue, Program.GlobalValue, globals, filledTo.globals]
  constructor
  · rintro ⟨i, other, otherAt, held⟩
    by_cases same : i = index
    · subst same
      cases (slotIn?_modifyVar_same found).symm.trans otherAt
      cases held
      exact Or.inl rfl
    · exact Or.inr ⟨i, other, (others i same).symm.trans otherAt, held⟩
  · rintro (rfl | ⟨i, other, otherAt, held⟩)
    · exact ⟨index, filled other var, slotIn?_modifyVar_same found, rfl⟩
    · refine ⟨i, other, (others i ?_).trans otherAt, held⟩
      rintro rfl
      cases (filledTo.sameGlobals leaves i).symm.trans found |>.symm.trans otherAt
      cases empty.symm.trans held

theorem FilledTo.next {binding : Global} {u : Unit} (filledTo : FilledTo index context)
    (run : fill (binding.pending 0 index) context = .ok (u, after)) : FilledTo (index + 1) after := by
  obtain ⟨phrase, value, middle, var, _, valueRun, varAt, _, rfl⟩ := fill_eq_ok run
  have leaves := leaves_buildValue phrase _ _ _ valueRun
  have built := builds_uses.1 phrase _ _ _ filledTo.grounded valueRun
  have globals : middle.program.globals = 0 := leaves.globals.trans filledTo.globals
  have isValue : ∀ other, (middle.program.modifyVar ⟨0, index⟩ (filled value)).GlobalValue other ↔
      other = value ∨ context.program.GlobalValue other :=
    fun other => filledTo.globalValue_iff leaves varAt
  have locals : ∀ ref found, ref.table ≠ 0 → slotIn? middle.program.tables ref = some found →
      slotIn? (middle.program.modifyVar ⟨0, index⟩ (filled value)).tables ref = some found :=
    fun ref found notGlobal foundAt =>
      (slotIn?_modifyVar_of_ne fun same => notGlobal (by rw [same])).trans foundAt
  refine ⟨leaves.scope.trans filledTo.scope, globals, ?_, fun i other isLater otherAt => ?_,
    ⟨fun id inBounds => ?_, fun id f found => ?_, fun later continues other held ref uses => ?_⟩⟩
  · obtain ⟨vars, tableAt⟩ := filledTo.table
    refine ⟨vars.modify index (filled value), ?_⟩
    simp [Program.modifyVar, Array.getElem?_modify, leaves.tables 0 vars tableAt id]
  · rw [slotIn?_modifyVar_of_ne (by simp; omega), filledTo.sameGlobals leaves] at otherAt
    exact filledTo.empty i other (by omega) otherAt
  · by_cases old : id < context.program.functions.size
    · rcases filledTo.lexical.placed id old with ⟨held, isGlobal, carried⟩ | inner
      · exact Or.inl ⟨held, (isValue held).mpr (Or.inr isGlobal), carried⟩
      · exact Or.inr (inner.mono leaves.functions)
    · rcases built.adds.placed id (Nat.le_of_not_lt old) inBounds with ⟨held, isHeld, carried⟩ | inner
      · exact Or.inl ⟨held, (isValue held).mpr (Or.inl (List.mem_singleton.mp isHeld)), carried⟩
      · exact Or.inr inner
  · rcases built.adds.orderly id f found with old | orderly
    · refine (filledTo.lexical.orderly id f old).mono leaves.globals leaves.functions fun ref other => ?_
      rw [filledTo.globals]
      exact fun notGlobal otherAt => locals ref other notGlobal (leaves.slots ref other otherAt)
    · refine orderly.mono rfl (Continues.refl _) fun ref other => ?_
      rw [globals]
      exact locals ref other
  · refine Eq.trans ?_ globals.symm
    rcases (isValue other).mp held with rfl | isGlobal
    · have visible := built.sees later continues ref uses
      rw [BuildContext.Visible, filledTo.scope] at visible
      exact List.mem_singleton.mp visible.1
    · exact (filledTo.lexical.values later (leaves.continues continues) other isGlobal ref uses).trans
        filledTo.globals

theorem FilledTo.fills {bindings : List Global} {u : Unit} (filledTo : FilledTo index context)
    (run : (Global.pendings 0 index bindings).forM fill context = .ok (u, after)) :
    FilledTo (index + bindings.length) after := by
  induction bindings generalizing index context with
  | nil =>
      cases run
      exact filledTo
  | cons binding bindings ih =>
      obtain ⟨_, middle, fills, rest⟩ := bind_eq_ok_iff.mp run
      rw [List.length_cons, ← Nat.add_assoc, Nat.add_right_comm]
      exact ih (filledTo.next fills) rest

theorem FilledTo.all {bindings : List Global} {u : Unit} (filledTo : FilledTo index context)
    (run : (Global.pendings 0 index bindings).forM fill context = .ok (u, after)) :
    after.program.Lexical :=
  (filledTo.fills run).lexical

end Build

/-- A program that was built is lexical. -/
theorem buildPhrases_lexical {phrases : List Phrase} {program : Program}
    (built : buildPhrases phrases = .ok program) : program.Lexical := by
  obtain ⟨bindings, types, after, _, _, fills, rfl⟩ := buildPhrases_stages built
  exact Build.FilledTo.all (.start fun var => Build.typed_empty) fills

/-! ## Closed programs -/

/-- The variable that a shape names: the one it reads, or the target of an assignment or a binding. -/
def Term.Shape.ref? {α : Type} : Term.Shape α → Option VarRef
  | .variable ref | .assign ref _ | .define ref _ => some ref
  | _ => none

namespace Program

/-- The ids in a node name something of the program. -/
structure Resolves (program : Program) (node : Term) : Prop where
  function : ∀ id, node.shape = .function id → ∃ f, program.function id = .ok f
  var : ∀ ref, node.shape.ref? = some ref → ∃ var, program.var ref = .ok var

/-- Every id in a term names something of the program, also in the types recorded there. -/
def ResolvesAll (program : Program) (term : Term) : Prop :=
  ∀ node : Term, node.Inside term → program.Resolves node

/-- Every id in the program names something of it. -/
structure Closed (program : Program) : Prop where
  globals : ∃ table, program.globalVars = .ok table
  args : ∀ f ∈ program.functions, ∃ table, program.table f.args = .ok table
  locals : ∀ f ∈ program.functions, ∃ table, program.table f.locals = .ok table
  results : ∀ f ∈ program.functions, program.ResolvesAll f.result
  statements : ∀ f ∈ program.functions, ∀ statement ∈ f.body, program.ResolvesAll statement
  types : ∀ ref var type, program.var ref = .ok var → var.type? = some type → program.ResolvesAll type
  values : ∀ ref var value, program.var ref = .ok var → var.value? = some value →
    program.ResolvesAll value

end Program

theorem Term.Within.inside {node term : Term} (within : node.Within term) : node.Inside term := by
  induction within with
  | here => exact .here
  | part member _ ih => exact .part member ih

section Nodes

variable {s : Scene} {chain : ScopeChain} {result term type : Term}

/-- What is shown of the nodes of values: their ids name something, and none is a binding. -/
def Scene.NodeResolves (s : Scene) (node : Term) : Prop :=
  s.program.Resolves node ∧ ∀ ref value, node.shape ≠ .define ref value

theorem Scene.nodeResolves_of_plain {node : Term} (noFunction : ∀ id, node.shape ≠ .function id)
    (noRef : node.shape.ref? = none) : s.NodeResolves node := by
  refine ⟨⟨fun id isFunction => absurd isFunction (noFunction id), fun ref named => ?_⟩,
    fun ref value isDefine => ?_⟩
  · cases noRef.symm.trans named
  · rw [isDefine] at noRef
    cases noRef

theorem Scene.nodeResolves_of_variable {ref : VarRef} {var : Variable} {type? : Option Term} {span : Span}
    (found : s.slot? ref = some var) : s.NodeResolves ⟨.variable ref, type?, span⟩ := by
  refine ⟨⟨nofun, fun other named => ?_⟩, nofun⟩
  cases named
  exact ⟨var, Program.var_eq_ok_iff.mpr found⟩

theorem TypeIn.nodes_resolve (inTables : TypeIn s.program.tables type) :
    ∀ node : Term, node.Inside type → s.NodeResolves node := by
  induction inTables with
  | void | u64 => exact Term.forall_inside (Scene.nodeResolves_of_plain nofun rfl) nofun nofun
  | «variable» found => exact Term.forall_inside (Scene.nodeResolves_of_variable found) nofun nofun
  | functionType _ _ argsIh resultIh =>
      refine Term.forall_inside (Scene.nodeResolves_of_plain nofun rfl) (fun part member => ?_) nofun
      rcases List.mem_append.mp member with inArgs | isResult
      · exact argsIh part inArgs
      · cases List.mem_singleton.mp isResult
        exact resultIh

theorem Scene.Value.nodes_resolve (sound : s.Sound) (isValue : s.Value chain term) :
    ∀ node : Term, node.Inside term → s.NodeResolves node := by
  have types : ∀ {term : Term}, s.Value chain term → ∀ type, term.type? = some type →
      ∀ node : Term, node.Inside type → s.NodeResolves node :=
    fun isValue type typed => (isValue.type_in sound typed).nodes_resolve
  induction isValue with
  | int => exact Term.forall_inside (nodeResolves_of_plain nofun rfl) nofun (types .int)
  | type inTables _ => exact inTables.nodes_resolve
  | «variable» inChain found typed =>
      exact Term.forall_inside (nodeResolves_of_variable found) nofun (types (.variable inChain found typed))
  | @function id f table argTypes span found argsAt localsAt tableAt argsTyped =>
      refine Term.forall_inside ⟨⟨fun other isFunction => ?_, nofun⟩, nofun⟩ nofun
        (types (.function found argsAt localsAt tableAt argsTyped))
      cases isFunction
      exact ⟨f, fetch_eq_ok_iff.mpr found⟩
  | sum isLeft isRight leftU64 rightU64 leftIh rightIh =>
      refine Term.forall_inside (nodeResolves_of_plain nofun rfl) (fun part member => ?_)
        (types (.sum isLeft isRight leftU64 rightU64))
      rcases List.mem_pair.mp member with rfl | rfl
      · exact leftIh
      · exact rightIh
  | call isCallee callType calleeIh =>
      refine Term.forall_inside (nodeResolves_of_plain nofun rfl) (fun part member => ?_)
        (types (.call isCallee callType))
      cases List.mem_singleton.mp member
      exact calleeIh

/-- A node of a statement is the statement itself or a node of a value in it. -/
theorem Scene.Statement.node_resolves (sound : s.Sound) (isStatement : s.Statement chain result term)
    {node : Term} (inside : node.Inside term) :
    s.program.Resolves node ∧ ∀ ref value, node.shape = .define ref value → chain.head? = some ref.table := by
  have ofValue : ∀ {node : Term}, s.NodeResolves node → s.program.Resolves node ∧
      ∀ ref value, node.shape = .define ref value → chain.head? = some ref.table :=
    fun resolves => ⟨resolves.1, fun ref value isDefine => absurd isDefine (resolves.2 ref value)⟩
  have inPart : ∀ part ∈ term.shape.parts, node.Inside part → s.NodeResolves node := by
    cases isStatement with
    | print isValue _ | assign _ _ isValue | define _ _ _ isValue _ | valueReturn isValue _ =>
        intro part member inside
        cases List.mem_singleton.mp member
        exact isValue.nodes_resolve sound node inside
    | call isCall => exact fun part member inside => isCall.nodes_resolve sound node (.part member inside)
    | bareReturn _ => nofun
  cases inside with
  | part member inside => exact ofValue (inPart _ member inside)
  | type typed inside =>
      cases isStatement with
      | call isCall => exact ofValue (isCall.nodes_resolve sound node (.type typed inside))
      | print | assign | define | bareReturn | valueReturn => cases typed
  | here =>
      cases isStatement with
      | print | bareReturn | valueReturn => exact ofValue (nodeResolves_of_plain nofun rfl)
      | call isCall => exact ofValue (isCall.nodes_resolve sound _ .here)
      | @assign target var value span _ found _ =>
          refine ⟨⟨nofun, fun ref named => ?_⟩, nofun⟩
          cases named
          exact ⟨var, Program.var_eq_ok_iff.mpr found⟩
      | @define target var value span head found _ _ _ =>
          refine ⟨⟨nofun, fun ref named => ?_⟩, fun ref value isDefine => ?_⟩
          · cases named
            exact ⟨var, Program.var_eq_ok_iff.mpr found⟩
          · cases isDefine
            exact head

/-- A table with a frame exists. -/
theorem Scene.Sound.table_of_frame (sound : s.Sound) {t : TableId} {frame : Frame}
    (frameAt : s.frames[t]? = some frame) : ∃ table, s.program.table t = .ok table := by
  have inBounds := (Array.getElem?_eq_some_iff.mp frameAt).1
  rw [sound.size] at inBounds
  exact ⟨_, fetch_eq_ok_iff.mpr (Array.getElem?_eq_getElem inBounds)⟩

theorem Scene.Sound.function_ok (sound : s.Sound) {f : Function} (isFunction : f ∈ s.program.functions) :
    ∃ outer, s.FunctionOk f outer := by
  obtain ⟨id, inBounds, rfl⟩ := Array.mem_iff_getElem.mp isFunction
  exact sound.functions id _ (Array.getElem?_eq_getElem inBounds)

theorem Scene.Sound.closed (sound : s.Sound) : s.program.Closed where
  globals := sound.table_of_frame sound.globals
  args f isFunction := by
    obtain ⟨outer, function⟩ := sound.function_ok isFunction
    exact sound.table_of_frame function.args
  locals f isFunction := by
    obtain ⟨outer, function⟩ := sound.function_ok isFunction
    exact sound.table_of_frame function.locals
  results f isFunction node inside := by
    obtain ⟨outer, function⟩ := sound.function_ok isFunction
    exact (function.result.nodes_resolve node inside).1
  statements f isFunction statement member node inside := by
    obtain ⟨outer, function⟩ := sound.function_ok isFunction
    exact ((function.body statement member).node_resolves sound inside).1
  types ref var type found typed node inside :=
    ((sound.slot_type (Program.var_eq_ok_iff.mp found) typed).nodes_resolve node inside).1
  values ref var value found held node inside := by
    have slotAt := Program.var_eq_ok_iff.mp found
    obtain ⟨frame, frameAt⟩ := sound.frame_of_slot slotAt
    have isValue := ((sound.slots ref var frame slotAt frameAt).value value held).1
    exact (isValue.nodes_resolve sound node inside).1

end Nodes

/-! ## Lexical scoping -/

namespace Program

/-- The function `inner` stands in a statement of the function `outer`. -/
def Surrounds (program : Program) (outer inner : FunctionId) : Prop :=
  ∃ g, program.function outer = .ok g ∧ ∃ statement ∈ g.body, statement.Carries inner

/-- The function `inner` stands in a statement of `outer`, or of a function that does. -/
def Encloses (program : Program) : FunctionId → FunctionId → Prop :=
  Relation.TransGen program.Surrounds

/-- The table is that of the globals, or belongs to the function or to one that encloses it. -/
def InScope (program : Program) (id : FunctionId) (t : TableId) : Prop :=
  t = program.globals ∨ ∃ outer g, (outer = id ∨ program.Encloses outer id) ∧
    program.function outer = .ok g ∧ (t = g.args ∨ t = g.locals)

/-- Variables in value position are named where they are in scope. -/
structure LexicallyScoped (program : Program) : Prop where
  statements : ∀ id f, program.function id = .ok f → ∀ statement ∈ f.body, ∀ node : Term,
    node.Within statement → ∀ ref, node.shape.ref? = some ref → program.InScope id ref.table
  values : ∀ index var value, program.var ⟨program.globals, index⟩ = .ok var →
    var.value? = some value → ∀ node : Term, node.Within value → ∀ ref, node.shape.ref? = some ref →
      ref.table = program.globals

variable {program : Program} {id outer : FunctionId} {ref : VarRef} {t : TableId}

theorem InScope.inner (inScope : program.InScope outer t) (surrounds : program.Surrounds outer id) :
    program.InScope id t := by
  rcases inScope with isGlobal | ⟨other, g, isOuter | encloses, found, owns⟩
  · exact Or.inl isGlobal
  · exact Or.inr ⟨other, g, Or.inr (isOuter ▸ .single surrounds), found, owns⟩
  · exact Or.inr ⟨other, g, Or.inr (encloses.tail surrounds), found, owns⟩

/-- What a function needs is in scope. A function stands in the value of a global or in a later
function, so the induction goes through the later functions first. -/
theorem Lexical.inScope_of_needs (lexical : program.Lexical) (needs : Needs program.functions id ref) :
    program.InScope id ref.table := by
  induction ahead : program.functions.size - id using Nat.strong_induction_on generalizing id with
  | _ ahead ih =>
    obtain ⟨f, _, found, _⟩ := needs_iff.mp needs
    have inBounds := (Array.getElem?_eq_some_iff.mp found).1
    rcases lexical.placed id inBounds with ⟨value, isValue, carries⟩ | ⟨outer, g, later, foundOuter, held⟩
    · exact Or.inl (lexical.values _ (.refl _) value isValue ref (Or.inr ⟨id, carries, needs⟩))
    · obtain ⟨statement, member, carries⟩ := held
      have isOuter : program.function outer = .ok g := fetch_eq_ok_iff.mpr foundOuter
      have surrounds : program.Surrounds outer id := ⟨g, isOuter, statement, member, carries⟩
      refine InScope.inner ?_ surrounds
      by_cases own : ref.table = g.args ∨ ref.table = g.locals
      · exact Or.inr ⟨outer, g, Or.inl rfl, isOuter, own⟩
      · obtain ⟨notArgs, notLocals⟩ := not_or.mp own
        exact ih _ (ahead ▸ Nat.sub_lt_sub_left inBounds later)
          (.inner foundOuter member carries needs notArgs notLocals) rfl

end Program

theorem Scene.Complete.lexicallyScoped {s : Scene} (complete : s.Complete) (lexical : s.program.Lexical) :
    s.program.LexicallyScoped := by
  have sound := complete.sound
  refine ⟨fun id f found statement member node within ref named => ?_,
    fun index var value found held node within ref named => ?_⟩
  · have foundAt := fetch_eq_ok_iff.mp found
    obtain ⟨outer, function⟩ := sound.functions id f foundAt
    have target := ((function.body statement member).node_resolves sound within.inside).2
    by_cases own : ref.table = f.args ∨ ref.table = f.locals
    · exact Or.inr ⟨id, f, Or.inl rfl, found, own⟩
    · obtain ⟨notArgs, notLocals⟩ := not_or.mp own
      cases shape : node.shape with
      | «variable» other | assign other value =>
          rw [shape] at named
          refine lexical.inScope_of_needs (.own foundAt member within ?_ notArgs notLocals)
          rw [shape]
          exact named
      | define other value =>
          rw [shape] at named
          cases named
          exact absurd (Option.some.inj (target ref value shape)).symm notLocals
      | _ =>
          rw [shape] at named
          cases named
  · have slotAt := Program.var_eq_ok_iff.mp found
    have isValue := ((sound.slots _ var _ slotAt sound.globals).value value held).1
    have noDefine := (isValue.nodes_resolve sound node within.inside).2
    refine lexical.values _ (.refl _) value ⟨index, var, slotAt, held⟩ ref
      (Or.inl ⟨node, within, ?_⟩)
    cases shape : node.shape with
    | «variable» other | assign other value =>
        rw [shape] at named
        exact named
    | define other value => exact absurd shape (noDefine other value)
    | _ =>
        rw [shape] at named
        cases named

/-- The build of phrases meets no fault. -/
theorem buildPhrases_no_fault (phrases : List Phrase) (fault : Fault) :
    buildPhrases phrases ≠ .error (.broken fault) := by
  rw [buildPhrases_eq]
  have holds := Build.wp_topLevel phrases
  unfold Build.wp at holds
  intro broken
  cases run : Build.topLevel phrases Build.start with
  | ok result =>
      rw [run] at broken
      cases broken
  | error abort =>
      rw [run] at broken holds
      cases broken
      exact holds

/-- Building what was reduced meets no fault, and a program that it gives is closed and lexically
scoped. -/
theorem build_closed_and_scoped (lexemes : List Lexeme) (tree : ParseTree)
    (reduced : reduce lexemes = .ok tree) :
    (∀ fault, build tree ≠ .error (.broken fault)) ∧
      ∀ program, build tree = .ok program → program.Closed ∧ program.LexicallyScoped := by
  have agrees := Workspace.reduce_agrees lexemes
  rw [reduced] at agrees
  obtain ⟨children, _, w, forms, parsed⟩ := agrees.of_ok
  obtain ⟨phrases, top, _⟩ := parsed.topLevel
  unfold build
  rw [top]
  refine ⟨buildPhrases_no_fault phrases, fun program built => ?_⟩
  have lexical := buildPhrases_lexical built
  obtain ⟨s, rfl, complete⟩ := buildPhrases_complete built
  exact ⟨complete.sound.closed, complete.lexicallyScoped lexical⟩

/-- A source with functions three deep, each with a variable of every function around it. -/
def nestedFunctions : String :=
  "base : u64 : 1;
   main :: () -> u64 \x7b
     x :: 40;
     middle :: () -> u64 \x7b
       y :: x + base;
       inner :: () -> u64 \x7b y = y + x; return x + y; \x7d;
       return inner();
     \x7d;
     return middle();
   \x7d;"

theorem nestedFunctions_closed_and_scoped : ∃ tree program,
    reduce (tokenize nestedFunctions).lexemes = .ok tree ∧ build tree = .ok program ∧
      program.functions.size = 3 ∧ program.Closed ∧ program.LexicallyScoped := by
  have accepted : (reduce (tokenize nestedFunctions).lexemes).toOption.any (fun tree =>
      (build tree).toOption.any fun program => decide (program.functions.size = 3)) = true := by
    decide +kernel
  simp only [any_toOption_iff, decide_eq_true_eq] at accepted
  obtain ⟨tree, reduced, program, built, three⟩ := accepted
  exact ⟨tree, program, reduced, built, three, (build_closed_and_scoped _ tree reduced).2 program built⟩

end Rill

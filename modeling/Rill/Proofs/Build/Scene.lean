import Mathlib
import Rill.Proofs.Build.Logic
import Rill.Proofs.TypeEquality

/-!
# Programs under construction

A scene is a program under construction with the calls still to be judged and, for every table, what
the table is for and which tables are in scope where it is the innermost one. A table's frame is
fixed when the table is made, so a scene only ever grows.

* `Scene.Value` and `Scene.Statement` say what a term built in a given scope may look like: which
  names it may mention and how its types agree with the program.
* `Scene.Sound` says that every slot and every function of a scene is made of such terms.
* `Scene.Extends` relates a scene to a later one. What is a value or a statement in a scene stays one
  (`Value.mono`, `Statement.mono`), so soundness of a later scene is a matter of what is new in it
  (`Sound.extend`).
-/

namespace Rill

/-! ## Types -/

/-- A type whose names all stand for variables of the tables. -/
inductive TypeIn (tables : Array VariableTable) : Term → Prop
  | void {span : Span} : TypeIn tables (.voidAt span)
  | u64 {span : Span} : TypeIn tables (.u64At span)
  | variable {ref : VarRef} {var : Variable} {span : Span} :
      slotIn? tables ref = some var → TypeIn tables (.untyped (.variable ref) span)
  | functionType {args : List Term} {result : Term} {span : Span} :
      (∀ arg ∈ args, TypeIn tables arg) → TypeIn tables result →
      TypeIn tables (.untyped (.functionType args result) span)

namespace TypeIn

variable {tables tables' : Array VariableTable} {type : Term}

theorem isType (inTables : TypeIn tables type) : type.IsType := by
  induction inTables with
  | void => exact .void
  | u64 => exact .u64
  | «variable» _ => exact .variable
  | functionType _ _ argsIh resultIh => exact .functionType argsIh resultIh

theorem mono (inTables : TypeIn tables type)
    (grows : ∀ ref var, slotIn? tables ref = some var → ∃ var', slotIn? tables' ref = some var') :
    TypeIn tables' type := by
  induction inTables with
  | void => exact .void
  | u64 => exact .u64
  | «variable» found =>
      obtain ⟨var', found'⟩ := grows _ _ found
      exact .variable found'
  | functionType _ _ argsIh resultIh => exact .functionType argsIh resultIh

/-- A type of a program has a text. -/
theorem typeName_total {program : Program} (inTables : TypeIn program.tables type) :
    ∃ text, program.typeName type = .ok text := by
  induction inTables with
  | void => exact ⟨_, rfl⟩
  | u64 => exact ⟨_, rfl⟩
  | @«variable» ref var span found =>
      refine ⟨var.name, ?_⟩
      simp [Program.typeName, Term.untyped, Program.var_eq_ok_iff.mpr found, bind, Except.bind, pure,
        Except.pure]
  | @functionType args result span _ _ argsIh resultIh =>
      have names : ∃ texts, program.typeNames args = .ok texts := by
        clear resultIh
        induction args with
        | nil => exact ⟨[], rfl⟩
        | cons arg args ih =>
            obtain ⟨text, textEq⟩ := argsIh arg (by simp)
            obtain ⟨texts, textsEq⟩ := ih (fun a member => by simp_all)
              (fun a member => argsIh a (by simp [member]))
            exact ⟨text :: texts, by
              simp [Program.typeNames, textEq, textsEq, bind, Except.bind, pure, Except.pure]⟩
      obtain ⟨texts, textsEq⟩ := names
      obtain ⟨text, textEq⟩ := resultIh
      refine ⟨"(" ++ ", ".intercalate texts ++ ") -> " ++ text, ?_⟩
      simp [Program.typeName, Term.untyped, textsEq, textEq, bind, Except.bind, pure, Except.pure]

theorem typeNameOf_total (program : Program) (type? : Option Term)
    (inTables : ∀ type, type? = some type → TypeIn program.tables type) :
    ∃ text, program.typeNameOf type? = .ok text := by
  cases type? with
  | none => exact ⟨_, rfl⟩
  | some type => exact (inTables type rfl).typeName_total

end TypeIn

/-! ## Scenes -/

/-- What a table is for. -/
inductive Role where
  | globals
  | arguments
  | locals
deriving DecidableEq

/-- What is known of a table: what it is for, and the tables in scope where it is innermost. -/
structure Frame where
  role : Role
  chain : ScopeChain

/-- A program under construction, the calls still to be judged, and the frame of each table. -/
structure Scene where
  program : Program
  deferred : List DeferredCall
  frames : Array Frame

namespace Scene

/-- The variable at a place. -/
def slot? (s : Scene) (ref : VarRef) : Option Variable :=
  slotIn? s.program.tables ref

/-- The type given to a call of a variable: the result of its function type, or none for a call that
is still to be judged. -/
def CallType (s : Scene) (callee : VarRef) (type? : Option Term) : Prop :=
  (∃ var result inner span, s.slot? callee = some var ∧
      var.type? = some ⟨.functionType [] result, inner, span⟩ ∧ type? = some result) ∨
  (type? = none ∧ ∃ call ∈ s.deferred, call.callee = callee)

/-- A term in value position, built where the tables of `chain` are in scope. -/
inductive Value (s : Scene) (chain : ScopeChain) : Term → Prop
  | int {value : UInt64} {span : Span} : s.Value chain (.intAt value span)
  | type {type : Term} :
      TypeIn s.program.tables type → (∀ ref, type.shape ≠ .variable ref) → s.Value chain type
  | variable {ref : VarRef} {var : Variable} {type? : Option Term} {span : Span} :
      ref.table ∈ chain → s.slot? ref = some var → (∀ type, type? = some type → var.type? = some type) →
      s.Value chain ⟨.variable ref, type?, span⟩
  | function {id : FunctionId} {f : Function} {table : VariableTable} {argTypes : List Term}
      {span : Span} :
      s.program.functions[id]? = some f →
      s.frames[f.args]? = some ⟨.arguments, f.args :: chain⟩ →
      s.frames[f.locals]? = some ⟨.locals, f.locals :: f.args :: chain⟩ →
      s.program.tables[f.args]? = some table → table.toList.map (·.type?) = argTypes.map some →
      s.Value chain (.typed (.function id) (.untyped (.functionType argTypes f.result) span) span)
  | sum {left right : Term} {span : Span} :
      s.Value chain left → s.Value chain right → Term.isU64? left.type? = true →
      Term.isU64? right.type? = true → s.Value chain (.typed (.sum left right) (.u64At span) span)
  | call {ref : VarRef} {calleeType? type? : Option Term} {calleeSpan span : Span} :
      s.Value chain ⟨.variable ref, calleeType?, calleeSpan⟩ → s.CallType ref type? →
      s.Value chain ⟨.call ⟨.variable ref, calleeType?, calleeSpan⟩ [], type?, span⟩

/-- A statement of a function with the given result type, built in the scope `chain`. -/
inductive Statement (s : Scene) (chain : ScopeChain) (result : Term) : Term → Prop
  | print {operand : Term} {span : Span} :
      s.Value chain operand → Term.isU64? operand.type? = true →
      s.Statement chain result (.untyped (.printU64 operand) span)
  | call {callee : Term} {params : List Term} {type? : Option Term} {span : Span} :
      s.Value chain ⟨.call callee params, type?, span⟩ →
      s.Statement chain result ⟨.call callee params, type?, span⟩
  | assign {target : VarRef} {var : Variable} {value : Term} {span : Span} :
      target.table ∈ chain → s.slot? target = some var → s.Value chain value →
      s.Statement chain result (.untyped (.assign target value) span)
  | define {target : VarRef} {var : Variable} {value : Term} {span : Span} :
      chain.head? = some target.table → s.slot? target = some var → var.value? = some value →
      s.Value chain value → value.namesType = false →
      s.Statement chain result (.untyped (.define target value) span)
  | bareReturn {span : Span} :
      result.shape = .void → s.Statement chain result (.untyped (.returnWith none) span)
  | valueReturn {value : Term} {span : Span} :
      s.Value chain value → result.satisfies value = .ok true →
      s.Statement chain result (.untyped (.returnWith (some value)) span)

/-! ## Sound scenes -/

/-- A variable's type and the type of the value it was built with are equal when bare, or both are
absent. -/
def Agrees (type? : Option Term) (value : Term) : Prop :=
  type?.map Term.bare = value.type?.map Term.bare

/-- What holds of a variable in a table with the given frame. -/
structure SlotOk (s : Scene) (frame : Frame) (var : Variable) : Prop where
  type : ∀ type, var.type? = some type → TypeIn s.program.tables type
  value : ∀ value, var.value? = some value → s.Value frame.chain value ∧ Agrees var.type? value
  argument : frame.role = .arguments → var.value? = none ∧ ∃ type, var.type? = some type
  isBound : frame.role = .locals → ∃ value, var.value? = some value

/-- What holds of a function: its tables are in scope for its statements, the outer ones after them. -/
structure FunctionOk (s : Scene) (f : Function) (outer : ScopeChain) : Prop where
  args : s.frames[f.args]? = some ⟨.arguments, f.args :: outer⟩
  locals : s.frames[f.locals]? = some ⟨.locals, f.locals :: f.args :: outer⟩
  result : TypeIn s.program.tables f.result
  body : ∀ statement ∈ f.body, s.Statement (f.locals :: f.args :: outer) f.result statement

/-- The chain of a table starts with it, and every table in it has a part of it as its own chain. -/
def ChainOk (s : Scene) (t : TableId) (frame : Frame) : Prop :=
  frame.chain.head? = some t ∧
    ∀ u ∈ frame.chain, ∃ inner, s.frames[u]? = some inner ∧ inner.chain ⊆ frame.chain

/-- Every slot and every function is built of values and statements of the scene. -/
structure Sound (s : Scene) : Prop where
  size : s.frames.size = s.program.tables.size
  globals : s.frames[s.program.globals]? = some ⟨.globals, [s.program.globals]⟩
  isGlobals : ∀ (t : TableId) (frame : Frame), s.frames[t]? = some frame → frame.role = .globals →
    t = s.program.globals
  chains : ∀ (t : TableId) (frame : Frame), s.frames[t]? = some frame → s.ChainOk t frame
  slots : ∀ ref var frame, s.slot? ref = some var → s.frames[ref.table]? = some frame →
    s.SlotOk frame var
  functions : ∀ (id : FunctionId) (f : Function), s.program.functions[id]? = some f →
    ∃ outer, s.FunctionOk f outer
  deferred : ∀ call ∈ s.deferred, ∃ var, s.slot? call.callee = some var

/-! ## Growing scenes -/

/-- How a variable may change: it keeps its name and its type, and once it has a value it stays as it
is. -/
structure Grows (var var' : Variable) : Prop where
  name : var'.name = var.name
  type : ∀ type, var.type? = some type → var'.type? = some type
  value : ∀ value, var.value? = some value → var' = var

theorem Grows.refl (var : Variable) : Grows var var :=
  ⟨rfl, fun _ => id, fun _ _ => rfl⟩

theorem Grows.trans {a b c : Variable} (first : Grows a b) (second : Grows b c) : Grows a c where
  name := second.name.trans first.name
  type type found := second.type type (first.type type found)
  value value found := by
    have same := first.value value found
    subst same
    exact second.value value found

/-- A later state of the same construction. -/
structure Extends (s s' : Scene) : Prop where
  globals : s'.program.globals = s.program.globals
  frames : ∀ (t : TableId) (frame : Frame), s.frames[t]? = some frame → s'.frames[t]? = some frame
  slots : ∀ ref var, s.slot? ref = some var → ∃ var', s'.slot? ref = some var' ∧ Grows var var'
  arguments : ∀ (t : TableId) (frame : Frame) (table : VariableTable), s.frames[t]? = some frame →
    frame.role = .arguments → s.program.tables[t]? = some table → s'.program.tables[t]? = some table
  functions : ∀ (id : FunctionId) (f : Function), s.program.functions[id]? = some f →
    s'.program.functions[id]? = some f
  deferred : ∀ call ∈ s.deferred, call ∈ s'.deferred

namespace Extends

variable {s s' s'' : Scene}

theorem refl (s : Scene) : s.Extends s where
  globals := rfl
  frames _ _ := id
  slots _ var found := ⟨var, found, Grows.refl var⟩
  arguments _ _ _ _ _ := id
  functions _ _ := id
  deferred _ := id

theorem trans (first : s.Extends s') (second : s'.Extends s'') : s.Extends s'' where
  globals := second.globals.trans first.globals
  frames t frame found := second.frames t frame (first.frames t frame found)
  slots ref var found := by
    obtain ⟨var', found', grows⟩ := first.slots ref var found
    obtain ⟨var'', found'', grows'⟩ := second.slots ref var' found'
    exact ⟨var'', found'', grows.trans grows'⟩
  arguments t frame table found role at_ :=
    second.arguments t frame table (first.frames t frame found) role
      (first.arguments t frame table found role at_)
  functions id f found := second.functions id f (first.functions id f found)
  deferred call member := second.deferred call (first.deferred call member)

theorem typeIn (ext : s.Extends s') {type : Term} (inTables : TypeIn s.program.tables type) :
    TypeIn s'.program.tables type :=
  inTables.mono fun ref var found =>
    let ⟨var', found', _⟩ := ext.slots ref var found
    ⟨var', found'⟩

end Extends

section Mono

variable {s s' : Scene} {chain : ScopeChain} {result term : Term}

theorem CallType.mono {callee : VarRef} {type? : Option Term} (ext : s.Extends s')
    (callType : s.CallType callee type?) : s'.CallType callee type? := by
  rcases callType with ⟨var, result, inner, span, found, varType, type⟩ | ⟨none, call, member, callee⟩
  · obtain ⟨var', found', grows⟩ := ext.slots _ _ found
    exact Or.inl ⟨var', result, inner, span, found', grows.type _ varType, type⟩
  · exact Or.inr ⟨none, call, ext.deferred call member, callee⟩

theorem Value.mono (ext : s.Extends s') (value : s.Value chain term) : s'.Value chain term := by
  induction value with
  | int => exact .int
  | type inTables shape => exact .type (ext.typeIn inTables) shape
  | «variable» inChain found typed =>
      obtain ⟨var', found', grows⟩ := ext.slots _ _ found
      exact .variable inChain found' fun type equal => grows.type type (typed type equal)
  | function found argsFrame localsFrame table types =>
      exact .function (ext.functions _ _ found) (ext.frames _ _ argsFrame)
        (ext.frames _ _ localsFrame) (ext.arguments _ _ _ argsFrame rfl table) types
  | sum _ _ leftU64 rightU64 leftIh rightIh => exact .sum leftIh rightIh leftU64 rightU64
  | call _ callType calleeIh => exact .call calleeIh (callType.mono ext)

theorem Statement.mono (ext : s.Extends s') (statement : s.Statement chain result term) :
    s'.Statement chain result term := by
  cases statement with
  | print operand isU64 => exact .print (operand.mono ext) isU64
  | call call => exact .call (call.mono ext)
  | assign inChain found value =>
      obtain ⟨var', found', _⟩ := ext.slots _ _ found
      exact .assign inChain found' (value.mono ext)
  | define head found bound value names =>
      obtain ⟨var', found', grows⟩ := ext.slots _ _ found
      have same := grows.value _ bound
      subst same
      exact .define head found' bound (value.mono ext) names
  | bareReturn isVoid => exact .bareReturn isVoid
  | valueReturn value satisfied => exact .valueReturn (value.mono ext) satisfied

theorem SlotOk.mono {frame : Frame} {var : Variable} (ext : s.Extends s') (slot : s.SlotOk frame var) :
    s'.SlotOk frame var where
  type type found := ext.typeIn (slot.type type found)
  value value found := ⟨(slot.value value found).1.mono ext, (slot.value value found).2⟩
  argument := slot.argument
  isBound := slot.isBound

theorem FunctionOk.mono {f : Function} {outer : ScopeChain} (ext : s.Extends s')
    (function : s.FunctionOk f outer) : s'.FunctionOk f outer where
  args := ext.frames _ _ function.args
  locals := ext.frames _ _ function.locals
  result := ext.typeIn function.result
  body statement member := (function.body statement member).mono ext

theorem ChainOk.mono {t : TableId} {frame : Frame} (ext : s.Extends s') (chain : s.ChainOk t frame) :
    s'.ChainOk t frame := by
  refine ⟨chain.1, fun u member => ?_⟩
  obtain ⟨inner, found, subset⟩ := chain.2 u member
  exact ⟨inner, ext.frames u inner found, subset⟩

/-- A scene that extends a sound one is sound when everything new in it is. -/
theorem Sound.extend (sound : s.Sound) (ext : s.Extends s')
    (size : s'.frames.size = s'.program.tables.size)
    (frames : ∀ (t : TableId) (frame : Frame), s'.frames[t]? = some frame →
      s.frames[t]? = some frame ∨ (s'.ChainOk t frame ∧ frame.role ≠ .globals))
    (slots : ∀ ref var frame, s'.slot? ref = some var → s'.frames[ref.table]? = some frame →
      (s.slot? ref = some var ∧ s.frames[ref.table]? = some frame) ∨ s'.SlotOk frame var)
    (functions : ∀ (id : FunctionId) (f : Function), s'.program.functions[id]? = some f →
      s.program.functions[id]? = some f ∨ ∃ outer, s'.FunctionOk f outer)
    (deferred : ∀ call ∈ s'.deferred, call ∈ s.deferred ∨ ∃ var, s'.slot? call.callee = some var) :
    s'.Sound where
  size := size
  globals := by
    rw [ext.globals]
    exact ext.frames _ _ sound.globals
  isGlobals t frame found isGlobals := by
    rw [ext.globals]
    rcases frames t frame found with old | ⟨_, role⟩
    · exact sound.isGlobals t frame old isGlobals
    · exact absurd isGlobals role
  chains t frame found := by
    rcases frames t frame found with old | ⟨chain, _⟩
    · exact (sound.chains t frame old).mono ext
    · exact chain
  slots ref var frame found frameAt := by
    rcases slots ref var frame found frameAt with ⟨old, oldFrame⟩ | new
    · exact (sound.slots ref var frame old oldFrame).mono ext
    · exact new
  functions id f found := by
    rcases functions id f found with old | new
    · obtain ⟨outer, function⟩ := sound.functions id f old
      exact ⟨outer, function.mono ext⟩
    · exact new
  deferred call member := by
    rcases deferred call member with old | new
    · obtain ⟨var, found⟩ := sound.deferred call old
      obtain ⟨var', found', _⟩ := ext.slots _ _ found
      exact ⟨var', found'⟩
    · exact new

end Mono

section Types

variable {s : Scene} {chain : ScopeChain} {term type : Term}

/-- A place of a sound scene lies in a table with a frame. -/
theorem Sound.frame_of_slot (sound : s.Sound) {ref : VarRef} {var : Variable}
    (found : s.slot? ref = some var) : ∃ frame, s.frames[ref.table]? = some frame := by
  obtain ⟨table, tableAt, _⟩ := slotIn?_eq_some_iff.mp found
  have inTables : ref.table < s.program.tables.size := (Array.getElem?_eq_some_iff.mp tableAt).1
  rw [← sound.size] at inTables
  exact ⟨s.frames[ref.table], Array.getElem?_eq_getElem inTables⟩

theorem Sound.slot_type (sound : s.Sound) {ref : VarRef} {var : Variable}
    (found : s.slot? ref = some var) (typed : var.type? = some type) : TypeIn s.program.tables type := by
  obtain ⟨frame, frameAt⟩ := sound.frame_of_slot found
  exact (sound.slots ref var frame found frameAt).type type typed

/-- The type recorded in a value is a type of the program. -/
theorem Value.type_in (sound : s.Sound) (value : s.Value chain term) (typed : term.type? = some type) :
    TypeIn s.program.tables type := by
  cases value with
  | int =>
      cases typed
      exact .u64
  | type inTables _ => cases inTables <;> cases typed
  | «variable» _ found varType => exact sound.slot_type found (varType type typed)
  | @function id f table argTypes span found argsFrame localsFrame tableAt types =>
      cases typed
      obtain ⟨outer, function⟩ := sound.functions id f found
      refine .functionType (fun arg member => ?_) function.result
      have listed : some arg ∈ table.toList.map (·.type?) := by
        rw [types]
        exact List.mem_map_of_mem member
      obtain ⟨var, varMember, varType⟩ := List.mem_map.mp listed
      obtain ⟨index, inBounds, varAt⟩ := List.mem_iff_getElem.mp varMember
      have slot : s.slot? ⟨f.args, index⟩ = some var := by
        refine slotIn?_eq_some_iff.mpr ⟨table, tableAt, ?_⟩
        rw [Array.getElem?_eq_some_iff]
        exact ⟨by simpa using inBounds, by simpa using varAt⟩
      exact sound.slot_type slot varType
  | sum _ _ _ _ =>
      cases typed
      exact .u64
  | call _ callType =>
      rcases callType with ⟨var, result, inner, span, found, varType, equal⟩ | ⟨none, _⟩
      · rw [equal] at typed
        cases typed
        have functionType := sound.slot_type found varType
        cases functionType with
        | functionType _ result => exact result
      · rw [none] at typed
        cases typed

/-- An integer built as a value carries the type `u64`. -/
theorem Value.int_type {n : UInt64} (value : s.Value chain term) (isInt : term.shape = .int n) :
    ∃ span, term = .intAt n span := by
  cases value with
  | @int m span =>
      cases isInt
      exact ⟨span, rfl⟩
  | type inTables _ => cases inTables <;> cases isInt
  | «variable» | function | sum | call => cases isInt

end Types

end Scene

end Rill

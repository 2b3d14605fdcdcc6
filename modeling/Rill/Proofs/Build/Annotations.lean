import Mathlib
import Rill.Proofs.Basic
import Rill.Proofs.Build.Programs
import Rill.Reduction.Reduce
import Rill.Token.Lexer

/-!
# Annotations of finished programs

Types are recorded while a program is still under construction: a global starts without one, and a
call of an unknown name is judged late. In a program that was built, every recorded type agrees with
what the finished program says (`built_annotations_right`).

* An integer and a sum have type `u64`, and so have the operands of a sum and of a print.
* A variable with a recorded type has the type of its slot.
* A call goes to a variable of a function type without arguments and has the result of that type, if
  it has a type at all.
* A function has the types of its argument slots and its own result type.
* A return fits the result type of the function around it.
* A slot and the value in it have equal types, or neither has one.
-/

namespace Rill

/-! ## Nodes of a program -/

/-- The terms directly inside a shape. -/
def Term.Shape.parts {α : Type} : Term.Shape α → List α
  | .void | .u64 | .int _ | .function _ | .variable _ => []
  | .functionType args result => args ++ [result]
  | .call callee params => callee :: params
  | .sum left right => [left, right]
  | .printU64 operand => [operand]
  | .assign _ value | .define _ value => [value]
  | .returnWith operand => operand.toList

/-- `node` is a term or occurs in it: in one of its parts or in a type recorded there. -/
inductive Term.Inside (node : Term) : Term → Prop
  | here : Inside node node
  | part {term part : Term} : part ∈ term.shape.parts → Inside node part → Inside node term
  | type {term type : Term} : term.type? = some type → Inside node type → Inside node term

namespace Program

/-- The node occurs in the value of a variable or in a statement of a function. -/
def Mentions (program : Program) (node : Term) : Prop :=
  (∃ ref var value, program.var ref = .ok var ∧ var.value? = some value ∧ node.Inside value) ∨
  ∃ f ∈ program.functions, ∃ statement ∈ f.body, node.Inside statement

/-- What the finished program says about the type of a node and of its parts. -/
def Annotates (program : Program) (node : Term) : Prop :=
  match node.shape with
  | .int _ => Term.isU64? node.type? = true
  | .variable ref => ∀ type, node.type? = some type →
      ∃ var final, program.var ref = .ok var ∧ var.type? = some final ∧
        type.typeEquals final = .ok true
  | .sum left right => Term.isU64? node.type? = true ∧ Term.isU64? left.type? = true ∧
      Term.isU64? right.type? = true
  | .call callee params => params = [] ∧
      ∃ ref var result inner span, callee.shape = .variable ref ∧ program.var ref = .ok var ∧
        var.type? = some ⟨.functionType [] result, inner, span⟩ ∧
        ∀ type, node.type? = some type → type.typeEquals result = .ok true
  | .function id => ∃ f args inner span table, program.function id = .ok f ∧
      program.table f.args = .ok table ∧
      node.type? = some ⟨.functionType args f.result, inner, span⟩ ∧
      args.map some = table.toList.map (·.type?)
  | .printU64 operand => Term.isU64? operand.type? = true
  | _ => True

/-- Every annotation agrees with the finished program. -/
structure Annotated (program : Program) : Prop where
  nodes : ∀ node, program.Mentions node → program.Annotates node
  valueReturns : ∀ f ∈ program.functions, ∀ statement ∈ f.body, ∀ node : Term,
    node.Inside statement → ∀ value, node.shape = .returnWith (some value) →
      f.result.satisfies value = .ok true
  bareReturns : ∀ f ∈ program.functions, ∀ statement ∈ f.body, ∀ node : Term,
    node.Inside statement → node.shape = .returnWith none → f.result.shape = .void
  slots : ∀ ref var value, program.var ref = .ok var → var.value? = some value →
    (var.type? = none ∧ value.type? = none) ∨
    ∃ type found, var.type? = some type ∧ value.type? = some found ∧
      type.typeEquals found = .ok true

end Program

/-! ## Types -/

namespace Term

variable {node term : Term}

/-- A property of every node of a term, from the term itself, its parts and its recorded type. -/
theorem forall_inside {holds : Term → Prop} (here : holds term)
    (parts : ∀ part ∈ term.shape.parts, ∀ node : Term, node.Inside part → holds node)
    (types : ∀ type, term.type? = some type → ∀ node : Term, node.Inside type → holds node) :
    ∀ node : Term, node.Inside term → holds node := by
  intro node inside
  cases inside with
  | here => exact here
  | part member inside => exact parts _ member node inside
  | type typed inside => exact types _ typed node inside

theorem typeEquals_of_bare {a b : Term} (typeA : a.IsType) (typeB : b.IsType)
    (equal : a.bare = b.bare) : a.typeEquals b = .ok true := by
  obtain ⟨answer, answerEq, answerIff⟩ := typeEquals_iff_bare typeA typeB
  rw [answerEq, answerIff.mpr equal]

/-- Whether the term is a return. -/
def IsReturn (term : Term) : Prop :=
  ∃ operand, term.shape = .returnWith operand

end Term

section Nodes

variable {s : Scene} {chain : ScopeChain} {result term type : Term}

/-- What is shown of every node: it is annotated, and it is no return. -/
def Scene.NodeOk (s : Scene) (node : Term) : Prop :=
  s.program.Annotates node ∧ ¬ node.IsReturn

theorem TypeIn.nodes_ok (inTables : TypeIn s.program.tables type) :
    ∀ node : Term, node.Inside type → s.NodeOk node := by
  induction inTables with
  | void | u64 | «variable» =>
      refine Term.forall_inside ⟨?_, ?_⟩ ?_ ?_ <;>
        simp [Program.Annotates, Term.IsReturn, Term.Shape.parts, Term.voidAt, Term.u64At,
          Term.untyped]
  | @functionType args result span _ _ argsIh resultIh =>
      refine Term.forall_inside ⟨trivial, by simp [Term.IsReturn, Term.untyped]⟩
        (fun part member => ?_) (by simp [Term.untyped])
      rcases List.mem_append.mp member with inArgs | isResult
      · exact argsIh part inArgs
      · cases List.mem_singleton.mp isResult
        exact resultIh

/-- A node that carries a type of the program is as good as its parts. -/
theorem Scene.forall_nodes (types : ∀ type, term.type? = some type → TypeIn s.program.tables type)
    (here : s.NodeOk term)
    (parts : ∀ part ∈ term.shape.parts, ∀ node : Term, node.Inside part → s.NodeOk node) :
    ∀ node : Term, node.Inside term → s.NodeOk node :=
  Term.forall_inside here parts fun type typed => (types type typed).nodes_ok

theorem Scene.Value.nodes_ok (complete : s.Complete) (isValue : s.Value chain term) :
    ∀ node : Term, node.Inside term → s.NodeOk node := by
  have sound := complete.sound
  induction isValue with
  | int =>
      refine s.forall_nodes (fun type => (Value.int : s.Value chain _).type_in sound)
        ⟨rfl, by simp [Term.IsReturn, Term.intAt, Term.typed]⟩ ?_
      simp [Term.intAt, Term.typed, Term.Shape.parts]
  | type inTables _ => exact inTables.nodes_ok
  | @«variable» ref var type? span inChain found typed =>
      refine s.forall_nodes (fun type => Value.type_in sound (.variable inChain found typed))
        ⟨fun type equal => ?_, by simp [Term.IsReturn]⟩ (by simp [Term.Shape.parts])
      have isType := (sound.slot_type found (typed type equal)).isType
      exact ⟨var, type, Program.var_eq_ok_iff.mpr found, typed type equal,
        Term.typeEquals_of_bare isType isType rfl⟩
  | @function id f table argTypes span found argsAt localsAt tableAt types =>
      refine s.forall_nodes (fun type => Value.type_in sound (.function found argsAt localsAt tableAt types))
        ⟨?_, by simp [Term.IsReturn, Term.typed]⟩ (by simp [Term.Shape.parts, Term.typed])
      exact ⟨f, argTypes, none, span, table, fetch_eq_ok_iff.mpr found, fetch_eq_ok_iff.mpr tableAt,
        rfl, types.symm⟩
  | @sum left right span isLeft isRight leftU64 rightU64 leftIh rightIh =>
      refine s.forall_nodes (fun type => Value.type_in sound (.sum isLeft isRight leftU64 rightU64))
        ⟨⟨rfl, leftU64, rightU64⟩, by simp [Term.IsReturn, Term.typed]⟩ ?_
      simpa [Term.typed, Term.Shape.parts] using ⟨leftIh, rightIh⟩
  | @call ref calleeType? type? calleeSpan span isCallee callType calleeIh =>
      obtain ⟨var, result, inner, typeSpan, found, varTyped, only⟩ := complete.callType callType
      refine s.forall_nodes (fun type => Value.type_in sound (.call isCallee callType))
        ⟨⟨rfl, ref, var, result, inner, typeSpan, rfl, Program.var_eq_ok_iff.mpr found, varTyped,
          fun type typed => ?_⟩, by simp [Term.IsReturn]⟩ ?_
      · have isType := ((Value.call isCallee callType).type_in sound typed).isType
        exact Term.typeEquals_of_bare isType (only type typed ▸ isType) (congrArg _ (only type typed))
      · simpa [Term.Shape.parts] using calleeIh

/-- The nodes of a statement, but for the statement itself. -/
theorem Scene.Statement.parts_ok (complete : s.Complete) (isStatement : s.Statement chain result term) :
    ∀ part ∈ term.shape.parts, ∀ node : Term, node.Inside part → s.NodeOk node := by
  cases isStatement with
  | print isValue _ | assign _ _ isValue | define _ _ _ isValue _ | valueReturn isValue _ =>
      simpa [Term.untyped, Term.Shape.parts] using isValue.nodes_ok complete
  | call isCall =>
      exact fun part member node inside => isCall.nodes_ok complete node (.part member inside)
  | bareReturn _ => simp [Term.untyped, Term.Shape.parts]

/-- A statement is annotated, and a return fits the result type. -/
theorem Scene.Statement.here_ok (complete : s.Complete) (isStatement : s.Statement chain result term) :
    s.program.Annotates term ∧
      (∀ value, term.shape = .returnWith (some value) → result.satisfies value = .ok true) ∧
      (term.shape = .returnWith none → result.shape = .void) := by
  cases isStatement with
  | print _ isU64 => exact ⟨isU64, by simp [Term.untyped]⟩
  | call isCall => exact ⟨(isCall.nodes_ok complete _ .here).1, by simp⟩
  | assign | define => exact ⟨trivial, by simp [Term.untyped]⟩
  | bareReturn isVoid => exact ⟨trivial, by simp [Term.untyped], fun _ => isVoid⟩
  | valueReturn _ satisfied =>
      refine ⟨trivial, fun value shape => ?_, by simp [Term.untyped]⟩
      cases shape
      exact satisfied

/-- A node inside a statement is the statement or a node of one of its parts; no type is recorded in a
statement but in a call. -/
theorem Scene.Statement.node_cases (complete : s.Complete)
    (isStatement : s.Statement chain result term) {node : Term} (inside : node.Inside term) :
    node = term ∨ s.NodeOk node := by
  cases inside with
  | here => exact Or.inl rfl
  | part member inside => exact Or.inr (isStatement.parts_ok complete _ member node inside)
  | type typed inside =>
      cases isStatement with
      | call isCall => exact Or.inr (isCall.nodes_ok complete node (.type typed inside))
      | print | assign | define | bareReturn | valueReturn => cases typed

end Nodes

/-! ## Programs -/

/-- A slot and the value in it have equal types, or neither has one. -/
theorem Scene.Sound.slot_agrees {s : Scene} (sound : s.Sound) {ref : VarRef} {var : Variable} {value : Term}
    (found : s.slot? ref = some var) (held : var.value? = some value) :
    (var.type? = none ∧ value.type? = none) ∨
    ∃ type found, var.type? = some type ∧ value.type? = some found ∧
      type.typeEquals found = .ok true := by
  obtain ⟨frame, frameAt⟩ := sound.frame_of_slot found
  have slotOk := sound.slots ref var frame found frameAt
  obtain ⟨isValue, agrees⟩ := slotOk.value value held
  unfold Agrees at agrees
  cases varTyped : var.type? with
  | none =>
      rw [varTyped, Option.map_none] at agrees
      exact Or.inl ⟨rfl, Option.map_eq_none_iff.mp agrees.symm⟩
  | some type =>
      rw [varTyped, Option.map_some] at agrees
      obtain ⟨recorded, recordedEq, bareEq⟩ := Option.map_eq_some_iff.mp agrees.symm
      exact Or.inr ⟨type, recorded, rfl, recordedEq, Term.typeEquals_of_bare
        (slotOk.type type varTyped).isType (isValue.type_in sound recordedEq).isType bareEq.symm⟩

theorem Scene.Complete.annotated {s : Scene} (complete : s.Complete) : s.program.Annotated := by
  have sound := complete.sound
  have statementOf : ∀ f ∈ s.program.functions, ∀ statement ∈ f.body,
      ∃ chain, s.Statement chain f.result statement := by
    intro f isFunction statement member
    obtain ⟨id, inBounds, rfl⟩ := Array.mem_iff_getElem.mp isFunction
    obtain ⟨outer, function⟩ := sound.functions id _ (Array.getElem?_eq_getElem inBounds)
    exact ⟨_, function.body statement member⟩
  refine ⟨?_, ?_, ?_, fun ref var value found => sound.slot_agrees (Program.var_eq_ok_iff.mp found)⟩
  · rintro node (⟨ref, var, value, found, held, inside⟩ | ⟨f, isFunction, statement, member, inside⟩)
    · have slotAt := Program.var_eq_ok_iff.mp found
      obtain ⟨frame, frameAt⟩ := sound.frame_of_slot slotAt
      have isValue := ((sound.slots ref var frame slotAt frameAt).value value held).1
      exact (isValue.nodes_ok complete node inside).1
    · obtain ⟨chain, isStatement⟩ := statementOf f isFunction statement member
      rcases isStatement.node_cases complete inside with rfl | nodeOk
      · exact (isStatement.here_ok complete).1
      · exact nodeOk.1
  · intro f isFunction statement member node inside value shape
    obtain ⟨chain, isStatement⟩ := statementOf f isFunction statement member
    rcases isStatement.node_cases complete inside with rfl | nodeOk
    · exact (isStatement.here_ok complete).2.1 value shape
    · exact absurd ⟨_, shape⟩ nodeOk.2
  · intro f isFunction statement member node inside shape
    obtain ⟨chain, isStatement⟩ := statementOf f isFunction statement member
    rcases isStatement.node_cases complete inside with rfl | nodeOk
    · exact (isStatement.here_ok complete).2.2 shape
    · exact absurd ⟨_, shape⟩ nodeOk.2

/-- Whatever parse tree a program was built from, a reduced one or any other: every annotation in the
program agrees with the program as it is in the end. -/
theorem built_annotations_right (tree : ParseTree) (program : Program)
    (built : build tree = .ok program) : program.Annotated := by
  unfold build at built
  split at built
  · obtain ⟨s, rfl, complete⟩ := buildPhrases_complete built
    exact complete.annotated
  · cases built

/-- A source whose call of `late` is judged when everything else is built. -/
def lateCall : String :=
  "main :: () -> u64 \x7b late(); x :: base; return x + 1; \x7d;
   late :: early;
   early :: () -> void \x7b print_u64 base; \x7d;
   base : u64 : 40;"

theorem lateCall_annotations_right : ∃ tree program,
    reduce (tokenize lateCall).lexemes = .ok tree ∧ build tree = .ok program ∧ program.Annotated := by
  have accepted : (reduce (tokenize lateCall).lexemes).toOption.any (fun tree => (build tree).isOk) = true := by
    decide +kernel
  obtain ⟨tree, reduced, isOk⟩ := any_toOption_iff.mp accepted
  obtain ⟨program, built⟩ := exists_of_isOk isOk
  exact ⟨tree, program, reduced, built, built_annotations_right tree program built⟩

end Rill

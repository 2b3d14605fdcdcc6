import Mathlib
import Rill.Proofs.Basic
import Rill.Proofs.Run.Invariants

/-!
# What a run leaves behind

A variable may hold any term, and reading it evaluates that term, so a read can call, print and store.
What evaluation gives is simpler: an integer, a function or `void`, whatever the program and the store
are. Statements store nothing else, so a variable that a run has changed is read without any effect.

1. An invariant that survives printing a number and storing a plain result where some statement stores
   survives every evaluation and every call, and their results are plain (`evaluate_plain`,
   `call_plain`).
2. `Effect` is the strongest such invariant that is needed here: what may differ between two stores of
   a run. Every run has it, however it ends (`run_effect`).
3. Results are plain, and plain values are read back as they are (`results_plain`).
4. A run changes the variables that its statements store into, and nothing else
   (`run_changes_targets_only`).
-/

namespace Rill

namespace Term.Shape

variable {α : Type}

/-- Whether the shape is one that evaluation gives. -/
def isPlain : Shape α → Bool
  | .int _ | .function _ | .void => true
  | _ => false

/-- Whether a term of the shape is its own value. `void` is a result, but it has no value. -/
def isConstant : Shape α → Bool
  | .int _ | .function _ => true
  | _ => false

end Term.Shape

/-- The variable with nothing in it. -/
def Variable.emptied (var : Variable) : Variable :=
  { var with value? := none }

/-- What the variable at a place holds. -/
def heldAt (tables : Array VariableTable) (ref : VarRef) : Option Term :=
  (slotIn? tables ref).bind Variable.value?

namespace Eval

variable {functions : Array Function} {inv : Store → Prop}

/-! ## Results are plain -/

/-- The invariant survives what a run may do to a store: it prints a number, and it stores a plain
result where a statement of a function stores. -/
structure Tolerates (functions : Array Function) (inv : Store → Prop) : Prop where
  prints : ∀ (store : Store) (number : UInt64), inv store →
    inv { store with output := store.output ++ Text.decimal number.toNat }
  writes : ∀ f ∈ functions, ∀ statement ∈ f.body, ∀ target, statement.Writes target →
    ∀ (value : Term) (store : Store), value.shape.isPlain = true → inv store →
      inv { store with tables := written store.tables target value }

/-- Evaluation keeps the invariant and gives plain results. -/
def Plainly (inv : Store → Prop) (evaluate : Term → Eval Term) : Prop :=
  ∀ term, Keeps inv (evaluate term) fun value => value.shape.isPlain = true

theorem statement_plain {evaluate : Term → Eval Term} (tolerates : Tolerates functions inv)
    (plainly : Plainly inv evaluate) {f : Function} (member : f ∈ functions) {statement : Term}
    (inBody : statement ∈ f.body) :
    Keeps inv (runStatements evaluate [statement])
      fun returned => ∀ value ∈ returned, value.shape.isPlain = true := by
  have behind : Keeps inv (runStatements evaluate [])
      fun returned => ∀ value ∈ returned, value.shape.isPlain = true := .pure (by simp)
  have stores : ∀ target, statement.Writes target → ∀ value, value.shape.isPlain = true →
      Keeps inv (writeVar target value >>= fun _ => runStatements evaluate [])
        fun returned => ∀ value ∈ returned, value.shape.isPlain = true := by
    intro target writes value plain
    refine .bind (.writeVar fun store => ?_) fun _ _ => behind
    exact tolerates.writes f member statement inBody target writes value store plain
  rw [runStatements]
  split
  · refine .bind (plainly _) fun computed _ => ?_
    split
    · exact .bind (.print fun store => tolerates.prints store _) fun _ _ => behind
    · exact .fail_bind
  · exact .bind (plainly _) fun _ _ => behind
  · next target value shape =>
    exact .bind (plainly _) (stores target ⟨value, Or.inl shape⟩)
  · next target value shape =>
    exact .bind (plainly _) (stores target ⟨value, Or.inr shape⟩)
  · exact .pure (by simp [Term.voidAt, Term.untyped, Term.Shape.isPlain])
  · exact .bind (plainly _) fun computed plain => .pure (by simpa using plain)
  · exact .fail

theorem callWith_plain {evaluate : Term → Eval Term} (tolerates : Tolerates functions inv)
    (plainly : Plainly inv evaluate) (id : FunctionId) :
    Keeps inv (callWith evaluate functions id) fun value => value.shape.isPlain = true := by
  have runs : ∀ f ∈ functions, ∀ body : List Term, (∀ statement ∈ body, statement ∈ f.body) →
      Keeps inv (runStatements evaluate body)
        fun returned => ∀ value ∈ returned, value.shape.isPlain = true := by
    intro f member body inBody
    induction body with
    | nil => exact .pure (by simp)
    | cons statement rest ih =>
        rw [runStatements_first]
        refine .bind (statement_plain tolerates plainly member (inBody statement (by simp)))
          fun returned plain => ?_
        cases returned with
        | some value => exact .pure plain
        | none => exact ih fun other inRest => inBody other (by simp [inRest])
  unfold callWith
  refine .bind (.ofFault fun f found => found) fun f found => ?_
  have member : f ∈ functions := Array.mem_of_getElem? (fetch_eq_ok_iff.mp found)
  refine .bind (runs f member f.body fun _ inBody => inBody) fun returned plain => ?_
  cases returned with
  | some value => exact .pure (plain value rfl)
  | none => exact .pure rfl

/-- Whatever the store holds, evaluation gives a plain result and keeps what a run may not break. -/
theorem evaluate_plain (tolerates : Tolerates functions inv) (fuel : Nat) :
    Plainly inv (evaluate functions fuel) := by
  induction fuel with
  | zero => exact fun _ => .stop
  | succ fuel ih =>
      intro term
      unfold evaluate
      split
      · next shape => exact .pure (by rw [shape]; rfl)
      · next shape => exact .pure (by rw [shape]; rfl)
      · refine .bind (.readVar fun _ _ _ _ => trivial) fun var _ => ?_
        split
        · exact ih _
        · exact .fail
      · refine .bind (ih _) fun callee _ => ?_
        split
        · exact callWith_plain tolerates ih _
        · exact .fail
      · exact .fail
      · refine .bind (ih _) fun left _ => .bind (ih _) fun right _ => ?_
        split
        · exact .pure rfl
        · exact .fail
      · exact .fail

theorem call_plain (tolerates : Tolerates functions inv) (fuel : Nat) (id : FunctionId) :
    Keeps inv (call functions fuel id) fun value => value.shape.isPlain = true :=
  callWith_plain tolerates (evaluate_plain tolerates fuel) id

theorem tolerates_anything (functions : Array Function) : Tolerates functions fun _ => True :=
  ⟨fun _ _ _ => trivial, fun _ _ _ _ _ _ _ _ _ _ => trivial⟩

theorem Keeps.result {α : Type} {m : Eval α} {post : α → Prop} (keeps : Keeps inv m post)
    {store after : Store} {result : α} (kept : inv store) (ended : m store = .ok result after) :
    post result := by
  have held := keeps store kept
  rw [ended] at held
  exact held.2

/-! ## Reading constants -/

/-- Reading a variable that holds a constant gives the constant and has no effect, if there is fuel
for the variable and for what it holds. -/
theorem evaluate_constant {term held : Term} {ref : VarRef} {store : Store}
    (isVariable : term.shape = .variable ref) (holds : heldAt store.tables ref = some held)
    (constant : held.shape.isConstant = true) (fuel : Nat) :
    evaluate functions fuel term store =
      if 2 ≤ fuel then .ok held store else .error .outOfFuel store := by
  obtain ⟨var, found, isHeld⟩ := Option.bind_eq_some_iff.mp holds
  have own : ∀ fuel, evaluate functions (fuel + 1) held = pure held := by
    intro fuel
    rw [evaluate]
    cases shape : held.shape <;> rw [shape] at constant <;> first | rfl | cases constant
  have reads : ∀ fuel, evaluate functions (fuel + 1) term store = evaluate functions fuel held store := by
    intro fuel
    rw [evaluate, isVariable]
    refine (bind_of_ok (readVar_of_slot found)).trans ?_
    rw [isHeld]
  rcases fuel with _ | _ | fuel
  · rfl
  · exact reads 0
  · rw [reads, own]
    rfl

/-- Consecutive reads give equal copies. -/
theorem reads_constant {term held : Term} {ref : VarRef} {store : Store}
    (isVariable : term.shape = .variable ref) (holds : heldAt store.tables ref = some held)
    (constant : held.shape.isConstant = true) {fuel : Nat} (enough : 2 ≤ fuel) (reads : Nat) :
    (List.replicate reads term).mapM (evaluate functions fuel) store =
      .ok (List.replicate reads held) store := by
  have once : evaluate functions fuel term store = _ := evaluate_constant isVariable holds constant fuel
  rw [if_pos enough] at once
  induction reads with
  | zero => rfl
  | succ reads ih =>
      rw [List.replicate_succ, List.mapM_cons, bind_of_ok once, bind_of_ok ih]
      rfl

/-! ## Effects -/

/-- What may differ between an earlier and a later store of a run. -/
structure Effect (functions : Array Function) (before after : Store) : Prop where
  layout : after.tables.map (·.map Variable.emptied) = before.tables.map (·.map Variable.emptied)
  stored : ∀ ref, heldAt after.tables ref ≠ heldAt before.tables ref →
    (∃ f ∈ functions, ∃ statement ∈ f.body, statement.Writes ref) ∧
      ∃ value, heldAt after.tables ref = some value ∧ value.shape.isPlain = true
  printed : ∃ digits : List Char, (∀ c ∈ digits, c.isDigit = true) ∧
    after.output = before.output ++ String.ofList digits

theorem Effect.refl (functions : Array Function) (store : Store) : Effect functions store store :=
  ⟨rfl, fun _ changed => absurd rfl changed, [], by simp, by simp⟩

theorem map_emptied_written (tables : Array VariableTable) (target : VarRef) (value : Term) :
    (written tables target value).map (·.map Variable.emptied) =
      tables.map (·.map Variable.emptied) := by
  refine map_modify_eq (fun table => ?_) tables target.table
  refine map_modify_eq (fun var => ?_) table target.index
  rfl

theorem heldAt_written (tables : Array VariableTable) (target ref : VarRef) (value : Term) :
    heldAt (written tables target value) ref =
      if ref = target then (slotIn? tables ref).map fun _ => value else heldAt tables ref := by
  rw [heldAt, slotIn?_written]
  split
  · cases slotIn? tables ref <;> rfl
  · rfl

theorem effect_tolerates (functions : Array Function) (before : Store) :
    Tolerates functions (Effect functions before) where
  prints store number effect := by
    obtain ⟨digits, areDigits, output⟩ := effect.printed
    refine ⟨effect.layout, effect.stored, digits ++ Nat.toDigits 10 number.toNat, fun c member => ?_, ?_⟩
    · exact (List.mem_append.mp member).elim (areDigits c)
        (Nat.isDigit_of_mem_toDigits (by decide) (by decide))
    · rw [output, Text.decimal, String.append_assoc, String.ofList_append]
  writes f member statement inBody target writes value store plain effect := by
    refine ⟨(map_emptied_written _ _ _).trans effect.layout, fun ref changed => ?_, effect.printed⟩
    rw [heldAt_written] at changed ⊢
    split at changed
    · next same =>
      subst same
      rw [if_pos rfl]
      refine ⟨⟨f, member, statement, inBody, writes⟩, ?_⟩
      cases found : slotIn? store.tables ref with
      | some var => exact ⟨value, rfl, plain⟩
      | none =>
          have same : heldAt store.tables ref = none := by rw [heldAt, found, Option.bind_none]
          rw [found, Option.map_none, ← same] at changed
          obtain ⟨_, _, holds, _⟩ := effect.stored ref changed
          cases same.symm.trans holds
    · next different =>
      rw [if_neg different]
      exact effect.stored ref changed

end Eval

/-! ## Runs -/

/-- A run has the effect of its statements, however it ends. -/
theorem run_effect (program : Program) (fuel : Nat) (output : String) :
    Eval.Effect program.functions ⟨program.tables, output⟩
      ⟨(program.run fuel output).program.tables, (program.run fuel output).output⟩ := by
  cases entered : program.entry with
  | ok id =>
      rw [← Program.run_left entered]
      exact (Eval.call_plain (Eval.effect_tolerates _ _) fuel id).left (.refl _ _)
  | error halt =>
      rw [Program.run_of_refused entered]
      exact .refl _ _

/-- A reported run is one that was never entered. -/
theorem run_reported {program : Program} {fuel : Nat} {output : String} {error : RunError}
    (reported : (program.run fuel output).result = .error (.reported error)) :
    program.entry = .error (.reported error) ∧
      program.run fuel output = ⟨.error (.reported error), program, output⟩ := by
  cases entered : program.entry with
  | error halt =>
      rw [Program.run_of_refused entered] at reported ⊢
      cases reported
      exact ⟨rfl, rfl⟩
  | ok id =>
      rw [Program.run_of_entry entered, Program.invoke] at reported
      split at reported <;> cases reported

/-- Whatever the program, the store and the fuel are: evaluations and calls give plain results, a run
leaves plain results in the variables it changes, and a variable that holds a constant is read as often
as one likes without any effect. -/
theorem results_plain (program : Program) (fuel : Nat) :
    (∀ term store value after, Eval.evaluate program.functions fuel term store = .ok value after →
      value.shape.isPlain = true) ∧
    (∀ id store value after, Eval.call program.functions fuel id store = .ok value after →
      value.shape.isPlain = true) ∧
    (∀ output ref,
      heldAt (program.run fuel output).program.tables ref ≠ heldAt program.tables ref →
      ∃ value, heldAt (program.run fuel output).program.tables ref = some value ∧
        value.shape.isPlain = true) ∧
    ∀ term ref held store, term.shape = .variable ref → heldAt store.tables ref = some held →
      held.shape.isConstant = true →
      Eval.evaluate program.functions fuel term store =
        (if 2 ≤ fuel then .ok held store else .error .outOfFuel store) ∧
      ∀ reads, 2 ≤ fuel → (List.replicate reads term).mapM (Eval.evaluate program.functions fuel) store =
        .ok (List.replicate reads held) store := by
  have anything := Eval.tolerates_anything program.functions
  refine ⟨fun term store value after ended => ?_, fun id store value after ended => ?_,
    fun output ref changed => ?_, fun term ref held store isVariable holds constant => ⟨?_, ?_⟩⟩
  · exact (Eval.evaluate_plain anything fuel term).result trivial ended
  · exact (Eval.call_plain anything fuel id).result trivial ended
  · exact ((run_effect program fuel output).stored ref changed).2
  · exact Eval.evaluate_constant isVariable holds constant fuel
  · exact fun reads enough => Eval.reads_constant isVariable holds constant enough reads

/-- The global `x` holds a call that is not evaluated yet: it prints 7 and gives 5. `main` stores what
`x` gives in `x`. -/
def storedCall : Program :=
  let place : Span := ⟨0, 0⟩
  let call : Term := .untyped (.call (.untyped (.function 1) place) []) place
  { tables := #[
      #[⟨"main", place, none, some (.untyped (.function 0) place)⟩, ⟨"x", place, none, some call⟩],
      #[]]
    functions := #[
      ⟨place, 1, .voidAt place, 1,
        [.untyped (.assign ⟨0, 1⟩ (.untyped (.variable ⟨0, 1⟩) place)) place]⟩,
      ⟨place, 1, .u64At place, 1,
        [.untyped (.printU64 (.intAt 7 place)) place,
          .untyped (.returnWith (some (.intAt 5 place))) place]⟩]
    globals := 0 }

theorem storedCall_changed :
    heldAt (storedCall.run 4 "").program.tables ⟨0, 1⟩ ≠ heldAt storedCall.tables ⟨0, 1⟩ := by
  intro same
  cases same

/-- After a run `x` holds an integer, and reading it prints nothing more. -/
theorem storedCall_results_plain :
    let tables := (storedCall.run 4 "").program.tables
    let x : Term := .untyped (.variable ⟨0, 1⟩) ⟨0, 0⟩
    heldAt tables ⟨0, 1⟩ ≠ heldAt storedCall.tables ⟨0, 1⟩ ∧
    (∃ value, heldAt tables ⟨0, 1⟩ = some value ∧ value.shape.isPlain = true) ∧
    (∃ value after, Eval.evaluate storedCall.functions 4 x ⟨storedCall.tables, ""⟩ = .ok value after ∧
      value.shape.isPlain = true) ∧
    (∃ value after, Eval.call storedCall.functions 4 1 ⟨storedCall.tables, ""⟩ = .ok value after ∧
      value.shape.isPlain = true) ∧
    ∀ reads, (List.replicate reads x).mapM (Eval.evaluate storedCall.functions 4) ⟨tables, "7"⟩ =
      .ok (List.replicate reads (.intAt 5 ⟨0, 0⟩)) ⟨tables, "7"⟩ := by
  intro tables x
  obtain ⟨evaluated, called, changed, read⟩ := results_plain storedCall 4
  have holds : heldAt tables ⟨0, 1⟩ = some (.intAt 5 ⟨0, 0⟩) := rfl
  refine ⟨storedCall_changed, changed "" ⟨0, 1⟩ storedCall_changed,
    ⟨_, _, rfl, evaluated x ⟨storedCall.tables, ""⟩ _ _ rfl⟩,
    ⟨_, _, rfl, called 1 ⟨storedCall.tables, ""⟩ _ _ rfl⟩, fun reads => ?_⟩
  exact (read x ⟨0, 1⟩ _ ⟨tables, "7"⟩ rfl holds rfl).2 reads (by decide)

end Rill

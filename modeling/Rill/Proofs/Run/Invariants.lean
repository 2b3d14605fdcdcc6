import Mathlib
import Rill.Proofs.Run.Logic

/-!
# What evaluation keeps

A stopped evaluation leaves its store behind, so an invariant of a run has to survive faults and the end
of the fuel too. `Eval.Keeps inv m post` says that the step `m` keeps `inv` however it ends, and that
`post` holds of its result if it has one.

* `Program.Reachable` collects the stores of the runs of a program: it starts with the variables as they
  were built and is closed under running a statement of the program.
* Whatever a run evaluates or calls leaves a reachable store (`Reachable.evaluate`, `reachable_run`).
* A table that no statement stores into stays as it was built (`Reachable.table_eq`).
-/

namespace Rill

/-- The statement stores into the variable. -/
def Term.Writes (statement : Term) (target : VarRef) : Prop :=
  ∃ value, statement.shape = .assign target value ∨ statement.shape = .define target value

namespace Eval

variable {α β : Type} {inv : Store → Prop}

/-- The step keeps `inv` however it ends, and a result satisfies `post`. -/
def Keeps (inv : Store → Prop) (m : Eval α) (post : α → Prop) : Prop :=
  ∀ store, inv store → match m store with
    | .ok result after => inv after ∧ post result
    | .error _ after => inv after

namespace Keeps

variable {m : Eval α} {f : α → Eval β} {post middle : α → Prop} {last : β → Prop}

theorem pure {a : α} (holds : post a) : Keeps inv (Pure.pure a) post :=
  fun _ kept => ⟨kept, holds⟩

theorem stop {reason : Stop} : Keeps inv (throw reason) post :=
  fun _ kept => kept

theorem fail {fault : Fault} : Keeps inv (Eval.fail fault) post :=
  fun _ kept => kept

theorem fail_bind {fault : Fault} : Keeps inv (Eval.fail fault >>= f) last :=
  fun _ kept => kept

theorem bind (first : Keeps inv m middle) (next : ∀ a, middle a → Keeps inv (f a) last) :
    Keeps inv (m >>= f) last := by
  intro store kept
  have firstKeeps := first store kept
  simp only [Bind.bind, EStateM.bind]
  cases run : m store with
  | ok a after =>
      rw [run] at firstKeeps
      exact next a firstKeeps.2 after firstKeeps.1
  | error reason after =>
      rw [run] at firstKeeps
      exact firstKeeps

theorem mono (keeps : Keeps inv m middle) (weaker : ∀ a, middle a → post a) : Keeps inv m post := by
  intro store kept
  have held := keeps store kept
  cases run : m store with
  | ok a after =>
      rw [run] at held
      exact ⟨held.1, weaker a held.2⟩
  | error reason after =>
      rw [run] at held
      exact held

theorem ofFault {result : Except Fault α} (holds : ∀ a, result = .ok a → post a) :
    Keeps inv (Eval.ofFault result) post := by
  cases result with
  | ok a => exact .pure (holds a rfl)
  | error fault => exact .fail

/-- What the invariant says of a variable holds of the variable that is read. -/
theorem readVar {ref : VarRef} {post : Variable → Prop}
    (holds : ∀ store var, inv store → slotIn? store.tables ref = some var → post var) :
    Keeps inv (Eval.readVar ref) post := by
  intro store kept
  unfold Eval.readVar
  simp only [Bind.bind, EStateM.bind, get, getThe, MonadStateOf.get, EStateM.get]
  cases tableAt : fetch store.tables ref.table with
  | error fault => exact kept
  | ok table =>
      simp only [Eval.ofFault, Pure.pure, EStateM.pure]
      cases varAt : fetch table ref.index with
      | error fault => exact kept
      | ok var =>
          refine ⟨kept, holds store var kept ?_⟩
          exact slotIn?_eq_some_iff.mpr ⟨table, fetch_eq_ok_iff.mp tableAt, fetch_eq_ok_iff.mp varAt⟩

theorem writeVar {ref : VarRef} {value : Term}
    (writes : ∀ store, inv store → inv { store with tables := written store.tables ref value }) :
    Keeps inv (Eval.writeVar ref value) fun _ => True := by
  refine bind (readVar fun _ _ _ _ => trivial) fun _ _ store kept => ⟨writes store kept, trivial⟩

theorem print {text : String}
    (prints : ∀ store, inv store → inv { store with output := store.output ++ text }) :
    Keeps inv (Eval.print text) fun _ => True :=
  fun store kept => ⟨prints store kept, trivial⟩

end Keeps

/-- The store that a step leaves, whether it ends or stops. -/
def left (m : Eval α) (store : Store) : Store :=
  match m store with
  | .ok _ after => after
  | .error _ after => after

theorem Keeps.left {m : Eval α} {post : α → Prop} {store : Store} (keeps : Keeps inv m post)
    (kept : inv store) : inv (left m store) := by
  have held := keeps store kept
  unfold Eval.left
  cases run : m store with
  | ok a after =>
      rw [run] at held
      exact held.1
  | error reason after =>
      rw [run] at held
      exact held

theorem keeps_of_left {m : Eval α} (leaves : ∀ store, inv store → inv (left m store)) :
    Keeps inv m fun _ => True := by
  intro store kept
  have held := leaves store kept
  unfold left at held
  cases run : m store with
  | ok a after =>
      rw [run] at held
      exact ⟨held, trivial⟩
  | error reason after =>
      rw [run] at held
      exact held

/-! ## Terms -/

/-- Running statements is running the first, and then the others unless it returned. -/
theorem runStatements_first (evaluate : Term → Eval Term) (statement : Term) (rest : List Term) :
    runStatements evaluate (statement :: rest) =
      runStatements evaluate [statement] >>= fun
        | some value => pure (some value)
        | none => runStatements evaluate rest := by
  have behind : ∀ {α : Type} (m : Eval α), (m >>= fun _ => runStatements evaluate rest) =
      (m >>= fun _ => runStatements evaluate []) >>= fun
        | some value => pure (some value)
        | none => runStatements evaluate rest := by
    intro α m
    simp only [runStatements, bind_assoc, pure_bind]
  rw [runStatements.eq_2 evaluate statement rest, runStatements.eq_2 evaluate statement []]
  split
  · rw [bind_assoc]
    congr 1
    funext computed
    split <;> exact behind _
  · exact behind _
  · rw [bind_assoc]
    congr 1
    funext computed
    exact behind _
  · rw [bind_assoc]
    congr 1
    funext computed
    exact behind _
  · rw [pure_bind]
  · rw [bind_assoc]
    simp only [pure_bind]
  · rfl

section Statements

variable {functions : Array Function}

/-- Every statement of the functions keeps `inv` where evaluation does. -/
def StatementsKeep (inv : Store → Prop) (functions : Array Function) : Prop :=
  ∀ fuel, (∀ term, Keeps inv (evaluate functions fuel term) fun _ => True) →
    ∀ f ∈ functions, ∀ statement ∈ f.body,
      Keeps inv (runStatements (evaluate functions fuel) [statement]) fun _ => True

theorem callWith_keeps {evaluate : Term → Eval Term} {id : FunctionId}
    (steps : ∀ f ∈ functions, ∀ statement ∈ f.body,
      Keeps inv (runStatements evaluate [statement]) fun _ => True) :
    Keeps inv (callWith evaluate functions id) fun _ => True := by
  have runs : ∀ body : List Term,
      (∀ statement ∈ body, Keeps inv (runStatements evaluate [statement]) fun _ => True) →
      Keeps inv (runStatements evaluate body) fun _ => True := by
    intro body
    induction body with
    | nil => exact fun _ => .pure trivial
    | cons statement rest ih =>
        intro each
        rw [runStatements_first]
        refine .bind (each statement (by simp)) fun returned _ => ?_
        cases returned with
        | some value => exact .pure trivial
        | none => exact ih fun other member => each other (by simp [member])
  unfold callWith
  refine .bind (.ofFault fun f found => found) fun f found => ?_
  have member : f ∈ functions := Array.mem_of_getElem? (fetch_eq_ok_iff.mp found)
  refine .bind (runs f.body (steps f member)) fun returned _ => ?_
  cases returned <;> exact .pure trivial

/-- A statement keeps what printing and its own write keep. -/
theorem statement_keeps {evaluate : Term → Eval Term} {statement : Term}
    (values : ∀ term, Keeps inv (evaluate term) fun _ => True)
    (prints : ∀ store text, inv store → inv { store with output := store.output ++ text })
    (writes : ∀ target, statement.Writes target → ∀ value store, inv store →
      inv { store with tables := written store.tables target value }) :
    Keeps inv (runStatements evaluate [statement]) fun _ => True := by
  have behind : Keeps inv (runStatements evaluate []) fun _ => True := .pure trivial
  rw [runStatements]
  split
  · refine .bind (values _) fun computed _ => ?_
    split
    · exact .bind (.print fun store => prints store _) fun _ _ => behind
    · exact .fail_bind
  · exact .bind (values _) fun _ _ => behind
  · next target value shape =>
    refine .bind (values _) fun computed _ => .bind (.writeVar ?_) fun _ _ => behind
    exact writes target ⟨value, Or.inl shape⟩ computed
  · next target value shape =>
    refine .bind (values _) fun computed _ => .bind (.writeVar ?_) fun _ _ => behind
    exact writes target ⟨value, Or.inr shape⟩ computed
  · exact .pure trivial
  · exact .bind (values _) fun _ _ => .pure trivial
  · exact .fail

/-- Evaluation keeps what every statement keeps. -/
theorem evaluate_keeps (steps : StatementsKeep inv functions) (fuel : Nat) (term : Term) :
    Keeps inv (evaluate functions fuel term) fun _ => True := by
  induction fuel generalizing term with
  | zero => exact .stop
  | succ fuel ih =>
      unfold evaluate
      split
      · exact .pure trivial
      · exact .pure trivial
      · refine .bind (.readVar fun _ _ _ _ => trivial) fun var _ => ?_
        split
        · exact ih _
        · exact .fail
      · refine .bind (ih _) fun callee _ => ?_
        split
        · exact callWith_keeps (steps fuel ih)
        · exact .fail
      · exact .fail
      · refine .bind (ih _) fun left _ => .bind (ih _) fun right _ => ?_
        split
        · exact .pure trivial
        · exact .fail
      · exact .fail

theorem call_keeps (steps : StatementsKeep inv functions) (fuel : Nat) (id : FunctionId) :
    Keeps inv (call functions fuel id) fun _ => True :=
  callWith_keeps (steps fuel (evaluate_keeps steps fuel))

end Statements

end Eval

/-! ## Reachable stores -/

namespace Program

/-- The stores of the runs of a program: the variables as they were built, and what a statement of the
program leaves of such a store, also where it stops. -/
inductive Reachable (program : Program) : Store → Prop
  | start (output : String) : program.Reachable ⟨program.tables, output⟩
  | step {store : Store} {f : Function} {statement : Term} (fuel : Nat) :
      program.Reachable store → f ∈ program.functions → statement ∈ f.body →
      program.Reachable
        (Eval.left (Eval.runStatements (Eval.evaluate program.functions fuel) [statement]) store)

variable {program : Program} {store : Store}

theorem statements_reachable : Eval.StatementsKeep program.Reachable program.functions :=
  fun fuel _ _ member _ inBody => Eval.keeps_of_left fun _ reachable => .step fuel reachable member inBody

/-- What the built variables satisfy and every statement keeps holds of every reachable store. -/
theorem Reachable.keeps (inv : Store → Prop) (reachable : program.Reachable store)
    (start : ∀ output, inv ⟨program.tables, output⟩) (steps : Eval.StatementsKeep inv program.functions) :
    inv store := by
  induction reachable with
  | start output => exact start output
  | step fuel _ member inBody ih =>
      exact (steps fuel (Eval.evaluate_keeps steps fuel) _ member _ inBody).left ih

/-- A table that no statement stores into stays as it was built. -/
theorem Reachable.table_eq (reachable : program.Reachable store) {t : TableId}
    (untouched : ∀ f ∈ program.functions, ∀ statement ∈ f.body, ∀ target, statement.Writes target →
      target.table ≠ t) : store.tables[t]? = program.tables[t]? := by
  refine Reachable.keeps (fun store => store.tables[t]? = program.tables[t]?) reachable (fun _ => rfl)
    fun fuel values f member statement inBody => ?_
  refine Eval.statement_keeps values (fun _ _ same => same) fun target writes value store same => ?_
  have other := untouched f member statement inBody target writes
  rw [← same, Eval.written, Array.getElem?_modify, if_neg other]

/-- Tables never grow or shrink. -/
theorem Reachable.table_size (reachable : program.Reachable store) (t : TableId) :
    store.tables[t]?.map Array.size = program.tables[t]?.map Array.size := by
  refine Reachable.keeps (fun store => store.tables[t]?.map Array.size = program.tables[t]?.map Array.size)
    reachable (fun _ => rfl) fun fuel values f member statement inBody => ?_
  refine Eval.statement_keeps values (fun _ _ same => same) fun target writes value store same => ?_
  rw [← same, Eval.written, Array.getElem?_modify]
  split
  · cases store.tables[t]? <;> simp
  · rfl

/-- Whatever a run evaluates leaves a reachable store. -/
theorem Reachable.evaluate (reachable : program.Reachable store) (fuel : Nat) (term : Term) :
    program.Reachable (Eval.left (Eval.evaluate program.functions fuel term) store) :=
  (Eval.evaluate_keeps statements_reachable fuel term).left reachable

theorem Reachable.call (reachable : program.Reachable store) (fuel : Nat) (id : FunctionId) :
    program.Reachable (Eval.left (Eval.call program.functions fuel id) store) :=
  (Eval.call_keeps statements_reachable fuel id).left reachable

/-- A run changes nothing of a program but its tables. -/
theorem run_program (program : Program) (fuel : Nat) (output : String) :
    (program.run fuel output).program =
      { program with tables := (program.run fuel output).program.tables } := by
  cases entry : program.entry with
  | error halt => rw [run_of_refused entry]
  | ok id =>
      rw [run_of_entry entry, invoke]
      split <;> rfl

/-- A run leaves what calling the entry point leaves. -/
theorem run_left {id : FunctionId} (entry : program.entry = .ok id) (fuel : Nat) (output : String) :
    Eval.left (Eval.call program.functions fuel id) ⟨program.tables, output⟩ =
      ⟨(program.run fuel output).program.tables, (program.run fuel output).output⟩ := by
  rw [run_of_entry entry, invoke, Eval.left]
  split
  · next ended => rw [ended]
  · next reason after ended =>
      rw [ended]
      cases reason <;> rfl

/-- The store behind a run is reachable. -/
theorem reachable_run (program : Program) (fuel : Nat) (output : String) :
    program.Reachable ⟨(program.run fuel output).program.tables, (program.run fuel output).output⟩ := by
  cases entry : program.entry with
  | ok id =>
      rw [← run_left entry]
      exact (Reachable.start output).call fuel id
  | error halt =>
      rw [run_of_refused entry]
      exact .start output

end Program

end Rill

import Mathlib
import Rill.Proofs.Build.Growth
import Rill.Run.Program

/-!
# Reasoning about evaluation steps

`Eval.wp m post store` says that the step `m`, started in `store`, meets no fault, and that `post`
holds of its result and of the store it leaves unless it runs out of fuel.

A run is a call of the entry point (`Program.run_of_entry`), or it ends before (`Program.run_of_refused`).
-/

namespace Rill

namespace Eval

variable {α β : Type}

/-- The step meets no fault from `store`, and its result satisfies `post`. -/
def wp (m : Eval α) (post : α → Store → Prop) (store : Store) : Prop :=
  match m store with
  | .ok result after => post result after
  | .error .outOfFuel _ => True
  | .error (.broken _) _ => False

theorem wp_mono {m : Eval α} {post post' : α → Store → Prop} {store : Store}
    (holds : wp m post store) (weaker : ∀ result after, post result after → post' result after) :
    wp m post' store := by
  unfold wp at holds ⊢
  split at holds
  · exact weaker _ _ holds
  · trivial
  · exact holds.elim

/-- A step that is made of two ends with a result exactly if both do. -/
theorem bind_eq_ok {m : Eval α} {f : α → Eval β} {store after : Store} {b : β} :
    (m >>= f) store = .ok b after ↔ ∃ a middle, m store = .ok a middle ∧ f a middle = .ok b after := by
  simp only [bind, EStateM.bind]
  cases m store <;> simp

/-- A step gives a result exactly if it ends with it, in whatever store. -/
theorem run'_eq_some_iff {m : Eval α} {store : Store} {a : α} :
    m.run' store = some a ↔ ∃ after, m store = .ok a after := by
  rw [EStateM.run', EStateM.run]
  cases m store <;> simp

theorem bind_of_ok {m : Eval α} {f : α → Eval β} {store after : Store} {a : α}
    (run : m store = .ok a after) : (m >>= f) store = f a after := by
  change EStateM.bind m f store = f a after
  rw [EStateM.bind, run]

@[simp] theorem wp_pure (a : α) (post : α → Store → Prop) (store : Store) :
    wp (pure a) post store ↔ post a store :=
  Iff.rfl

@[simp] theorem wp_bind (m : Eval α) (f : α → Eval β) (post : β → Store → Prop) (store : Store) :
    wp (m >>= f) post store ↔ wp m (fun a after => wp (f a) post after) store := by
  unfold wp
  simp only [bind, EStateM.bind]
  cases m store with
  | ok result after => rfl
  | error stop after => cases stop <;> rfl

@[simp] theorem wp_get (post : Store → Store → Prop) (store : Store) :
    wp get post store ↔ post store store :=
  Iff.rfl

@[simp] theorem wp_modify (f : Store → Store) (post : Unit → Store → Prop) (store : Store) :
    wp (modify f) post store ↔ post () (f store) :=
  Iff.rfl

@[simp] theorem wp_outOfFuel (post : α → Store → Prop) (store : Store) :
    wp (throw .outOfFuel) post store ↔ True :=
  Iff.rfl

@[simp] theorem wp_fail (fault : Fault) (post : α → Store → Prop) (store : Store) :
    wp (fail fault) post store ↔ False :=
  Iff.rfl

@[simp] theorem wp_ofFault (result : Except Fault α) (post : α → Store → Prop) (store : Store) :
    wp (ofFault result) post store ↔ ∃ value, result = .ok value ∧ post value store := by
  cases result with
  | ok value => simp [ofFault]
  | error fault => simp [ofFault]

@[simp] theorem wp_print (text : String) (post : Unit → Store → Prop) (store : Store) :
    wp (print text) post store ↔ post () { store with output := store.output ++ text } :=
  Iff.rfl

@[simp] theorem wp_readVar (ref : VarRef) (post : Variable → Store → Prop) (store : Store) :
    wp (readVar ref) post store ↔ ∃ var, slotIn? store.tables ref = some var ∧ post var store := by
  simp only [readVar, wp_bind, wp_get, wp_ofFault, fetch_eq_ok_iff, slotIn?_eq_some_iff]
  constructor
  · rintro ⟨table, tableAt, var, varAt, holds⟩
    exact ⟨var, ⟨table, tableAt, varAt⟩, holds⟩
  · rintro ⟨var, ⟨table, tableAt, varAt⟩, holds⟩
    exact ⟨table, tableAt, var, varAt, holds⟩

/-- The tables after a value was stored in the variable at a place. -/
def written (tables : Array VariableTable) (ref : VarRef) (value : Term) : Array VariableTable :=
  tables.modify ref.table (·.modify ref.index fun var => { var with value? := some value })

theorem slotIn?_written (tables : Array VariableTable) (target ref : VarRef) (value : Term) :
    slotIn? (written tables target value) ref =
      if ref = target then (slotIn? tables ref).map fun var => { var with value? := some value }
      else slotIn? tables ref :=
  slotIn?_modifyVar tables target _ ref

theorem readVar_of_slot {ref : VarRef} {var : Variable} {store : Store}
    (found : slotIn? store.tables ref = some var) : readVar ref store = .ok var store := by
  obtain ⟨vars, tableAt, varAt⟩ := slotIn?_eq_some_iff.mp found
  have gets : (get : Eval Store) store = .ok store store := rfl
  refine (bind_of_ok gets).trans ?_
  rw [fetch_eq_ok_iff.mpr tableAt]
  change ofFault (fetch vars ref.index) store = _
  rw [fetch_eq_ok_iff.mpr varAt]
  rfl

theorem readVar_eq_ok {ref : VarRef} {var : Variable} {store after : Store} :
    readVar ref store = .ok var after ↔ slotIn? store.tables ref = some var ∧ after = store := by
  constructor
  · intro read
    have holds : wp (readVar ref) (fun found left => found = var ∧ left = after) store := by
      rw [wp, read]
      exact ⟨rfl, rfl⟩
    obtain ⟨_, found, rfl, rfl⟩ := (wp_readVar ref _ store).mp holds
    exact ⟨found, rfl⟩
  · rintro ⟨found, rfl⟩
    exact readVar_of_slot found

theorem writeVar_of_slot {ref : VarRef} {var : Variable} {store : Store}
    (found : slotIn? store.tables ref = some var) (value : Term) :
    writeVar ref value store = .ok () { store with tables := written store.tables ref value } :=
  bind_of_ok (readVar_of_slot found)

@[simp] theorem wp_writeVar (ref : VarRef) (value : Term) (post : Unit → Store → Prop)
    (store : Store) :
    wp (writeVar ref value) post store ↔
      (∃ var, slotIn? store.tables ref = some var) ∧
        post () { store with tables := written store.tables ref value } := by
  unfold writeVar
  simp only [wp_bind, wp_readVar, wp_modify]
  constructor
  · rintro ⟨var, found, holds⟩
    exact ⟨⟨var, found⟩, holds⟩
  · rintro ⟨⟨var, found⟩, holds⟩
    exact ⟨var, found, holds⟩

end Eval

/-! ## Runs -/

namespace Program

variable {program : Program}

theorem run_of_entry {id : FunctionId} (entered : program.entry = .ok id) (fuel : Nat) (output : String) :
    program.run fuel output = program.invoke fuel output id := by
  rw [run, entered]

theorem run_of_refused {halt : Halt RunError} (refused : program.entry = .error halt) (fuel : Nat)
    (output : String) : program.run fuel output = ⟨.error halt, program, output⟩ := by
  rw [run, refused]

end Program

end Rill

import Mathlib
import Rill.Build.TopLevel

/-!
# Reasoning about building steps

`Build.wp m post context` says that the step `m`, started in `context`, meets no fault, and that
`post` holds of its result and of the context it leaves unless it stops with an error to report. The
lemmas of this module push `wp` through the operations that building steps are made of.
-/

namespace Rill

/-! ## Places of variables -/

/-- The variable at a place, if there is one. -/
def slotIn? (tables : Array VariableTable) (ref : VarRef) : Option Variable :=
  (tables[ref.table]?).bind fun table => table[ref.index]?

theorem fetch_eq_ok_iff {α : Type} {xs : Array α} {id : Nat} {x : α} :
    fetch xs id = .ok x ↔ xs[id]? = some x := by
  unfold fetch
  cases xs[id]? <;> simp

theorem slotIn?_eq_some_iff {tables : Array VariableTable} {ref : VarRef} {var : Variable} :
    slotIn? tables ref = some var ↔
      ∃ table, tables[ref.table]? = some table ∧ table[ref.index]? = some var := by
  simp [slotIn?, Option.bind_eq_some_iff]

theorem Program.var_eq_ok_iff {program : Program} {ref : VarRef} {var : Variable} :
    program.var ref = .ok var ↔ slotIn? program.tables ref = some var := by
  rw [slotIn?_eq_some_iff]
  cases table : program.tables[ref.table]? with
  | none => simp [Program.var, Program.table, fetch, table, bind, Except.bind]
  | some vars =>
      simp [Program.var, Program.table, fetch_eq_ok_iff.mpr table, bind, Except.bind, fetch_eq_ok_iff]

namespace Build

variable {α β : Type}

/-- The step meets no fault from `context`, and its result satisfies `post`. -/
def wp (m : Build α) (post : α → BuildContext → Prop) (context : BuildContext) : Prop :=
  match m context with
  | .ok (result, after) => post result after
  | .error (.reported _) => True
  | .error (.broken _) => False

theorem wp_mono {m : Build α} {post post' : α → BuildContext → Prop} {context : BuildContext}
    (holds : wp m post context) (weaker : ∀ result after, post result after → post' result after) :
    wp m post' context := by
  unfold wp at holds ⊢
  split at holds
  · exact weaker _ _ holds
  · trivial
  · exact holds.elim

/-- What `wp` gives about a step that ends with a result. -/
theorem wp_result {m : Build α} {post : α → BuildContext → Prop} {context after : BuildContext}
    {result : α} (holds : wp m post context) (run : m context = .ok (result, after)) :
    post result after := by
  unfold wp at holds
  rw [run] at holds
  exact holds

@[simp] theorem wp_pure (a : α) (post : α → BuildContext → Prop) (context : BuildContext) :
    wp (pure a) post context ↔ post a context :=
  Iff.rfl

@[simp] theorem wp_bind (m : Build α) (f : α → Build β) (post : β → BuildContext → Prop)
    (context : BuildContext) :
    wp (m >>= f) post context ↔ wp m (fun a after => wp (f a) post after) context := by
  have unfolded : (m >>= f) context = (m context).bind fun result => f result.1 result.2 := rfl
  unfold wp
  rw [unfolded]
  cases m context with
  | ok result => rfl
  | error abort => cases abort <;> rfl

@[simp] theorem wp_map (m : Build α) (f : α → β) (post : β → BuildContext → Prop)
    (context : BuildContext) :
    wp (f <$> m) post context ↔ wp m (fun a after => post (f a) after) context := by
  rw [map_eq_pure_bind, wp_bind]
  simp only [wp_pure]

@[simp] theorem wp_get (post : BuildContext → BuildContext → Prop) (context : BuildContext) :
    wp get post context ↔ post context context :=
  Iff.rfl

@[simp] theorem wp_set (next : BuildContext) (post : Unit → BuildContext → Prop)
    (context : BuildContext) : wp (set next) post context ↔ post () next :=
  Iff.rfl

@[simp] theorem wp_modify (f : BuildContext → BuildContext) (post : Unit → BuildContext → Prop)
    (context : BuildContext) : wp (modify f) post context ↔ post () (f context) :=
  Iff.rfl

@[simp] theorem wp_refuse (kind : BuildErrorKind) (span : Span) (post : α → BuildContext → Prop)
    (context : BuildContext) : wp (refuse kind span) post context ↔ True :=
  Iff.rfl

@[simp] theorem wp_ofFault (result : Except Fault α) (post : α → BuildContext → Prop)
    (context : BuildContext) :
    wp (ofFault result) post context ↔ ∃ value, result = .ok value ∧ post value context := by
  cases result with
  | ok value => simp [ofFault]
  | error fault => simp [ofFault, wp, throw, throwThe, MonadExceptOf.throw, StateT.lift]

@[simp] theorem wp_readVar (ref : VarRef) (post : Variable → BuildContext → Prop)
    (context : BuildContext) :
    wp (readVar ref) post context ↔
      ∃ var, slotIn? context.program.tables ref = some var ∧ post var context := by
  simp only [readVar, wp_bind, wp_get, wp_ofFault, Program.var_eq_ok_iff]

@[simp] theorem wp_modifyVar (ref : VarRef) (change : Variable → Variable)
    (post : Unit → BuildContext → Prop) (context : BuildContext) :
    wp (modifyVar ref change) post context ↔
      post () { context with program := context.program.modifyVar ref change } :=
  Iff.rfl

end Build

end Rill

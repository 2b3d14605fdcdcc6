import Mathlib
import Rill.Proofs.Build.Resolution
import Rill.Proofs.Build.Signatures
import Rill.Proofs.Likeness.Contexts

/-!
# Shadowing

A program is built up with a chain of scopes beside it: tables are added, names declared, scopes entered and left. A
table goes on growing after its scope was entered, and may be entered several times.

1. A name means its latest declaration in the table entered last of those that declare it (`lookup?_eq_some_iff`,
   `lookup?_eq_none_iff`).
2. A look-up only sees what the tables of the chain find for the name (`lookup?_agree`). So a declaration concerns its
   own name, and only where its table is on the chain.
3. Changes in which every scope that is entered is left again keep the chain (`Balanced.run_chain`), so what was not
   declared in the tables of the chain does not show afterwards (`shadowing_local`).
-/

namespace Rill

namespace Program

variable {program program' : Program} {chain : ScopeChain} {name : String}

/-- A table declares a name. -/
def Declares (program : Program) (id : TableId) (name : String) : Prop :=
  ∃ vars, program.tables[id]? = some vars ∧ ∃ var ∈ vars, var.name = name

/-- The place is that of the latest declaration of a name in its table. -/
def LatestIn (program : Program) (name : String) (ref : VarRef) : Prop :=
  ∃ vars, program.tables[ref.table]? = some vars ∧
    (∃ var, vars[ref.index]? = some var ∧ var.name = name) ∧
    ∀ j var, ref.index < j → vars[j]? = some var → var.name ≠ name

/-- Every id of the chain names a table. -/
def Within (program : Program) (chain : ScopeChain) : Prop :=
  ∀ id ∈ chain, id < program.tables.size

/-- The place is that of the latest declaration of a name in the table entered last of those that declare it. -/
def Visible (program : Program) (chain : ScopeChain) (name : String) (ref : VarRef) : Prop :=
  ∃ inner outer, chain = inner ++ ref.table :: outer ∧ (∀ id ∈ inner, ¬ program.Declares id name) ∧
    program.LatestIn name ref

/-! ## What a name means -/

theorem declares_iff {id : TableId} {vars : VariableTable} (tableAt : program.tables[id]? = some vars) :
    program.Declares id name ↔ vars.lookup? name ≠ none := by
  rw [VariableTable.lookup?, Ne, lastIndex?_eq_none_iff]
  simp [Declares, tableAt]

theorem latestIn_iff {id : TableId} {index : Nat} {vars : VariableTable}
    (tableAt : program.tables[id]? = some vars) :
    program.LatestIn name ⟨id, index⟩ ↔ vars.lookup? name = some index := by
  rw [VariableTable.lookup?, lastIndex?_eq_some_iff]
  simp [LatestIn, tableAt]

theorem lookup?_eq_none_iff (within : program.Within chain) :
    ScopeChain.lookup? program name chain = .ok none ↔ ∀ id ∈ chain, ¬ program.Declares id name := by
  induction chain with
  | nil => exact ⟨fun _ => by simp, fun _ => rfl⟩
  | cons id outer ih =>
      obtain ⟨exists_, others⟩ := List.forall_mem_cons.mp within
      have tableAt := Array.getElem?_eq_getElem exists_
      rw [Build.lookup?_cons tableAt, List.forall_mem_cons, declares_iff tableAt, ← ih others]
      cases VariableTable.lookup? program.tables[id] name <;> simp

/-- The table entered last is the place of the name if it declares it, and is passed over if it does not. -/
theorem visible_cons {id : TableId} {outer : ScopeChain} {ref : VarRef} :
    program.Visible (id :: outer) name ref ↔
      (ref.table = id ∧ program.LatestIn name ref) ∨
        (¬ program.Declares id name ∧ program.Visible outer name ref) := by
  constructor
  · rintro ⟨inner, rest, same, passed, latest⟩
    cases inner with
    | nil =>
        cases same
        exact .inl ⟨rfl, latest⟩
    | cons first inner =>
        cases same
        obtain ⟨lacks, passed⟩ := List.forall_mem_cons.mp passed
        exact .inr ⟨lacks, inner, rest, rfl, passed, latest⟩
  · rintro (⟨rfl, latest⟩ | ⟨lacks, inner, rest, rfl, passed, latest⟩)
    · exact ⟨[], outer, rfl, by simp, latest⟩
    · exact ⟨id :: inner, rest, rfl, List.forall_mem_cons.mpr ⟨lacks, passed⟩, latest⟩

theorem lookup?_eq_some_iff (within : program.Within chain) {ref : VarRef} :
    ScopeChain.lookup? program name chain = .ok (some ref) ↔ program.Visible chain name ref := by
  induction chain with
  | nil => simp [ScopeChain.lookup?, Visible, pure, Except.pure]
  | cons id outer ih =>
      obtain ⟨exists_, others⟩ := List.forall_mem_cons.mp within
      have tableAt := Array.getElem?_eq_getElem exists_
      obtain ⟨table, index⟩ := ref
      rw [Build.lookup?_cons tableAt, visible_cons, declares_iff tableAt, ← ih others]
      have here : table = id ∧ program.LatestIn name ⟨table, index⟩ ↔
          table = id ∧ VariableTable.lookup? program.tables[id] name = some index := by
        refine and_congr_right fun same => ?_
        subst same
        exact latestIn_iff tableAt
      simp only [here]
      -- The table has the name, or is passed over.
      cases VariableTable.lookup? program.tables[id] name with
      | none => simp
      | some found => simp [eq_comm]

/-- A look-up only depends on what the tables of the chain find. -/
theorem lookup?_agree (agree : ∀ id ∈ chain, ∃ vars vars', program.tables[id]? = some vars ∧
      program'.tables[id]? = some vars' ∧ vars'.lookup? name = vars.lookup? name) :
    ScopeChain.lookup? program' name chain = ScopeChain.lookup? program name chain := by
  induction chain with
  | nil => rfl
  | cons id outer ih =>
      obtain ⟨⟨vars, vars', tableAt, tableAt', same⟩, others⟩ := List.forall_mem_cons.mp agree
      rw [Build.lookup?_cons tableAt, Build.lookup?_cons tableAt', same, ih others]

end Program

/-- A program with the scopes that were entered and not left. -/
structure Scoping where
  program : Program
  chain : ScopeChain

namespace Scoping

/-- What can be done to a program and its scopes. -/
inductive Change where
  | addTable
  | declare (table : TableId) (var : Variable)
  | push (table : TableId)
  | pop

/-- Makes a change. -/
def apply (s : Scoping) : Change → Scoping
  | .addTable => { s with program := s.program.addTable }
  | .declare table var => { s with program := s.program.declare table var }
  | .push table => { s with chain := s.chain.push table }
  | .pop => { s with chain := s.chain.pop }

/-- Makes changes one after the other. -/
def run (s : Scoping) (changes : List Change) : Scoping :=
  changes.foldl apply s

/-- The table that a change names is one of the program. An id that names none stands for no scope: to look a name up
there is a fault. -/
def Admits (s : Scoping) : Change → Prop
  | .declare table _ | .push table => table < s.program.tables.size
  | .addTable | .pop => True

/-- Every change names a table that the program has by then. -/
def AdmitsAll (s : Scoping) : List Change → Prop
  | [] => True
  | change :: changes => s.Admits change ∧ (s.apply change).AdmitsAll changes

instance decidableAdmits (s : Scoping) : (change : Change) → Decidable (s.Admits change)
  | .declare _ _ | .push _ => inferInstanceAs (Decidable (_ < _))
  | .addTable | .pop => inferInstanceAs (Decidable True)

instance decidableAdmitsAll (s : Scoping) : (changes : List Change) → Decidable (s.AdmitsAll changes)
  | [] => inferInstanceAs (Decidable True)
  | change :: changes =>
      have := decidableAdmitsAll (s.apply change) changes
      inferInstanceAs (Decidable (_ ∧ _))

/-- The empty program before any scope is entered. -/
def start : Scoping :=
  ⟨Program.empty, []⟩

/-- What can be reached from the empty program by any changes. -/
def Reached (s : Scoping) : Prop :=
  ∃ changes, start.AdmitsAll changes ∧ s = start.run changes

/-- What a name means. -/
def meaning (s : Scoping) (name : String) : Except Fault (Option VarRef) :=
  ScopeChain.lookup? s.program name s.chain

/-- Every scope that is entered is left again, and no other is. -/
inductive Balanced : List Change → Prop
  | nil : Balanced []
  | addTable {rest : List Change} : Balanced rest → Balanced (.addTable :: rest)
  | declare {table : TableId} {var : Variable} {rest : List Change} :
      Balanced rest → Balanced (.declare table var :: rest)
  | scope {table : TableId} {inner rest : List Change} :
      Balanced inner → Balanced rest → Balanced (.push table :: (inner ++ .pop :: rest))

/-! ## Changes -/

variable {s : Scoping} {id : TableId} {var : Variable} {changes : List Change}

theorem size_apply (s : Scoping) (change : Change) :
    s.program.tables.size ≤ (s.apply change).program.tables.size := by
  cases change with
  | addTable => simp [apply, Program.addTable]
  | declare => simp [apply, Program.declare]
  | push | pop => exact Nat.le_refl _

theorem within_apply {change : Change} (within : s.program.Within s.chain) (admits : s.Admits change) :
    (s.apply change).program.Within (s.apply change).chain := by
  intro id member
  have old (member : id ∈ s.chain) : id < (s.apply change).program.tables.size :=
    Nat.lt_of_lt_of_le (within id member) (size_apply s change)
  cases change with
  | addTable | declare => exact old member
  | push table =>
      rcases List.mem_cons.mp member with rfl | member
      · exact admits
      · exact old member
  | pop => exact old (List.mem_of_mem_tail member)

theorem within_run (within : s.program.Within s.chain) (admits : s.AdmitsAll changes) :
    (s.run changes).program.Within (s.run changes).chain := by
  induction changes generalizing s with
  | nil => exact within
  | cons change changes ih => exact ih (within_apply within admits.1) admits.2

theorem Reached.within (reached : s.Reached) : s.program.Within s.chain := by
  obtain ⟨changes, admits, rfl⟩ := reached
  exact within_run (fun id member => absurd member List.not_mem_nil) admits

theorem tables_declare {vars : VariableTable} (tableAt : s.program.tables[id]? = some vars) (var : Variable) :
    (s.apply (.declare id var)).program.tables[id]? = some (vars.push var) := by
  simp [apply, Program.declare, Array.getElem?_modify, tableAt]

theorem tables_declare_ne {other : TableId} (different : other ≠ id) (var : Variable) :
    (s.apply (.declare id var)).program.tables[other]? = s.program.tables[other]? := by
  simp [apply, Program.declare, Array.getElem?_modify, different.symm]

/-- A table keeps its variables while nothing is declared in it. -/
theorem tables_run (exists_ : id < s.program.tables.size) (untouched : ∀ var, .declare id var ∉ changes) :
    (s.run changes).program.tables[id]? = s.program.tables[id]? := by
  induction changes generalizing s with
  | nil => rfl
  | cons change changes ih =>
      have later : (s.run (change :: changes)).program.tables[id]? = (s.apply change).program.tables[id]? :=
        ih (Nat.lt_of_lt_of_le exists_ (size_apply s change)) fun var member =>
          untouched var (List.mem_cons_of_mem _ member)
      rw [later]
      cases change with
      | addTable => exact Array.getElem?_push_lt exists_ |>.trans (Array.getElem?_eq_getElem exists_).symm
      | declare table var =>
          refine tables_declare_ne ?_ var
          rintro rfl
          exact untouched var List.mem_cons_self
      | push | pop => rfl

theorem Balanced.run_chain (balanced : Balanced changes) (s : Scoping) : (s.run changes).chain = s.chain := by
  induction balanced generalizing s with
  | nil => rfl
  | addTable _ ih => exact ih _
  | declare _ ih => exact ih _
  | @scope table inner rest _ _ insideIh restIh =>
      have split : s.run (.push table :: (inner ++ .pop :: rest)) =
          (((s.apply (.push table)).run inner).apply .pop).run rest := List.foldl_append
      rw [split, restIh]
      show ((s.apply (.push table)).run inner).chain.tail = s.chain
      rw [insideIh]
      rfl

/-! ## Look-ups after changes -/

/-- A look-up stays as it was when the chain and its tables are as they were. -/
theorem meaning_eq {s s' : Scoping} (within : s.program.Within s.chain) (sameChain : s'.chain = s.chain)
    (sameTables : ∀ id ∈ s.chain, s'.program.tables[id]? = s.program.tables[id]?) (name : String) :
    s'.meaning name = s.meaning name := by
  rw [meaning, meaning, sameChain]
  refine Program.lookup?_agree fun id member => ?_
  have tableAt := Array.getElem?_eq_getElem (within id member)
  exact ⟨_, _, tableAt, (sameTables id member).trans tableAt, rfl⟩

/-- A declaration in the innermost scope gives its name a new meaning. -/
theorem meaning_declared {outer : ScopeChain} {vars : VariableTable} (innermost : s.chain = id :: outer)
    (tableAt : s.program.tables[id]? = some vars) (var : Variable) :
    (s.apply (.declare id var)).meaning var.name = .ok (some ⟨id, vars.size⟩) := by
  show ScopeChain.lookup? _ var.name s.chain = _
  rw [innermost, Build.lookup?_cons (tables_declare tableAt var), VariableTable.lookup?_push, if_pos rfl]

/-- A declaration gives no other name a new meaning, wherever its table stands on the chain. -/
theorem meaning_other (within : s.program.Within s.chain) {name : String} (other : name ≠ var.name) :
    (s.apply (.declare id var)).meaning name = s.meaning name := by
  refine Program.lookup?_agree fun table member => ?_
  have tableAt := Array.getElem?_eq_getElem (within table member)
  by_cases same : table = id
  · subst same
    refine ⟨_, _, tableAt, tables_declare tableAt var, ?_⟩
    rw [VariableTable.lookup?_push, if_neg other.symm]
  · exact ⟨_, _, tableAt, (tables_declare_ne same var).trans tableAt, rfl⟩

/-- Shadowing is local to the name and to the scope.

* A name means its latest declaration in the table entered last of those that declare it, and nothing if none does.
* A declaration in the innermost table gives its name the new variable as meaning, and keeps all others.
* A declaration in a table that is not on the chain changes no meaning.
* Entering a scope and leaving it again restores all meanings, whatever was done in between, if the scopes
  entered there were left and nothing was declared in the tables that were on the chain before. -/
theorem shadowing_local (reached : s.Reached) :
    (∀ name, (∃ answer, s.meaning name = .ok answer) ∧
      (∀ ref, s.meaning name = .ok (some ref) ↔ s.program.Visible s.chain name ref) ∧
      (s.meaning name = .ok none ↔ ∀ id ∈ s.chain, ¬ s.program.Declares id name)) ∧
    (∀ id outer var, s.chain = id :: outer →
      (∃ vars, s.program.tables[id]? = some vars ∧
        (s.apply (.declare id var)).program.tables[id]? = some (vars.push var) ∧
        (s.apply (.declare id var)).meaning var.name = .ok (some ⟨id, vars.size⟩)) ∧
      ∀ name, name ≠ var.name → (s.apply (.declare id var)).meaning name = s.meaning name) ∧
    (∀ id var, id ∉ s.chain → ∀ name, (s.apply (.declare id var)).meaning name = s.meaning name) ∧
    ∀ id changes, Balanced changes → (∀ table ∈ s.chain, ∀ var, .declare table var ∉ changes) →
      ∀ name, (s.run (.push id :: (changes ++ [.pop]))).meaning name = s.meaning name := by
  have within := reached.within
  refine ⟨fun name => ⟨?_, fun ref => ?_, ?_⟩, fun id outer var innermost => ⟨?_, fun name other => ?_⟩,
    fun id var apart name => ?_, fun id changes balanced untouched name => ?_⟩
  · obtain ⟨answer, found, _⟩ := ScopeChain.lookup?_spec name within
    exact ⟨answer, found⟩
  · exact Program.lookup?_eq_some_iff within
  · exact Program.lookup?_eq_none_iff within
  · have tableAt := Array.getElem?_eq_getElem (within id (by simp [innermost]))
    exact ⟨_, tableAt, tables_declare tableAt var, meaning_declared innermost tableAt var⟩
  · exact meaning_other within other
  · have sameChain : (s.apply (.declare id var)).chain = s.chain := rfl
    refine meaning_eq within sameChain (fun table member => tables_declare_ne ?_ var) name
    rintro rfl
    exact apart member
  · have enclosed : Balanced (.push id :: (changes ++ [.pop])) := .scope balanced .nil
    refine meaning_eq within (enclosed.run_chain s) (fun table member => ?_) name
    refine tables_run (within table member) fun var declared => untouched table member var ?_
    simpa using declared

/-- A variable of which only the name is known. -/
def stub (name : String) : Variable :=
  { name, nameSpan := ⟨0, 0⟩, type? := none, value? := none }

/-- Two tables that declare the same name, the first of them entered twice. -/
def enteringTwice : List Change :=
  [.declare 0 (stub "x"), .addTable, .declare 1 (stub "x"), .push 0, .push 1, .push 0]

/-- What is reached by it. -/
def enteredTwice : Scoping :=
  start.run enteringTwice

theorem enteredTwice_reached : enteredTwice.Reached :=
  ⟨enteringTwice, by decide, rfl⟩

/-- What is declared in a scope that is left again. -/
def passing : List Change :=
  [.addTable, .push 2, .declare 2 (stub "x"), .pop]

theorem shadowing_local_enteredTwice : enteredTwice.Reached ∧ enteredTwice.chain = [0, 1, 0] ∧
    enteredTwice.program.Visible [0, 1, 0] "x" ⟨0, 0⟩ ∧
    (∃ vars, enteredTwice.program.tables[0]? = some vars ∧
      (enteredTwice.apply (.declare 0 (stub "x"))).program.tables[0]? = some (vars.push (stub "x")) ∧
      (enteredTwice.apply (.declare 0 (stub "x"))).meaning "x" = .ok (some ⟨0, vars.size⟩)) ∧
    (∀ name, (enteredTwice.apply (.declare 2 (stub "x"))).meaning name = enteredTwice.meaning name) ∧
    Balanced passing ∧
    ∀ name, (enteredTwice.run (.push 1 :: (passing ++ [.pop]))).meaning name = enteredTwice.meaning name := by
  obtain ⟨means, innermost, apart, restored⟩ := shadowing_local enteredTwice_reached
  have balanced : Balanced passing := .addTable (.scope (.declare .nil) .nil)
  refine ⟨enteredTwice_reached, rfl, ((means "x").2.1 _).mp rfl, (innermost 0 [1, 0] (stub "x") rfl).1,
    apart 2 (stub "x") (by decide), balanced, restored 1 passing balanced ?_⟩
  intro table member var declared
  obtain ⟨rfl, _⟩ : table = 2 ∧ var = stub "x" := by simpa [passing] using declared
  exact absurd member (by decide)

end Scoping

end Rill

import Mathlib
import Rill.Assembly.Lower
import Rill.Proofs.Build.Logic

/-!
# Executing instructions

A machine runs a list of instructions with a program counter, a stack of return addresses, one
register and the text printed so far. Calling the printing routine prints the register; calling any
other name goes to its label, and a return goes back. Execution starts at the label of `main` with an
empty stack, and ends with the return that finds the stack empty.

The rest of the module is about the code that a program is lowered to: every name is labelled once, with
the latest function that a global of this name holds (`Labels.ofGlobals_latest`), and the lowered
statements of the function are right behind the label (`blocks_at`).
-/

namespace Rill

namespace Assembly

/-! ## The machine -/

/-- The state of an execution. -/
structure Machine where
  pc : Nat
  stack : List Nat
  rdi : UInt64
  output : String

/-- The position of a label. -/
def address? (code : List Instr) (name : String) : Option Nat :=
  code.idxOf? (.label name)

/-- One step; none from a state in which execution ends. -/
def step (code : List Instr) (m : Machine) : Option Machine :=
  match code[m.pc]? with
  | some (.label _) => some { m with pc := m.pc + 1 }
  | some (.moveRdi value) => some { m with pc := m.pc + 1, rdi := value }
  | some (.call target) =>
      if target = printRoutine then
        some { m with pc := m.pc + 1, output := m.output ++ Text.decimal m.rdi.toNat }
      else
        (address? code target).map fun entry =>
          { m with pc := entry, stack := (m.pc + 1) :: m.stack }
  | some .ret =>
      match m.stack with
      | [] => none
      | back :: rest => some { m with pc := back, stack := rest }
  | none => none

/-- Some number of steps. -/
def Steps (code : List Instr) : Machine → Machine → Prop :=
  Relation.ReflTransGen fun m m' => step code m = some m'

/-- Execution from the label of `main`, with the given register and text, ends in the state `last`. -/
def Ends (code : List Instr) (rdi : UInt64) (output : String) (last : Machine) : Prop :=
  ∃ entry, address? code (functionLabel entryName) = some entry ∧
    Steps code ⟨entry, [], rdi, output⟩ last ∧ step code last = none

/-- The state is at a return that ends the execution. -/
def Returned (code : List Instr) (m : Machine) : Prop :=
  code[m.pc]? = some .ret ∧ m.stack = []

/-- Execution ends after the given number of steps. -/
inductive EndsIn (code : List Instr) : Nat → Machine → Machine → Prop
  | here {m : Machine} : step code m = none → EndsIn code 0 m m
  | next {n : Nat} {m m' last : Machine} :
      step code m = some m' → EndsIn code n m' last → EndsIn code (n + 1) m last

theorem endsIn_of_steps {code : List Instr} {m last : Machine} (steps : Steps code m last)
    (ended : step code last = none) : ∃ n, EndsIn code n m last := by
  induction steps using Relation.ReflTransGen.head_induction_on with
  | refl => exact ⟨0, .here ended⟩
  | head first _ ih =>
      obtain ⟨n, ends⟩ := ih
      exact ⟨n + 1, .next first ends⟩

theorem EndsIn.after_step {code : List Instr} {n : Nat} {m m' last : Machine}
    (ends : EndsIn code n m last) (stepped : step code m = some m') :
    ∃ k, n = k + 1 ∧ EndsIn code k m' last := by
  cases ends with
  | here stuck => cases stuck.symm.trans stepped
  | @next k _ _ _ first rest =>
      cases first.symm.trans stepped
      exact ⟨k, rfl, rest⟩

/-! ## Instructions in place -/

/-- The instructions stand in the code from a position on. -/
def CodeAt (code : List Instr) (pc : Nat) (instrs : List Instr) : Prop :=
  instrs <+: code.drop pc

section CodeAt

variable {code instrs : List Instr} {pc : Nat} {instr : Instr}

theorem CodeAt.head (at_ : CodeAt code pc (instr :: instrs)) : code[pc]? = some instr := by
  obtain ⟨rest, equal⟩ := at_
  have first : (code.drop pc)[0]? = some instr := by rw [← equal]; rfl
  rwa [List.getElem?_drop, Nat.add_zero] at first

theorem CodeAt.tail (at_ : CodeAt code pc (instr :: instrs)) : CodeAt code (pc + 1) instrs := by
  obtain ⟨rest, equal⟩ := at_
  refine ⟨rest, ?_⟩
  rw [← List.drop_drop, ← equal]
  rfl

theorem CodeAt.behind (block : List Instr) (at_ : CodeAt code pc instrs) :
    CodeAt (block ++ code) (pc + block.length) instrs := by
  unfold CodeAt
  rwa [Nat.add_comm, ← List.drop_drop, List.drop_left]

theorem address?_behind {block : List Instr} {name : String} (notIn : .label name ∉ block) :
    address? (block ++ code) name = (address? code name).map (· + block.length) := by
  have noIndex : block.findIdx? (· == .label name) = none := by
    rw [List.findIdx?_eq_none_iff]
    intro instr member
    simp only [beq_eq_false_iff_ne]
    exact fun same => notIn (same ▸ member)
  rw [address?, List.idxOf?, List.findIdx?_append, noIndex, Option.none_or]
  rfl

end CodeAt

/-! ## Labels -/

theorem functionLabel_injective {a b : String} (equal : functionLabel a = functionLabel b) : a = b := by
  have lists := congrArg String.toList equal
  simp only [functionLabel, String.toList_append] at lists
  exact String.toList_inj.mp (List.append_cancel_left lists)

theorem functionLabel_ne_printRoutine (name : String) : functionLabel name ≠ printRoutine := by
  intro equal
  have lists := congrArg String.toList equal
  simp [functionLabel, printRoutine] at lists

theorem Labels.contains_iff {labels : Labels} {name : String} :
    labels.contains name = true ↔ ∃ id, (name, id) ∈ labels := by
  simp [Labels.contains]

theorem Labels.mem_names_insert {labels : Labels} {name other : String} {id : FunctionId} :
    other ∈ (labels.insert name id).map Prod.fst ↔ other = name ∨ other ∈ labels.map Prod.fst := by
  induction labels with
  | nil => simp [Labels.insert]
  | cons entry rest ih =>
      rw [Labels.insert]
      split
      · next same => simp [same]
      · simp only [List.map_cons, List.mem_cons, ih, or_left_comm]

theorem Labels.nodup_insert {labels : Labels} (distinct : (labels.map Prod.fst).Nodup) (name : String)
    (id : FunctionId) : ((labels.insert name id).map Prod.fst).Nodup := by
  induction labels with
  | nil => simp [Labels.insert]
  | cons entry rest ih =>
      rw [List.map_cons, List.nodup_cons] at distinct
      rw [Labels.insert]
      split
      · next same => exact List.nodup_cons.mpr ⟨same ▸ distinct.1, distinct.2⟩
      · next different =>
        refine List.nodup_cons.mpr ⟨fun member => ?_, ih distinct.2⟩
        exact (Labels.mem_names_insert.mp member).elim different distinct.1

/-- The name is given its function, and the other names keep theirs. -/
theorem Labels.mem_insert {labels : Labels} (distinct : (labels.map Prod.fst).Nodup)
    {name other : String} {id found : FunctionId} :
    (other, found) ∈ labels.insert name id ↔
      if name = other then id = found else (other, found) ∈ labels := by
  induction labels with
  | nil =>
      simp only [Labels.insert, List.mem_singleton, Prod.mk.injEq, List.not_mem_nil]
      grind
  | cons entry rest ih =>
      obtain ⟨first, old⟩ := entry
      rw [List.map_cons, List.nodup_cons] at distinct
      have notAgain : (first, found) ∉ rest := fun member =>
        distinct.1 (List.mem_map.mpr ⟨_, member, rfl⟩)
      rw [Labels.insert]
      split
      · next same =>
        subst same
        grind
      · rw [List.mem_cons, ih distinct.2]
        grind

theorem function?_eq_some_iff {var : Variable} {id : FunctionId} :
    var.function? = some id ↔ ∃ held, var.value? = some held ∧ held.shape = .function id := by
  unfold Variable.function?
  constructor
  · intro function
    split at function
    · next holds =>
      cases function
      exact ⟨_, holds, rfl⟩
    · cases function
  · rintro ⟨⟨_, type?, span⟩, holds, rfl⟩
    rw [holds]

/-- The function of the latest global that has the name and holds a function. -/
def functionNamed? (globals : VariableTable) (name : String) : Option FunctionId :=
  globals.toList.reverse.findSome? fun var => if var.name == name then var.function? else none

theorem holder_of_functionNamed? {globals : VariableTable} {name : String} {id : FunctionId}
    (latest : functionNamed? globals name = some id) :
    ∃ var ∈ globals.toList, var.name = name ∧ var.function? = some id := by
  obtain ⟨var, member, isLatest⟩ := List.exists_of_findSome?_eq_some latest
  split at isLatest
  · next named => exact ⟨var, List.mem_reverse.mp member, by simpa using named, isLatest⟩
  · cases isLatest

/-- Every name is labelled once, with its latest function. -/
theorem Labels.ofGlobals_latest (globals : VariableTable) :
    ((Labels.ofGlobals globals).map Prod.fst).Nodup ∧ ∀ name id,
      (name, id) ∈ Labels.ofGlobals globals ↔ functionNamed? globals name = some id := by
  unfold Labels.ofGlobals functionNamed?
  -- The globals are labelled from the first to the last, so the induction adds the last one.
  induction globals.toList using List.reverseRecOn with
  | nil => simp
  | append_singleton vars var ih =>
      rw [List.foldl_append, List.foldl_cons, List.foldl_nil]
      simp only [List.reverse_append, List.reverse_singleton, List.singleton_append,
        List.findSome?_cons]
      cases function : var.function? with
      | none => simpa only [ite_self] using ih
      | some held =>
          refine ⟨Labels.nodup_insert ih.1 _ _, fun name id => ?_⟩
          rw [Labels.mem_insert ih.1, ih.2 name id]
          by_cases same : var.name = name <;> simp [same]

theorem Labels.nodup_ofGlobals (globals : VariableTable) :
    ((Labels.ofGlobals globals).map Prod.fst).Nodup :=
  (Labels.ofGlobals_latest globals).1

theorem Labels.mem_ofGlobals {globals : VariableTable} {name : String} {id : FunctionId} :
    (name, id) ∈ Labels.ofGlobals globals ↔ functionNamed? globals name = some id :=
  (Labels.ofGlobals_latest globals).2 name id

theorem Labels.mem_ofGlobals_of_distinct {globals : VariableTable} {name : String} {id : FunctionId}
    (distinct : (globals.toList.map (·.name)).Nodup) :
    (name, id) ∈ Labels.ofGlobals globals ↔
      ∃ var ∈ globals.toList, var.name = name ∧ var.function? = some id := by
  rw [Labels.mem_ofGlobals]
  constructor
  · exact holder_of_functionNamed?
  · rintro ⟨var, member, named, function⟩
    cases latest : functionNamed? globals name with
    | none =>
        have noFunction := List.findSome?_eq_none_iff.mp latest var (List.mem_reverse.mpr member)
        simp [named, function] at noFunction
    | some other =>
        obtain ⟨var', member', named', function'⟩ := holder_of_functionNamed? latest
        cases List.inj_on_of_nodup_map distinct member' member (named'.trans named.symm)
        rw [← function', function]

/-! ## Lowered code -/

section Lowered

variable {program : Program} {labels : Labels}

/-- A call goes to the label of the global that it names. -/
theorem callTarget_eq_ok {callee : Term} {target : String}
    (called : callTarget program labels callee = .ok target) :
    ∃ ref var, callee.shape = .variable ref ∧ ref.table = program.globals ∧
      slotIn? program.tables ref = some var ∧ labels.contains var.name = true ∧
      target = functionLabel var.name := by
  unfold callTarget at called
  split at called
  · next ref shape =>
    split at called
    · next isGlobal =>
      cases found : program.var ref with
      | error fault => simp [found, Except.mapError, bind, Except.bind] at called
      | ok var =>
          simp only [found, Except.mapError, bind, Except.bind] at called
          split at called
          · next labelled =>
            cases called
            exact ⟨ref, var, shape, isGlobal, Program.var_eq_ok_iff.mp found, labelled, rfl⟩
          · cases called
    · cases called
  · cases called

/-- What a lowered list of statements begins with. -/
theorem lowerStatements_cons {statement : Term} {rest : List Term} {instrs : List Instr}
    (lowered : lowerStatements program labels (statement :: rest) = .ok instrs) :
    (∃ operand value later, statement.shape = .printU64 operand ∧ operand.shape = .int value ∧
      lowerStatements program labels rest = .ok later ∧
      instrs = .moveRdi value :: .call printRoutine :: later) ∨
    (∃ callee params target later, statement.shape = .call callee params ∧
      callTarget program labels callee = .ok target ∧
      lowerStatements program labels rest = .ok later ∧ instrs = .call target :: later) ∨
    (statement.shape = .returnWith none ∧ instrs = [.ret]) := by
  rw [lowerStatements] at lowered
  split at lowered
  · next operand shape =>
    split at lowered
    · next value isInt =>
      cases later : lowerStatements program labels rest with
      | error abort => simp [later, bind, Except.bind] at lowered
      | ok instrs' =>
          simp only [later, bind, Except.bind, pure, Except.pure, Except.ok.injEq] at lowered
          exact Or.inl ⟨operand, value, instrs', shape, isInt, rfl, lowered.symm⟩
    · cases lowered
  · next callee params shape =>
    cases called : callTarget program labels callee with
    | error abort => simp [called, bind, Except.bind] at lowered
    | ok target =>
        cases later : lowerStatements program labels rest with
        | error abort => simp [called, later, bind, Except.bind] at lowered
        | ok instrs' =>
            simp only [called, later, bind, Except.bind, pure, Except.pure, Except.ok.injEq] at lowered
            exact Or.inr (Or.inl ⟨callee, params, target, instrs', shape, called, rfl, lowered.symm⟩)
  · next shape =>
    cases lowered
    exact Or.inr (Or.inr ⟨shape, rfl⟩)
  all_goals cases lowered

/-- Statements are lowered to instructions without labels. -/
theorem lowerStatements_no_label {body : List Term} :
    ∀ {instrs : List Instr}, lowerStatements program labels body = .ok instrs →
      ∀ name, Instr.label name ∉ instrs := by
  induction body with
  | nil =>
      intro instrs lowered name member
      cases lowered
      simp at member
  | cons statement rest ih =>
      intro instrs lowered name member
      rcases lowerStatements_cons lowered with
        ⟨_, _, later, _, _, laterEq, rfl⟩ | ⟨_, _, _, later, _, _, laterEq, rfl⟩ | ⟨_, rfl⟩
      · simp only [List.mem_cons, reduceCtorEq, false_or] at member
        exact ih laterEq name member
      · simp only [List.mem_cons, reduceCtorEq, false_or] at member
        exact ih laterEq name member
      · simp at member

theorem lowerFunction_eq {name : String} {id : FunctionId} {block : List Instr}
    (lowered : lowerFunction program labels name id = .ok block) :
    ∃ f instrs, program.functions[id]? = some f ∧ lowerStatements program labels f.body = .ok instrs ∧
      block = .label (functionLabel name) :: instrs := by
  unfold lowerFunction at lowered
  cases found : program.function id with
  | error fault => simp [found, Except.mapError, bind, Except.bind] at lowered
  | ok f =>
      simp only [found, Except.mapError, bind, Except.bind] at lowered
      cases body : lowerStatements program labels f.body with
      | error abort => simp [body] at lowered
      | ok instrs =>
          simp only [body, pure, Except.pure, Except.ok.injEq] at lowered
          exact ⟨f, instrs, fetch_eq_ok_iff.mp found, body, lowered.symm⟩

/-- Each entry is lowered to the block in its place. -/
theorem lowered_of_mapM {entries : Labels} {blocks : List (List Instr)}
    (lowered : entries.mapM (fun entry => lowerFunction program labels entry.1 entry.2) = .ok blocks) :
    List.Forall₂ (fun entry block => lowerFunction program labels entry.1 entry.2 = .ok block)
      entries blocks := by
  induction entries generalizing blocks with
  | nil =>
      cases lowered
      exact .nil
  | cons entry entries ih =>
      rw [List.mapM_cons] at lowered
      cases first : lowerFunction program labels entry.1 entry.2 with
      | error abort => simp [first, bind, Except.bind] at lowered
      | ok block =>
          cases later : entries.mapM (fun entry => lowerFunction program labels entry.1 entry.2) with
          | error abort => simp [first, later, bind, Except.bind] at lowered
          | ok rest =>
              simp only [first, later, bind, Except.bind, pure, Except.pure, Except.ok.injEq] at lowered
              subst lowered
              exact .cons first (ih later)

/-- A block has no label but the one of its own name. -/
theorem label_notMem_block {name other : String} {id : FunctionId} {block : List Instr}
    (lowered : lowerFunction program labels name id = .ok block) (different : name ≠ other) :
    Instr.label (functionLabel other) ∉ block := by
  obtain ⟨f, instrs, _, body, rfl⟩ := lowerFunction_eq lowered
  intro inBlock
  rcases List.mem_cons.mp inBlock with same | inInstrs
  · exact different (functionLabel_injective (Instr.label.inj same)).symm
  · exact lowerStatements_no_label body _ inInstrs

/-- Among the blocks of entries with distinct names, each stands behind its own label. -/
theorem blocks_at {entries : Labels} {blocks : List (List Instr)}
    (distinct : (entries.map Prod.fst).Nodup)
    (lowered : entries.mapM (fun entry => lowerFunction program labels entry.1 entry.2) = .ok blocks)
    {name : String} {id : FunctionId} (member : (name, id) ∈ entries) :
    ∃ f instrs pc, program.functions[id]? = some f ∧
      lowerStatements program labels f.body = .ok instrs ∧
      address? blocks.flatten (functionLabel name) = some pc ∧
      CodeAt blocks.flatten (pc + 1) instrs := by
  replace lowered := lowered_of_mapM lowered
  induction lowered with
  | nil => cases member
  | @cons entry block entries rest first _ ih =>
      rw [List.map_cons, List.nodup_cons] at distinct
      rw [List.flatten_cons]
      rcases List.mem_cons.mp member with isFirst | inRest
      · subst isFirst
        obtain ⟨f, instrs, found, body, rfl⟩ := lowerFunction_eq first
        refine ⟨f, instrs, 0, found, body, ?_, rest.flatten, ?_⟩
        · simp [address?, List.idxOf?_cons]
        · simp
      · obtain ⟨f, instrs, pc, found, body, pcEq, codeAt⟩ := ih distinct.2 inRest
        have notInBlock := label_notMem_block first fun same =>
          distinct.1 (same ▸ List.mem_map_of_mem (f := Prod.fst) inRest)
        refine ⟨f, instrs, pc + block.length, found, body, ?_, ?_⟩
        · rw [address?_behind notInBlock, pcEq]
          rfl
        · rw [Nat.add_right_comm]
          exact codeAt.behind block

/-- The code of a program has a block for every labelled function, and a label for `main`. -/
theorem generate_eq {code : List Instr} (lowered : generate program = .ok code) :
    ∃ globals blocks, program.tables[program.globals]? = some globals ∧
      (Labels.ofGlobals globals).contains entryName = true ∧
      (Labels.ofGlobals globals).mapM
        (fun entry => lowerFunction program (Labels.ofGlobals globals) entry.1 entry.2) = .ok blocks ∧
      code = blocks.flatten := by
  unfold generate at lowered
  cases found : program.globalVars with
  | error fault => simp [found, Except.mapError, bind, Except.bind] at lowered
  | ok globals =>
      simp only [found, Except.mapError, bind, Except.bind] at lowered
      split at lowered
      · next hasEntry =>
        split at lowered
        · cases lowered
        · next blocks lowerEq =>
          cases lowered
          exact ⟨globals, blocks, fetch_eq_ok_iff.mp found, hasEntry, lowerEq, rfl⟩
      · cases lowered

end Lowered

end Assembly

end Rill

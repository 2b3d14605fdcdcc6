import Mathlib
import Rill.Proofs.Assembly.Blocks
import Rill.Proofs.Assembly.Preservation
import Rill.Proofs.Basic
import Rill.Proofs.Run.Effects

/-!
# One entry point for runs and for code

A run looks for `main` from the last global backwards and takes the first one that holds a function.
Lowering goes through the globals from the first to the last, and a later function takes the place of an
earlier one of its name. Both ways pass over a `main` that holds no function:

    globals    main ↦ f0    main ↦ 7    main ↦ f2    main (empty)
    run                                 found        passed over
    labels     f0           f0          f2           f2

1. Both find no entry point in the same programs (`run_noEntryPoint_iff`, `generate_noEntryPoint_iff`).
2. The code has one block under the label of `main`, and this is the lowering of the function that the run
   enters (`entry_points_agree`).
-/

namespace Rill

/-! ## What a run does with its entry point -/

namespace Program

/-- The outcome of a run that has chosen the function: it is called, or refused because it takes
arguments. In a program without the table of its arguments the run stops before both. -/
inductive Enters (program : Program) (fuel : Nat) (output : String) (id : FunctionId) (f : Function) :
    RunOutcome → Prop
  | called : program.table f.args = .ok #[] →
      Enters program fuel output id f (program.invoke fuel output id)
  | refused {args : VariableTable} : program.table f.args = .ok args → args.size ≠ 0 →
      Enters program fuel output id f ⟨.error (.reported (.entryArity args.size)), program, output⟩
  | stopped {fault : Fault} : program.table f.args = .error fault →
      Enters program fuel output id f ⟨.error (.broken fault), program, output⟩

section Entry

variable {program : Program} {globals : VariableTable} {id : FunctionId} {f : Function} {fuel : Nat}
  {output : String}

theorem entry_of_entryPoint? (globalsAt : program.globalVars = .ok globals)
    (chosen : entryPoint? globals = some id) :
    program.entry = (do
      let f ← (program.function id).mapError .broken
      let args ← (program.table f.args).mapError .broken
      if args.size = 0 then return id else throw (.reported (.entryArity args.size))) := by
  simp [entry, globalsAt, chosen, Except.mapError, bind, Except.bind]

/-- A run enters the function that its entry point holds. -/
theorem run_enters (globalsAt : program.globalVars = .ok globals)
    (chosen : entryPoint? globals = some id) (found : program.function id = .ok f) :
    program.Enters fuel output id f (program.run fuel output) := by
  have entry := entry_of_entryPoint? globalsAt chosen
  rw [found] at entry
  cases table : program.table f.args with
  | error fault =>
      simp only [table, Except.mapError, bind, Except.bind] at entry
      rw [run_of_refused entry]
      exact .stopped table
  | ok args =>
      simp only [table, Except.mapError, bind, Except.bind] at entry
      by_cases none : args.size = 0
      · have entered : program.entry = .ok id := entry.trans (if_pos none)
        obtain rfl := Array.eq_empty_of_size_eq_zero none
        rw [run_of_entry entered]
        exact .called table
      · have refused : program.entry = .error (.reported (.entryArity args.size)) := entry.trans (if_neg none)
        rw [run_of_refused refused]
        exact .refused table none

theorem entry_noEntryPoint_iff :
    program.entry = .error (.reported .noEntryPoint) ↔
      ∃ globals, program.globalVars = .ok globals ∧ entryPoint? globals = none := by
  cases globalsAt : program.globalVars with
  | error fault => simp [entry, globalsAt, Except.mapError, bind, Except.bind]
  | ok globals =>
      simp only [Except.ok.injEq, exists_eq_left']
      cases chosen : entryPoint? globals with
      | none =>
          simp [entry, globalsAt, chosen, Except.mapError, bind, Except.bind, throw, throwThe,
            MonadExceptOf.throw]
      | some id =>
          -- Whatever else stops the run, it has found an entry point.
          refine iff_of_false ?_ (by simp)
          rw [entry_of_entryPoint? globalsAt chosen]
          refine bind_ne_error (mapError_ne_error (by simp) _) fun f => ?_
          refine bind_ne_error (mapError_ne_error (by simp) _) fun args => ?_
          split <;> simp [pure, Except.pure, throw, throwThe, MonadExceptOf.throw]

/-- A run finds no entry point exactly if no global that is named `main` holds a function. -/
theorem run_noEntryPoint_iff :
    (program.run fuel output).result = .error (.reported .noEntryPoint) ↔
      ∃ globals, program.globalVars = .ok globals ∧ entryPoint? globals = none := by
  rw [← entry_noEntryPoint_iff]
  constructor
  · exact fun reported => (run_reported reported).1
  · intro missing
    rw [run_of_refused missing]

end Entry

end Program

/-- Whether the instruction is a label. -/
def Instr.isLabel : Instr → Bool
  | .label _ => true
  | _ => false

namespace Assembly

/-! ## Programs without an entry point -/

section Lowered

variable {program : Program} {labels : Labels}

theorem callTarget_ne_noEntryPoint (callee : Term) :
    callTarget program labels callee ≠ .error (.reported .noEntryPoint) := by
  unfold callTarget
  split
  · split
    · refine bind_ne_error (mapError_ne_error (by simp) _) fun var => ?_
      split <;> simp [pure, Except.pure, throw, throwThe, MonadExceptOf.throw]
    · simp [throw, throwThe, MonadExceptOf.throw]
  · simp [throw, throwThe, MonadExceptOf.throw]

theorem lowerStatements_ne_noEntryPoint (body : List Term) :
    lowerStatements program labels body ≠ .error (.reported .noEntryPoint) := by
  induction body with
  | nil => simp [lowerStatements, pure, Except.pure]
  | cons statement rest ih =>
      have behind (instrs : List Instr → List Instr) :
          (do return instrs (← lowerStatements program labels rest)) ≠
            (.error (.reported .noEntryPoint) : Except (Abort AsmError) (List Instr)) :=
        bind_ne_error ih fun later => by simp [pure, Except.pure]
      rw [lowerStatements]
      split
      · split
        · exact behind _
        · simp [throw, throwThe, MonadExceptOf.throw]
      · exact bind_ne_error (callTarget_ne_noEntryPoint _) fun target => behind _
      all_goals simp [pure, Except.pure, throw, throwThe, MonadExceptOf.throw]

theorem lowerFunction_ne_noEntryPoint (name : String) (id : FunctionId) :
    lowerFunction program labels name id ≠ .error (.reported .noEntryPoint) := by
  refine bind_ne_error (mapError_ne_error (by simp) _) fun f => ?_
  exact bind_ne_error (lowerStatements_ne_noEntryPoint f.body) fun instrs => by simp [pure, Except.pure]

/-- `main` is labelled exactly if a run finds an entry point. -/
theorem contains_entryName_iff {globals : VariableTable} :
    (Labels.ofGlobals globals).contains entryName = true ↔ Program.entryPoint? globals ≠ none := by
  rw [Labels.contains_iff, Option.ne_none_iff_exists']
  exact exists_congr fun id => entryPoint_iff.symm

/-- Lowering finds no entry point exactly if no global that is named `main` holds a function. -/
theorem generate_noEntryPoint_iff :
    generate program = .error (.reported .noEntryPoint) ↔
      ∃ globals, program.globalVars = .ok globals ∧ Program.entryPoint? globals = none := by
  cases globalsAt : program.globalVars with
  | error fault => simp [generate, globalsAt, Except.mapError, bind, Except.bind]
  | ok globals =>
      simp only [Except.ok.injEq, exists_eq_left']
      have unfolded : generate program =
          if (Labels.ofGlobals globals).contains entryName then
            return (← (Labels.ofGlobals globals).mapM fun entry =>
              lowerFunction program (Labels.ofGlobals globals) entry.1 entry.2).flatten
          else throw (.reported .noEntryPoint) := by
        rw [generate, globalsAt]
        rfl
      rw [unfolded]
      by_cases labelled : (Labels.ofGlobals globals).contains entryName = true
      · rw [if_pos labelled]
        refine iff_of_false ?_ (contains_entryName_iff.mp labelled)
        refine bind_ne_error (mapM_ne_error fun _ => lowerFunction_ne_noEntryPoint _ _) fun blocks => ?_
        simp [pure, Except.pure]
      · rw [if_neg labelled]
        exact iff_of_true rfl (not_not.mp (mt contains_entryName_iff.mpr labelled))

end Lowered

/-! ## The block of the entry point -/

/-- The instructions under a label, up to the next label. -/
def blockUnder? (code : List Instr) (name : String) : Option (List Instr) :=
  match code.dropWhile (· != .label name) with
  | [] => none
  | _ :: rest => some (rest.takeWhile (!·.isLabel))

section Blocks

variable {program : Program} {labels : Labels}

theorem blockUnder?_behind {block code : List Instr} {name : String} (notIn : .label name ∉ block) :
    blockUnder? (block ++ code) name = blockUnder? code name := by
  have passed : block.dropWhile (· != .label name) = [] := by
    rw [List.dropWhile_eq_nil_iff]
    intro instr member
    simpa using fun same : instr = .label name => notIn (same ▸ member)
  rw [blockUnder?, List.dropWhile_append, passed]
  rfl

theorem blockUnder?_here {instrs code : List Instr} {name : String}
    (noLabel : ∀ instr ∈ instrs, instr.isLabel = false)
    (next : ∀ instr ∈ code.head?, instr.isLabel = true) :
    blockUnder? (.label name :: instrs ++ code) name = some instrs := by
  have stops : code.takeWhile (!·.isLabel) = [] := by
    cases code with
    | nil => rfl
    | cons instr code => simp [next instr rfl]
  rw [blockUnder?, List.cons_append, List.dropWhile_cons_of_neg (by simp)]
  simp only [Option.some.injEq]
  rw [List.takeWhile_append_of_pos (by simpa using noLabel), stops, List.append_nil]

/-- A row of blocks begins with a label, if with anything. -/
theorem head_isLabel {entries : Labels} {blocks : List (List Instr)}
    (lowered : List.Forall₂ (fun entry block => lowerFunction program labels entry.1 entry.2 = .ok block)
      entries blocks) : ∀ instr ∈ blocks.flatten.head?, instr.isLabel = true := by
  cases lowered with
  | nil => simp
  | cons first _ =>
      obtain ⟨_, _, _, _, rfl⟩ := lowerFunction_eq first
      simp [Instr.isLabel]

/-- Among the blocks of entries with distinct names, the one under a name is the lowering of its
function. -/
theorem blockUnder?_of_lowered {entries : Labels} {blocks : List (List Instr)}
    (distinct : (entries.map Prod.fst).Nodup)
    (lowered : List.Forall₂ (fun entry block => lowerFunction program labels entry.1 entry.2 = .ok block)
      entries blocks) {name : String} {id : FunctionId} (member : (name, id) ∈ entries) :
    ∃ f instrs, program.function id = .ok f ∧ lowerStatements program labels f.body = .ok instrs ∧
      blockUnder? blocks.flatten (functionLabel name) = some instrs := by
  induction lowered with
  | nil => cases member
  | @cons entry block entries rest first later ih =>
      rw [List.map_cons, List.nodup_cons] at distinct
      rw [List.flatten_cons]
      rcases List.mem_cons.mp member with isFirst | inRest
      · subst isFirst
        obtain ⟨f, instrs, found, body, rfl⟩ := lowerFunction_eq first
        have noLabel : ∀ instr ∈ instrs, instr.isLabel = false := by
          intro instr inInstrs
          cases instr with
          | label other => exact absurd inInstrs (lowerStatements_no_label body other)
          | _ => rfl
        exact ⟨f, instrs, fetch_eq_ok_iff.mpr found, body, blockUnder?_here noLabel (head_isLabel later)⟩
      · rw [blockUnder?_behind (label_notMem_block first fun same =>
          distinct.1 (same ▸ List.mem_map_of_mem (f := Prod.fst) inRest))]
        exact ih distinct.2 inRest

end Blocks

/-- A run and the code of a program agree on the entry point. The run finds none exactly if lowering
finds none; and when there is code, it has one block under the label of `main`, the lowering of the
function that the run enters. -/
theorem entry_points_agree (program : Program) (fuel : Nat) (output : String) :
    ((program.run fuel output).result = .error (.reported .noEntryPoint) ↔
      generate program = .error (.reported .noEntryPoint)) ∧
    ∀ code, generate program = .ok code → (labelsOf code).count (functionLabel entryName) = 1 ∧
      ∃ globals id f instrs, program.globalVars = .ok globals ∧ Program.entryPoint? globals = some id ∧
        program.function id = .ok f ∧ program.Enters fuel output id f (program.run fuel output) ∧
        lowerStatements program (Labels.ofGlobals globals) f.body = .ok instrs ∧
        blockUnder? code (functionLabel entryName) = some instrs := by
  refine ⟨Program.run_noEntryPoint_iff.trans generate_noEntryPoint_iff.symm, fun code lowered => ?_⟩
  obtain ⟨globals, blocks, globalsAt, hasEntry, blocksEq, rfl⟩ := generate_eq lowered
  replace globalsAt : program.globalVars = .ok globals := fetch_eq_ok_iff.mpr globalsAt
  have distinct := Labels.nodup_ofGlobals globals
  obtain ⟨id, labelled⟩ := Labels.contains_iff.mp hasEntry
  obtain ⟨f, instrs, found, body, under⟩ :=
    blockUnder?_of_lowered distinct (lowered_of_mapM blocksEq) labelled
  have chosen := entryPoint_iff.mpr labelled
  refine ⟨?_, globals, id, f, instrs, globalsAt, chosen, found, Program.run_enters globalsAt chosen found,
    body, under⟩
  rw [labelsOf_blocks (blocks_of_mapM blocksEq)]
  refine List.count_eq_one_of_mem (distinct.map fun _ _ => functionLabel_injective) ?_
  exact List.mem_map_of_mem (List.mem_map_of_mem (f := Prod.fst) labelled)

/-- The globals `main` are a function that prints 1, a number, a function that prints 2, and an empty
slot. -/
def manyMains : Program :=
  let place : Span := ⟨0, 0⟩
  let print (value : UInt64) : Function :=
    ⟨place, 1, .voidAt place, 1, [.untyped (.printU64 (.intAt value place)) place]⟩
  let main (value? : Option (Term.Shape Term)) : Variable :=
    ⟨entryName, place, none, value?.map fun shape => .untyped shape place⟩
  { tables := #[
      #[main (some (.function 0)), main (some (.int 7)), main (some (.function 1)), main none], #[]]
    functions := #[print 1, print 2]
    globals := 0 }

theorem manyMains_entry_points_agree :
    generate manyMains = .ok [.label "fn_main", .moveRdi 2, .call "print_u64", .ret] ∧
    ∃ f, manyMains.function 1 = .ok f ∧ manyMains.Enters 3 "" 1 f (manyMains.run 3 "") ∧
      (manyMains.run 3 "").output = "2" := by
  have lowered : generate manyMains = .ok [.label "fn_main", .moveRdi 2, .call "print_u64", .ret] := by rfl
  obtain ⟨_, globals, id, f, _, globalsAt, chosen, found, enters, _⟩ :=
    (entry_points_agree manyMains 3 "").2 _ lowered
  have second : Program.entryPoint? globals = some 1 := by
    cases globalsAt
    decide +kernel
  cases chosen.symm.trans second
  exact ⟨lowered, f, found, enters, by decide +kernel⟩

end Assembly

end Rill

import Mathlib
import Rill.Assembly.Image
import Rill.Proofs.Assembly.Machine

/-!
# The shape of lowered code

Labels are kept in the order in which their names first hold a function; a later function of the same
name changes what the label stands for, but not its place (`names_ofGlobals`). Lowering goes through
this list, and gives all blocks or none. So the code of a program is a row of blocks, one for each name:

    block = label (print | call)* ret

1. Lowered statements are the body of a block: a bare return ends it, and everything that is neither
   printing a literal nor calling a label is refused (`body_of_lowerStatements`).
2. Nothing in a body is a label, so the labels of the code are the names, once each (`labelsOf_blocks`).
3. Labels of functions have a prefix that no symbol of the image has (`functionLabel_not_symbol`).
4. The code of every program is well-formed (`generate_wellFormed`).
-/

namespace Rill

namespace Assembly

/-! ## Well-formed code -/

/-- The names of the globals that hold functions, in the order in which they first hold one. -/
def blockNames (globals : VariableTable) : List String :=
  (globals.toList.filterMap fun var => var.function?.map fun _ => var.name).eraseDups

/-- What stands between the label and the return of a block: literals are printed, and functions with the
given names are called. -/
inductive BlockBody (names : List String) : List Instr → Prop
  | nil : BlockBody names []
  | print {value : UInt64} {rest : List Instr} :
      BlockBody names rest → BlockBody names (.moveRdi value :: .call printRoutine :: rest)
  | call {name : String} {rest : List Instr} :
      name ∈ names → BlockBody names rest → BlockBody names (.call (functionLabel name) :: rest)

/-- The block of a name, in code with blocks for all of `names`. -/
def IsBlock (names : List String) (name : String) (block : List Instr) : Prop :=
  ∃ body, BlockBody names body ∧ block = .label (functionLabel name) :: (body ++ [.ret])

/-- The labels of the code, in order. -/
def labelsOf (code : List Instr) : List String :=
  code.filterMap fun
    | .label name => some name
    | _ => none

/-- The symbol that a line of the image defines: it stands before a colon that ends the line, or before
the word `equ`. -/
def definedSymbol? (line : String) : Option String :=
  if line.toList.getLast? = some ':' then some (String.ofList line.toList.dropLast)
  else
    match line.toList.splitOn ' ' with
    | name :: ['e', 'q', 'u'] :: _ => some (String.ofList name)
    | _ => none

/-- The symbols that the image around the instructions defines. -/
def imageSymbols : List String :=
  (preludeLines ++ epilogueLines).filterMap definedSymbol?

/-- The code has one block for each of the names, in their order, and all its calls lead somewhere. -/
structure WellFormed (names : List String) (code : List Instr) : Prop where
  blocks : ∃ blocks, code = blocks.flatten ∧ List.Forall₂ (IsBlock names) names blocks
  distinct : (labelsOf code).Nodup
  clear : ∀ label ∈ labelsOf code, label ∉ imageSymbols
  closed : ∀ target, .call target ∈ code → target = printRoutine ∨ target ∈ labelsOf code
  entry : functionLabel entryName ∈ labelsOf code

/-! ## The order of labels -/

theorem Labels.names_insert (labels : Labels) (name : String) (id : FunctionId) :
    (labels.insert name id).map Prod.fst =
      if name ∈ labels.map Prod.fst then labels.map Prod.fst else labels.map Prod.fst ++ [name] := by
  induction labels with
  | nil => simp [Labels.insert]
  | cons entry rest ih =>
      rw [Labels.insert]
      by_cases same : entry.1 = name
      · simp [same]
      · rw [if_neg same, List.map_cons, ih]
        by_cases later : name ∈ rest.map Prod.fst
        · simp [later]
        · simp [later, Ne.symm same]

/-- A name is labelled where it first holds a function, however often it is declared again. -/
theorem Labels.names_ofGlobals (globals : VariableTable) :
    (Labels.ofGlobals globals).map Prod.fst = blockNames globals := by
  unfold Labels.ofGlobals blockNames
  induction globals.toList using List.reverseRecOn with
  | nil => rfl
  | append_singleton vars var ih =>
      rw [List.foldl_append, List.foldl_cons, List.foldl_nil, List.filterMap_append,
        List.eraseDups_append, ← ih]
      generalize vars.foldl _ [] = labels at ih ⊢
      generalize vars.filterMap _ = names at ih ⊢
      have known : var.name ∈ labels.map Prod.fst ↔ var.name ∈ names := by rw [ih, List.mem_eraseDups]
      cases function : var.function? with
      | none => simp [function]
      | some id =>
          rw [Labels.names_insert]
          by_cases again : var.name ∈ names
          · rw [if_pos (known.mpr again)]
            simp [List.removeAll, function, again]
          · rw [if_neg fun member => again (known.mp member)]
            simp [List.removeAll, function, again, List.eraseDups_cons]

/-! ## Blocks -/

section Lowered

variable {program : Program} {labels : Labels} {names : List String}

/-- Lowered statements are the body of a block, with the return that ends it. -/
theorem body_of_lowerStatements {statements : List Term} :
    ∀ {instrs : List Instr}, lowerStatements program labels statements = .ok instrs →
      ∃ body, BlockBody (labels.map Prod.fst) body ∧ instrs = body ++ [.ret] := by
  induction statements with
  | nil =>
      intro instrs lowered
      cases lowered
      exact ⟨[], .nil, rfl⟩
  | cons statement rest ih =>
      intro instrs lowered
      rcases lowerStatements_cons lowered with
        ⟨_, value, later, _, _, laterEq, rfl⟩ | ⟨callee, _, target, later, _, called, laterEq, rfl⟩ |
        ⟨_, rfl⟩
      · obtain ⟨body, isBody, rfl⟩ := ih laterEq
        exact ⟨_, .print isBody, rfl⟩
      · obtain ⟨body, isBody, rfl⟩ := ih laterEq
        obtain ⟨_, var, _, _, _, labelled, rfl⟩ := callTarget_eq_ok called
        obtain ⟨id, member⟩ := Labels.contains_iff.mp labelled
        exact ⟨_, .call (List.mem_map_of_mem (f := Prod.fst) member) isBody, rfl⟩
      · exact ⟨[], .nil, rfl⟩

theorem isBlock_of_lowerFunction {name : String} {id : FunctionId} {block : List Instr}
    (lowered : lowerFunction program labels name id = .ok block) :
    IsBlock (labels.map Prod.fst) name block := by
  obtain ⟨f, instrs, _, bodyEq, rfl⟩ := lowerFunction_eq lowered
  obtain ⟨body, isBody, rfl⟩ := body_of_lowerStatements bodyEq
  exact ⟨body, isBody, rfl⟩

/-- Every label has its block, in the order of the labels. -/
theorem blocks_of_mapM {entries : Labels} {blocks : List (List Instr)}
    (lowered : entries.mapM (fun entry => lowerFunction program labels entry.1 entry.2) = .ok blocks) :
    List.Forall₂ (IsBlock (labels.map Prod.fst)) (entries.map Prod.fst) blocks :=
  List.forall₂_map_left_iff.mpr <|
    (lowered_of_mapM lowered).imp fun _ _ first => isBlock_of_lowerFunction first

/-! ## Labels and calls of a block -/

theorem BlockBody.no_label {body : List Instr} (isBody : BlockBody names body) : labelsOf body = [] := by
  induction isBody with
  | nil => rfl
  | print _ ih => exact ih
  | call _ _ ih => exact ih

theorem BlockBody.calls {body : List Instr} {target : String} (isBody : BlockBody names body)
    (member : .call target ∈ body) : target = printRoutine ∨ ∃ name ∈ names, target = functionLabel name := by
  induction isBody with
  | nil => cases member
  | print _ ih =>
      simp only [List.mem_cons, reduceCtorEq, Instr.call.injEq, false_or] at member
      exact member.elim Or.inl ih
  | call isName _ ih =>
      rcases List.mem_cons.mp member with here | later
      · exact Or.inr ⟨_, isName, Instr.call.inj here⟩
      · exact ih later

theorem labelsOf_append (first second : List Instr) :
    labelsOf (first ++ second) = labelsOf first ++ labelsOf second :=
  List.filterMap_append

theorem IsBlock.only_label {name : String} {block : List Instr} (isBlock : IsBlock names name block) :
    labelsOf block = [functionLabel name] := by
  obtain ⟨body, isBody, rfl⟩ := isBlock
  show functionLabel name :: labelsOf (body ++ [.ret]) = _
  rw [labelsOf_append, isBody.no_label]
  rfl

/-- The labels of a row of blocks are the labels of their names. -/
theorem labelsOf_blocks {given : List String} {blocks : List (List Instr)}
    (areBlocks : List.Forall₂ (IsBlock names) given blocks) :
    labelsOf blocks.flatten = given.map functionLabel := by
  induction areBlocks with
  | nil => rfl
  | cons isBlock _ ih =>
      rw [List.flatten_cons, labelsOf_append, isBlock.only_label, ih]
      rfl

theorem calls_of_blocks {given : List String} {blocks : List (List Instr)} {target : String}
    (areBlocks : List.Forall₂ (IsBlock names) given blocks) (member : .call target ∈ blocks.flatten) :
    target = printRoutine ∨ ∃ name ∈ names, target = functionLabel name := by
  induction areBlocks with
  | nil => cases member
  | cons isBlock _ ih =>
      rw [List.flatten_cons, List.mem_append] at member
      rcases member with here | later
      · obtain ⟨body, isBody, rfl⟩ := isBlock
        have inBody : .call target ∈ body := by simpa using here
        exact isBody.calls inBody
      · exact ih later

end Lowered

/-! ## Symbols of the image -/

theorem imageSymbols_eq : imageSymbols =
    ["ehdr", "ehdrsize", "phdr", "phdrsize", "_start", "print_u64", ".digit", "filesize"] := by
  decide +kernel

theorem functionLabel_not_symbol (name : String) : functionLabel name ∉ imageSymbols := by
  have prefixed : "fn_".toList <+: (functionLabel name).toList := by
    rw [functionLabel, String.toList_append]
    exact List.prefix_append _ _
  have others : ∀ symbol ∈ imageSymbols, ¬ "fn_".toList <+: symbol.toList := by
    rw [imageSymbols_eq]
    decide +kernel
  exact fun member => others _ member prefixed

/-! ## The result -/

/-- The code of every program is well-formed: it has one block for each name of a function-valued
global, no label twice and no label of the image, and each of its calls goes to a block or prints. -/
theorem generate_wellFormed {program : Program} {code : List Instr} (lowered : generate program = .ok code) :
    ∃ globals, program.globalVars = .ok globals ∧ WellFormed (blockNames globals) code := by
  obtain ⟨globals, blocks, globalsAt, hasEntry, blocksEq, rfl⟩ := generate_eq lowered
  have areBlocks := blocks_of_mapM blocksEq
  have distinct := Labels.nodup_ofGlobals globals
  obtain ⟨id, isEntry⟩ := Labels.contains_iff.mp hasEntry
  have entryNamed : entryName ∈ (Labels.ofGlobals globals).map Prod.fst :=
    List.mem_map_of_mem (f := Prod.fst) isEntry
  rw [Labels.names_ofGlobals] at areBlocks distinct entryNamed
  have labels := labelsOf_blocks areBlocks
  refine ⟨globals, fetch_eq_ok_iff.mpr globalsAt, ⟨blocks, rfl, areBlocks⟩, ?_, ?_, ?_, ?_⟩
  · rw [labels]
    exact distinct.map fun _ _ => functionLabel_injective
  · rw [labels]
    intro label member
    obtain ⟨name, _, rfl⟩ := List.mem_map.mp member
    exact functionLabel_not_symbol name
  · rw [labels]
    intro target member
    refine (calls_of_blocks areBlocks member).imp_right ?_
    rintro ⟨name, isName, rfl⟩
    exact List.mem_map_of_mem isName
  · rw [labels]
    exact List.mem_map_of_mem entryNamed

/-- Two functions and a number have the name `f`, the second function behind `main`, which calls `f` and
returns before it prints. -/
def calledAgain : Program :=
  let place : Span := ⟨0, 0⟩
  let print (value : UInt64) : Term := .untyped (.printU64 (.intAt value place)) place
  let named (name : String) (shape : Term.Shape Term) : Variable :=
    ⟨name, place, none, some (.untyped shape place)⟩
  { tables := #[
      #[named "f" (.int 0), named "f" (.function 0), named "main" (.function 1), named "f" (.function 2)],
      #[]]
    functions := #[
      ⟨place, 1, .voidAt place, 1, [print 1]⟩,
      ⟨place, 1, .voidAt place, 1,
        [.untyped (.call (.untyped (.variable ⟨0, 3⟩) place) []) place,
          .untyped (.returnWith none) place, print 9]⟩,
      ⟨place, 1, .voidAt place, 1, [print 2]⟩]
    globals := 0 }

theorem calledAgain_wellFormed :
    generate calledAgain = .ok [.label "fn_f", .moveRdi 2, .call "print_u64", .ret,
      .label "fn_main", .call "fn_f", .ret] ∧
    ∃ globals, calledAgain.globalVars = .ok globals ∧ blockNames globals = ["f", "main"] ∧
      WellFormed (blockNames globals) [.label "fn_f", .moveRdi 2, .call "print_u64", .ret,
        .label "fn_main", .call "fn_f", .ret] := by
  have lowered : generate calledAgain = .ok [.label "fn_f", .moveRdi 2, .call "print_u64", .ret,
      .label "fn_main", .call "fn_f", .ret] := by rfl
  obtain ⟨globals, globalsAt, wellFormed⟩ := generate_wellFormed lowered
  refine ⟨lowered, globals, globalsAt, ?_, wellFormed⟩
  cases globalsAt
  decide +kernel

end Assembly

end Rill

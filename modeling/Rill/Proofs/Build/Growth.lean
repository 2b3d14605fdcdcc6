import Mathlib
import Rill.Proofs.Build.Names

/-!
# How a scene grows

The builder changes a program in few ways: it adds the two tables of a function, declares a bound
local variable, adds a function, remembers a call, and declares and fills global variables. Each
makes a scene that extends the one before and is sound again.
-/

namespace Rill

/-! ## Tables and their slots -/

theorem slotIn?_push (tables : Array VariableTable) (table : VariableTable) (ref : VarRef) :
    slotIn? (tables.push table) ref =
      if ref.table = tables.size then table[ref.index]? else slotIn? tables ref := by
  unfold slotIn?
  rw [Array.getElem?_push]
  split <;> rfl

theorem slotIn?_modify (tables : Array VariableTable) (t : TableId)
    (change : VariableTable → VariableTable) (ref : VarRef) :
    slotIn? (tables.modify t change) ref =
      if ref.table = t then (tables[t]?).bind fun table => (change table)[ref.index]?
      else slotIn? tables ref := by
  unfold slotIn?
  rw [Array.getElem?_modify]
  by_cases same : ref.table = t
  · subst same
    cases tables[ref.table]? <;> simp
  · simp [same, Ne.symm same]

theorem slotIn?_declare {tables : Array VariableTable} {t : TableId} {table : VariableTable}
    (tableAt : tables[t]? = some table) (var : Variable) (ref : VarRef) :
    slotIn? (tables.modify t (·.push var)) ref =
      if ref = ⟨t, table.size⟩ then some var else slotIn? tables ref := by
  rw [slotIn?_modify]
  obtain ⟨u, index⟩ := ref
  by_cases same : u = t
  · subst same
    by_cases last : index = table.size
    · simp [tableAt, last]
    · simp [tableAt, last, slotIn?, Array.getElem?_push]
  · simp [same]

theorem slotIn?_modifyVar (tables : Array VariableTable) (target : VarRef)
    (change : Variable → Variable) (ref : VarRef) :
    slotIn? (tables.modify target.table (·.modify target.index change)) ref =
      if ref = target then (slotIn? tables ref).map change else slotIn? tables ref := by
  rw [slotIn?_modify]
  obtain ⟨t, i⟩ := target
  obtain ⟨u, j⟩ := ref
  by_cases sameTable : u = t
  · subst sameTable
    cases tableAt : tables[u]? with
    | none => simp [slotIn?, tableAt]
    | some table =>
        by_cases sameIndex : j = i
        · subst sameIndex
          simp [slotIn?, tableAt, Array.getElem?_modify]
        · simp [slotIn?, tableAt, Array.getElem?_modify, sameIndex, Ne.symm sameIndex]
  · simp [sameTable]

/-- Changing a variable right after its declaration declares the changed variable. -/
theorem Program.declare_modifyVar {program : Program} {t : TableId} {table : VariableTable}
    (tableAt : program.tables[t]? = some table) (var : Variable) (change : Variable → Variable) :
    (program.declare t var).modifyVar ⟨t, table.size⟩ change = program.declare t (change var) := by
  unfold Program.declare Program.modifyVar
  congr 1
  apply Array.ext_getElem?
  intro u
  simp only [Array.getElem?_modify]
  by_cases same : t = u
  · subst same
    simp only [if_true, tableAt, Option.map_some, Option.some.injEq]
    apply Array.ext_getElem?
    intro index
    rw [Array.getElem?_modify, Array.getElem?_push, Array.getElem?_push]
    by_cases last : index = table.size
    · simp [last]
    · simp [last, Ne.symm last]
  · simp [same]

theorem Program.modifyVar_modifyVar (program : Program) (ref : VarRef) (f g : Variable → Variable) :
    (program.modifyVar ref f).modifyVar ref g = program.modifyVar ref (g ∘ f) := by
  unfold Program.modifyVar
  congr 1
  apply Array.ext_getElem?
  intro u
  simp only [Array.getElem?_modify]
  by_cases same : ref.table = u
  · simp only [same, if_true, Option.map_map]
    congr 1
    funext table
    apply Array.ext_getElem?
    intro index
    simp only [Function.comp_apply, Array.getElem?_modify]
    by_cases sameIndex : ref.index = index
    · simp only [sameIndex, if_true, Option.map_map]
    · simp only [sameIndex, if_false]
  · simp [same]

theorem Program.modifyVar_congr {program : Program} {ref : VarRef} {var : Variable}
    {f g : Variable → Variable} (found : slotIn? program.tables ref = some var) (equal : f var = g var) :
    program.modifyVar ref f = program.modifyVar ref g := by
  obtain ⟨table, tableAt, varAt⟩ := slotIn?_eq_some_iff.mp found
  unfold Program.modifyVar
  congr 1
  apply Array.ext_getElem?
  intro u
  simp only [Array.getElem?_modify]
  by_cases same : ref.table = u
  · simp only [← same, if_true, tableAt, Option.map_some, Option.some.injEq]
    apply Array.ext_getElem?
    intro index
    simp only [Array.getElem?_modify]
    by_cases sameIndex : ref.index = index
    · simp [← sameIndex, varAt, equal]
    · simp [sameIndex]
  · simp [same]

namespace Scene

variable {s : Scene}

/-! ## Local variables -/

/-- The scene after a variable was declared. -/
def declare (s : Scene) (t : TableId) (var : Variable) : Scene :=
  { s with program := s.program.declare t var }

theorem slot?_declare {t : TableId} {table : VariableTable} (tableAt : s.program.tables[t]? = some table)
    (var : Variable) (ref : VarRef) :
    (s.declare t var).slot? ref = if ref = ⟨t, table.size⟩ then some var else s.slot? ref :=
  slotIn?_declare tableAt var ref

theorem slot?_end {t : TableId} {table : VariableTable} (tableAt : s.program.tables[t]? = some table) :
    s.slot? ⟨t, table.size⟩ = none := by
  simp [slot?, slotIn?, tableAt]

theorem extends_declare {t : TableId} {table : VariableTable} {frame : Frame}
    (tableAt : s.program.tables[t]? = some table) (frameAt : s.frames[t]? = some frame)
    (role : frame.role ≠ .arguments) (var : Variable) : s.Extends (s.declare t var) where
  globals := rfl
  frames _ _ := id
  slots ref old found := by
    rw [slot?_declare tableAt]
    by_cases last : ref = ⟨t, table.size⟩
    · rw [last, slot?_end tableAt] at found
      cases found
    · exact ⟨old, by rw [if_neg last, found], Grows.refl old⟩
  arguments u frame' table' frameAt' role' tableAt' := by
    have different : t ≠ u := by
      intro same
      subst same
      rw [frameAt] at frameAt'
      cases frameAt'
      exact role role'
    change (s.program.tables.modify t _)[u]? = some table'
    rw [Array.getElem?_modify, if_neg different, tableAt']
  functions _ _ := id
  deferred _ := id

theorem Sound.declare {t : TableId} {table : VariableTable} {frame : Frame} {var : Variable}
    (sound : s.Sound) (tableAt : s.program.tables[t]? = some table)
    (frameAt : s.frames[t]? = some frame) (role : frame.role ≠ .arguments)
    (slot : s.SlotOk frame var) : (s.declare t var).Sound := by
  have ext := extends_declare tableAt frameAt role var
  refine sound.extend ext ?_ (fun t frame found => Or.inl found) ?_ (fun id f found => Or.inl found)
    (fun call member => Or.inl member)
  · change s.frames.size = (s.program.tables.modify t _).size
    rw [Array.size_modify, sound.size]
  · intro ref var' frame' found frameAt'
    rw [slot?_declare tableAt] at found
    by_cases last : ref = ⟨t, table.size⟩
    · subst last
      simp only [if_true, Option.some.injEq] at found
      subst found
      have sameFrame : frame = frame' := Option.some.inj (frameAt.symm.trans frameAt')
      subst sameFrame
      exact Or.inr (slot.mono ext)
    · rw [if_neg last] at found
      exact Or.inl ⟨found, frameAt'⟩

/-! ## Functions -/

/-- The scene after a function was added. -/
def addFunction (s : Scene) (f : Function) : Scene :=
  { s with program := s.program.addFunction f }

theorem extends_addFunction (s : Scene) (f : Function) : s.Extends (s.addFunction f) where
  globals := rfl
  frames _ _ := id
  slots _ var found := ⟨var, found, Grows.refl var⟩
  arguments _ _ _ _ _ := id
  functions id g found := by
    change (s.program.functions.push f)[id]? = some g
    have inBounds := (Array.getElem?_eq_some_iff.mp found).1
    rw [Array.getElem?_push, if_neg (Nat.ne_of_lt inBounds), found]
  deferred _ := id

theorem Sound.addFunction {f : Function} {outer : ScopeChain} (sound : s.Sound)
    (function : s.FunctionOk f outer) : (s.addFunction f).Sound := by
  have ext := extends_addFunction s f
  refine sound.extend ext sound.size (fun t frame found => Or.inl found)
    (fun ref var frame found frameAt => Or.inl ⟨found, frameAt⟩) ?_ (fun call member => Or.inl member)
  intro id g found
  change (s.program.functions.push f)[id]? = some g at found
  rw [Array.getElem?_push] at found
  split at found
  · cases found
    exact Or.inr ⟨outer, function.mono ext⟩
  · exact Or.inl found

/-- The scene after the tables of a function were added, the first one with its arguments. -/
def openFunction (s : Scene) (vars : VariableTable) (outer : ScopeChain) : Scene :=
  let args := s.program.tables.size
  { s with
    program := { s.program with tables := (s.program.tables.push vars).push #[] }
    frames := (s.frames.push ⟨.arguments, args :: outer⟩).push
      ⟨.locals, (args + 1) :: args :: outer⟩ }

theorem slot?_openFunction {vars : VariableTable} {outer : ScopeChain} {ref : VarRef} :
    (s.openFunction vars outer).slot? ref =
      if ref.table = s.program.tables.size + 1 then none
      else if ref.table = s.program.tables.size then vars[ref.index]?
      else s.slot? ref := by
  change slotIn? ((s.program.tables.push vars).push #[]) ref = _
  rw [slotIn?_push, slotIn?_push]
  simp [slot?]

theorem frames_openFunction (sound : s.Sound) (vars : VariableTable) (outer : ScopeChain) (t : TableId) :
    (s.openFunction vars outer).frames[t]? =
      if t = s.program.tables.size + 1 then
        some ⟨.locals, (s.program.tables.size + 1) :: s.program.tables.size :: outer⟩
      else if t = s.program.tables.size then some ⟨.arguments, s.program.tables.size :: outer⟩
      else s.frames[t]? := by
  simp only [openFunction, Array.getElem?_push, Array.size_push, sound.size]

theorem extends_openFunction (sound : s.Sound) (vars : VariableTable) (outer : ScopeChain) :
    s.Extends (s.openFunction vars outer) where
  globals := rfl
  frames t frame found := by
    have inBounds : t < s.program.tables.size := sound.size ▸ (Array.getElem?_eq_some_iff.mp found).1
    rw [frames_openFunction sound, if_neg (Nat.ne_of_lt (Nat.lt_succ_of_lt inBounds)),
      if_neg (Nat.ne_of_lt inBounds), found]
  slots ref var found := by
    obtain ⟨table, tableAt, _⟩ := slotIn?_eq_some_iff.mp found
    have inBounds : ref.table < s.program.tables.size := (Array.getElem?_eq_some_iff.mp tableAt).1
    refine ⟨var, ?_, Grows.refl var⟩
    rw [slot?_openFunction, if_neg (Nat.ne_of_lt (Nat.lt_succ_of_lt inBounds)),
      if_neg (Nat.ne_of_lt inBounds), found]
  arguments t _ table _ _ tableAt := by
    have inBounds := (Array.getElem?_eq_some_iff.mp tableAt).1
    change ((s.program.tables.push vars).push #[])[t]? = some table
    rw [Array.getElem?_push, Array.getElem?_push, Array.size_push, if_neg (by omega),
      if_neg (by omega), tableAt]
  functions _ _ := id
  deferred _ := id

theorem Sound.openFunction {vars : VariableTable} {outer : ScopeChain} {t : TableId} {frame : Frame}
    (sound : s.Sound) (frameAt : s.frames[t]? = some frame) (chain : frame.chain = outer)
    (arguments : ∀ var ∈ vars, var.value? = none ∧
      ∃ type, var.type? = some type ∧ TypeIn (s.openFunction vars outer).program.tables type) :
    (s.openFunction vars outer).Sound := by
  have ext := extends_openFunction sound vars outer
  have outerOk : ∀ u ∈ outer, ∃ inner, (s.openFunction vars outer).frames[u]? = some inner ∧
      inner.chain ⊆ outer := by
    subst chain
    exact ((sound.chains t frame frameAt).mono ext).2
  have argsAt : (s.openFunction vars outer).frames[s.program.tables.size]? =
      some ⟨.arguments, s.program.tables.size :: outer⟩ := by
    simp [frames_openFunction sound]
  have argsOk : ∀ u ∈ s.program.tables.size :: outer, ∃ inner,
      (s.openFunction vars outer).frames[u]? = some inner ∧
        inner.chain ⊆ s.program.tables.size :: outer := by
    intro u member
    rcases List.mem_cons.mp member with same | inOuter
    · subst same
      exact ⟨_, argsAt, List.Subset.refl _⟩
    · obtain ⟨inner, found, subset⟩ := outerOk u inOuter
      exact ⟨inner, found, List.subset_cons_of_subset _ subset⟩
  refine sound.extend ext ?_ ?_ ?_ (fun id f found => Or.inl found) (fun call member => Or.inl member)
  · simp [Scene.openFunction, sound.size]
  · intro u frame' found
    have foundNew := found
    rw [frames_openFunction sound] at found
    split at found
    · next isLocals =>
      cases found
      subst isLocals
      refine Or.inr ⟨⟨by simp, fun v member => ?_⟩, by simp⟩
      rcases List.mem_cons.mp member with same | inArgs
      · subst same
        exact ⟨_, foundNew, List.Subset.refl _⟩
      · obtain ⟨inner, innerAt, subset⟩ := argsOk v inArgs
        exact ⟨inner, innerAt, List.subset_cons_of_subset _ subset⟩
    · split at found
      · next isArgs =>
        cases found
        exact Or.inr ⟨⟨by simp [isArgs], argsOk⟩, by simp⟩
      · exact Or.inl found
  · intro ref var frame' found frameAt'
    rw [slot?_openFunction] at found
    rw [frames_openFunction sound] at frameAt'
    split at found
    · cases found
    · next notLocals =>
      rw [if_neg notLocals] at frameAt'
      split at found
      · next isArgs =>
        rw [if_pos isArgs] at frameAt'
        cases frameAt'
        obtain ⟨none, type, typed, inTables⟩ := arguments var (Array.mem_of_getElem? found)
        refine Or.inr ⟨fun type' equal => ?_, fun value equal => ?_, fun _ => ⟨none, type, typed⟩,
          by simp⟩
        · rw [typed] at equal
          cases equal
          exact inTables
        · rw [none] at equal
          cases equal
      · next notArgs =>
        rw [if_neg notArgs] at frameAt'
        exact Or.inl ⟨found, frameAt'⟩

/-! ## Calls to be judged later -/

/-- The scene after a call was remembered. -/
def defer (s : Scene) (call : DeferredCall) : Scene :=
  { s with deferred := s.deferred ++ [call] }

theorem extends_defer (s : Scene) (call : DeferredCall) : s.Extends (s.defer call) where
  globals := rfl
  frames _ _ := id
  slots _ var found := ⟨var, found, Grows.refl var⟩
  arguments _ _ _ _ _ := id
  functions _ _ := id
  deferred _ member := List.mem_append_left _ member

theorem Sound.defer {var : Variable} (sound : s.Sound) (call : DeferredCall)
    (found : s.slot? call.callee = some var) : (s.defer call).Sound := by
  refine sound.extend (extends_defer s call) sound.size (fun t frame frameAt => Or.inl frameAt)
    (fun ref var frame slot frameAt => Or.inl ⟨slot, frameAt⟩) (fun id f function => Or.inl function) ?_
  intro other member
  rcases List.mem_append.mp member with old | new
  · exact Or.inl old
  · cases List.mem_singleton.mp new
    exact Or.inr ⟨var, found⟩

/-! ## Global variables -/

/-- The scene after a variable was changed. -/
def modifyVar (s : Scene) (target : VarRef) (change : Variable → Variable) : Scene :=
  { s with program := s.program.modifyVar target change }

theorem slot?_modifyVar (target : VarRef) (change : Variable → Variable) (ref : VarRef) :
    (s.modifyVar target change).slot? ref =
      if ref = target then (s.slot? ref).map change else s.slot? ref :=
  slotIn?_modifyVar s.program.tables target change ref

theorem extends_modifyVar {target : VarRef} {var : Variable} {frame : Frame}
    {change : Variable → Variable} (found : s.slot? target = some var)
    (frameAt : s.frames[target.table]? = some frame) (role : frame.role ≠ .arguments)
    (grows : Grows var (change var)) : s.Extends (s.modifyVar target change) where
  globals := rfl
  frames _ _ := id
  slots ref old oldAt := by
    rw [slot?_modifyVar]
    by_cases same : ref = target
    · subst same
      rw [found] at oldAt
      cases oldAt
      exact ⟨change var, by simp [found], grows⟩
    · exact ⟨old, by rw [if_neg same, oldAt], Grows.refl old⟩
  arguments u frame' table frameAt' role' tableAt := by
    have different : target.table ≠ u := by
      intro same
      subst same
      rw [frameAt] at frameAt'
      cases frameAt'
      exact role role'
    change (s.program.tables.modify target.table _)[u]? = some table
    rw [Array.getElem?_modify, if_neg different, tableAt]
  functions _ _ := id
  deferred _ := id

theorem Sound.modifyVar {target : VarRef} {var : Variable} {frame : Frame}
    {change : Variable → Variable} (sound : s.Sound) (found : s.slot? target = some var)
    (frameAt : s.frames[target.table]? = some frame) (role : frame.role ≠ .arguments)
    (grows : Grows var (change var)) (slot : s.SlotOk frame (change var)) :
    (s.modifyVar target change).Sound := by
  have ext := extends_modifyVar found frameAt role grows
  refine sound.extend ext ?_ (fun t frame frameAt => Or.inl frameAt) ?_
    (fun id f function => Or.inl function) (fun call member => Or.inl member)
  · change s.frames.size = (s.program.tables.modify target.table _).size
    rw [Array.size_modify, sound.size]
  · intro ref var' frame' varAt frameAt'
    rw [slot?_modifyVar] at varAt
    by_cases same : ref = target
    · subst same
      rw [if_pos rfl, found] at varAt
      cases varAt
      have sameFrame : frame = frame' := Option.some.inj (frameAt.symm.trans frameAt')
      subst sameFrame
      exact Or.inr (slot.mono ext)
    · rw [if_neg same] at varAt
      exact Or.inl ⟨varAt, frameAt'⟩

end Scene

end Rill

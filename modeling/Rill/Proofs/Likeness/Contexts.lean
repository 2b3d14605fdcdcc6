import Mathlib
import Rill.Proofs.Build.Growth
import Rill.Proofs.Likeness.Pairing

/-!
# Programs and contexts that are alike

`Pairing.ProgramLike` says that two programs are the same up to a pairing: names lead to paired
variables in paired tables, and what paired variables and paired functions hold is alike.
`Pairing.ContextLike` adds the scope and the result types of a build.

Each change that the builder makes on both sides gives programs that are alike again, under a pairing
that has grown by what is new (`ProgramLike.declare`, `addTable`, `addFunction`, `modifyVar`).
-/

namespace Rill

/-! ## Looking names up -/

theorem VariableTable.lookup?_push (vars : VariableTable) (var : Variable) (name : String) :
    VariableTable.lookup? (vars.push var) name =
      if var.name = name then some vars.size else vars.lookup? name := by
  simp [VariableTable.lookup?, lastIndex?_append_singleton]

/-- Where all names are different, a name leads to the only variable with it. -/
theorem VariableTable.lookup?_of_nodup {vars : VariableTable} {names : List String}
    (isNames : vars.toList.map Variable.name = names) (distinct : names.Nodup) (name : String)
    (index : Nat) : vars.lookup? name = some index ↔ names[index]? = some name := by
  have same : vars.lookup? name = lastIndex? (· == name) (vars.toList.map Variable.name) :=
    lastIndex?_congr (by simp [Function.comp_def])
  rw [← lastIndex?_of_nodup distinct, ← isNames, same]

/-- Changing a variable without its name changes nothing for look-ups. -/
theorem VariableTable.lookup?_modify (vars : VariableTable) (index : Nat)
    (change : Variable → Variable) (sameName : ∀ var, (change var).name = var.name) (name : String) :
    VariableTable.lookup? (vars.modify index change) name = vars.lookup? name := by
  refine lastIndex?_congr (List.ext_getElem? fun i => ?_)
  simp only [List.getElem?_map, Array.getElem?_toList, Array.getElem?_modify]
  split
  · cases vars[i]? <;> simp [sameName]
  · rfl

namespace Pairing

variable {P P' : Pairing} {program program' : Program}

/-! ## Alike programs -/

/-- Variables that are the same up to the pairing; the value of a late one may be missing. -/
structure SlotLike (P : Pairing) (ref : VarRef) (var var' : Variable) : Prop where
  name : var'.name = P.name var.name
  types : Option.Rel P.TypeLike var.type? var'.type?
  values : P.late ref ∨ Option.Rel P.ValueLike var.value? var'.value?

/-- A name leads to paired variables in two tables, or to none in either. -/
def Finds (P : Pairing) (t t' : TableId) (vars vars' : VariableTable) : Prop :=
  ∀ name, Option.Rel (fun index index' => P.var ⟨t, index⟩ ⟨t', index'⟩)
    (vars.lookup? name) (vars'.lookup? (P.name name))

/-- Programs that are the same up to the pairing. -/
structure ProgramLike (P : Pairing) (program program' : Program) : Prop where
  tables : ∀ t t', P.table t t' → ∃ vars vars', program.tables[t]? = some vars ∧
    program'.tables[t']? = some vars' ∧ P.Finds t t' vars vars'
  vars : ∀ ref ref', P.var ref ref' → ∃ var var', slotIn? program.tables ref = some var ∧
    slotIn? program'.tables ref' = some var' ∧ P.SlotLike ref var var'
  functions : ∀ id id', P.function id id' → ∃ f f', program.functions[id]? = some f ∧
    program'.functions[id']? = some f' ∧ List.Forall₂ P.StatementLike f.body f'.body

/-- Contexts that are the same up to the pairing, but for the calls still to be judged. -/
structure ContextLike (P : Pairing) (context context' : BuildContext) : Prop where
  program : P.ProgramLike context.program context'.program
  scope : List.Forall₂ P.table context.scope context'.scope
  results : List.Forall₂ P.TypeLike context.results context'.results

/-- Contexts in which names lead to paired variables, whatever is known of these. -/
structure ScopeLike (P : Pairing) (context context' : BuildContext) : Prop where
  tables : ∀ t t', P.table t t' → ∃ vars vars', context.program.tables[t]? = some vars ∧
    context'.program.tables[t']? = some vars' ∧ P.Finds t t' vars vars'
  scope : List.Forall₂ P.table context.scope context'.scope

theorem ContextLike.toScope {context context' : BuildContext} (alike : P.ContextLike context context') :
    P.ScopeLike context context' :=
  ⟨alike.program.tables, alike.scope⟩

section Mono

theorem SlotLike.mono {ref : VarRef} {var var' : Variable} (ext : P.Extends P')
    (alike : P.SlotLike ref var var') : P'.SlotLike ref var var' where
  name := by rw [ext.name, alike.name]
  types := typesLike_mono ext.toWithin alike.types
  values := by
    rw [ext.late]
    exact alike.values.imp id fun values => optionRel_mono values fun _ _ => ValueLike.mono ext.toWithin

theorem Finds.mono {t t' : TableId} {vars vars' : VariableTable} (ext : P.Extends P')
    (finds : P.Finds t t' vars vars') : P'.Finds t t' vars vars' := by
  intro name
  rw [ext.name]
  exact optionRel_mono (finds name) fun _ _ => ext.var

theorem statementsLike_mono {body body' : List Term} (ext : P.Extends P')
    (alike : List.Forall₂ P.StatementLike body body') : List.Forall₂ P'.StatementLike body body' :=
  alike.imp fun _ _ => StatementLike.mono ext.toWithin

end Mono

/-! ## Growing pairings -/

/-- The pairing with one more pair of variables. -/
def addVar (P : Pairing) (ref ref' : VarRef)
    (fresh : ∀ other other', P.var other other' → other ≠ ref ∧ other' ≠ ref') : Pairing :=
  { P with
    var := fun other other' => P.var other other' ∨ (other = ref ∧ other' = ref')
    var_unique := by
      refine ⟨?_, ?_⟩
      · rintro a b c (first | ⟨rfl, rfl⟩) (second | ⟨rfl, same⟩)
        · exact P.var_unique.1 first second
        · exact absurd same (fresh _ _ first).2
        · exact absurd rfl (fresh _ _ second).2
        · rfl
      · rintro a b c (first | ⟨rfl, rfl⟩) (second | ⟨same, rfl⟩)
        · exact P.var_unique.2 first second
        · exact absurd same (fresh _ _ first).1
        · exact absurd rfl (fresh _ _ second).1
        · rfl }

/-- The pairing with one more pair of tables. -/
def addTable (P : Pairing) (t t' : TableId)
    (fresh : ∀ other other', P.table other other' → other ≠ t ∧ other' ≠ t') : Pairing :=
  { P with
    table := fun other other' => P.table other other' ∨ (other = t ∧ other' = t')
    table_unique := by
      refine ⟨?_, ?_⟩
      · rintro a b c (first | ⟨rfl, rfl⟩) (second | ⟨rfl, same⟩)
        · exact P.table_unique.1 first second
        · exact absurd same (fresh _ _ first).2
        · exact absurd rfl (fresh _ _ second).2
        · rfl
      · rintro a b c (first | ⟨rfl, rfl⟩) (second | ⟨same, rfl⟩)
        · exact P.table_unique.2 first second
        · exact absurd same (fresh _ _ first).1
        · exact absurd rfl (fresh _ _ second).1
        · rfl }

/-- The pairing with one more pair of functions. -/
def addFunction (P : Pairing) (id id' : FunctionId) : Pairing :=
  { P with function := fun other other' => P.function other other' ∨ (other = id ∧ other' = id') }

theorem extends_addVar {ref ref' : VarRef}
    (fresh : ∀ other other', P.var other other' → other ≠ ref ∧ other' ≠ ref') :
    P.Extends (P.addVar ref ref' fresh) :=
  ⟨⟨Or.inl, id⟩, rfl, id, rfl⟩

theorem extends_addTable {t t' : TableId}
    (fresh : ∀ other other', P.table other other' → other ≠ t ∧ other' ≠ t') :
    P.Extends (P.addTable t t' fresh) :=
  ⟨⟨id, id⟩, rfl, Or.inl, rfl⟩

theorem extends_addFunction (P : Pairing) (id id' : FunctionId) : P.Extends (P.addFunction id id') :=
  ⟨⟨fun paired => paired, Or.inl⟩, rfl, fun paired => paired, rfl⟩

/-! ## Changes on both sides -/

namespace ProgramLike

section Declare

variable {t t' : TableId} {vars vars' : VariableTable} {var var' : Variable}

theorem end_fresh (alike : P.ProgramLike program program') (tableAt : program.tables[t]? = some vars)
    (tableAt' : program'.tables[t']? = some vars') (other other' : VarRef)
    (paired : P.var other other') : other ≠ ⟨t, vars.size⟩ ∧ other' ≠ ⟨t', vars'.size⟩ := by
  obtain ⟨old, old', oldAt, oldAt', _⟩ := alike.vars other other' paired
  constructor
  · rintro rfl
    simp [slotIn?, tableAt] at oldAt
  · rintro rfl
    simp [slotIn?, tableAt'] at oldAt'

theorem finds_push (sameName : var'.name = P.name var.name)
    (finds : P.Finds t t' vars vars') (ext : P.Extends P')
    (paired : P'.var ⟨t, vars.size⟩ ⟨t', vars'.size⟩) :
    P'.Finds t t' (vars.push var) (vars'.push var') := by
  intro name
  rw [VariableTable.lookup?_push, VariableTable.lookup?_push, sameName, ext.name]
  by_cases same : var.name = name
  · rw [if_pos same, if_pos (congrArg _ same)]
    exact .some paired
  · rw [if_neg same, if_neg fun equal => same (P.name_injective equal)]
    exact optionRel_mono (finds name) fun _ _ => ext.var

/-- Declaring variables that are alike at the ends of paired tables. -/
theorem declare (alike : P.ProgramLike program program') (paired : P.table t t')
    (tableAt : program.tables[t]? = some vars) (tableAt' : program'.tables[t']? = some vars')
    (slots : P.SlotLike ⟨t, vars.size⟩ var var') :
    (P.addVar ⟨t, vars.size⟩ ⟨t', vars'.size⟩ (alike.end_fresh tableAt tableAt')).ProgramLike
      (program.declare t var) (program'.declare t' var') := by
  have ext := extends_addVar (alike.end_fresh tableAt tableAt')
  refine ⟨fun u u' pairedU => ?_, ?_, fun id id' pairedF => ?_⟩
  · obtain ⟨others, others', othersAt, othersAt', finds⟩ := alike.tables u u' pairedU
    have sameTables := Relator.rel_eq P.table_unique paired pairedU
    simp only [Program.declare, Array.getElem?_modify]
    by_cases same : t = u
    · obtain rfl := same
      obtain rfl := sameTables.mp rfl
      cases tableAt.symm.trans othersAt
      cases tableAt'.symm.trans othersAt'
      refine ⟨vars.push var, vars'.push var', by simp [tableAt], by simp [tableAt'], ?_⟩
      exact finds_push slots.name finds ext (Or.inr ⟨rfl, rfl⟩)
    · rw [if_neg same, if_neg fun same' => same (sameTables.mpr same')]
      exact ⟨others, others', othersAt, othersAt', finds.mono ext⟩
  · rintro ref ref' (old | ⟨rfl, rfl⟩)
    · obtain ⟨v, v', vAt, vAt', alikeV⟩ := alike.vars ref ref' old
      obtain ⟨notLast, notLast'⟩ := alike.end_fresh tableAt tableAt' ref ref' old
      refine ⟨v, v', ?_, ?_, alikeV.mono ext⟩
      · exact (slotIn?_declare tableAt var ref).trans ((if_neg notLast).trans vAt)
      · exact (slotIn?_declare tableAt' var' ref').trans ((if_neg notLast').trans vAt')
    · refine ⟨var, var', ?_, ?_, slots.mono ext⟩
      · exact (slotIn?_declare tableAt var _).trans (if_pos rfl)
      · exact (slotIn?_declare tableAt' var' _).trans (if_pos rfl)
  · obtain ⟨f, f', found, found', bodies⟩ := alike.functions id id' pairedF
    exact ⟨f, f', found, found', statementsLike_mono ext bodies⟩

end Declare

section ModifyVar

variable {ref ref' : VarRef} {change change' : Variable → Variable}

theorem lookup?_modifyVar (ref : VarRef) (sameName : ∀ var, (change var).name = var.name) {t : TableId}
    {vars : VariableTable} (tableAt : program.tables[t]? = some vars) :
    ∃ changed : VariableTable, (program.modifyVar ref change).tables[t]? = some changed ∧
      ∀ name, changed.lookup? name = vars.lookup? name := by
  simp only [Program.modifyVar, Array.getElem?_modify, tableAt]
  by_cases same : ref.table = t
  · exact ⟨vars.modify ref.index change, by simp [same],
      VariableTable.lookup?_modify vars ref.index change sameName⟩
  · exact ⟨vars, by simp [same], fun _ => rfl⟩

/-- Changing paired variables, but not their names, to variables that are alike. -/
theorem modifyVar (alike : P.ProgramLike program program') (paired : P.var ref ref')
    (sameName : ∀ var, (change var).name = var.name) (sameName' : ∀ var, (change' var).name = var.name)
    (slots : ∀ var var', slotIn? program.tables ref = some var → slotIn? program'.tables ref' = some var' →
      P.SlotLike ref var var' → P.SlotLike ref (change var) (change' var')) :
    P.ProgramLike (program.modifyVar ref change) (program'.modifyVar ref' change') := by
  refine ⟨fun t t' pairedT => ?_, fun other other' pairedV => ?_, fun id id' => alike.functions id id'⟩
  · obtain ⟨vars, vars', tableAt, tableAt', finds⟩ := alike.tables t t' pairedT
    obtain ⟨changed, changedAt, lookups⟩ := lookup?_modifyVar ref sameName tableAt
    obtain ⟨changed', changedAt', lookups'⟩ := lookup?_modifyVar ref' sameName' tableAt'
    refine ⟨changed, changed', changedAt, changedAt', fun name => ?_⟩
    rw [lookups, lookups']
    exact finds name
  · obtain ⟨var, var', varAt, varAt', alikeV⟩ := alike.vars other other' pairedV
    have slot := slotIn?_modifyVar program.tables ref change other
    have slot' := slotIn?_modifyVar program'.tables ref' change' other'
    by_cases same : other = ref
    · have same' : other' = ref' := (Relator.rel_eq P.var_unique pairedV paired).mp same
      subst same same'
      rw [if_pos rfl, varAt] at slot
      rw [if_pos rfl, varAt'] at slot'
      exact ⟨_, _, slot, slot', slots var var' varAt varAt' alikeV⟩
    · have other_ne : other' ≠ ref' := fun same' => same ((Relator.rel_eq P.var_unique pairedV paired).mpr same')
      rw [if_neg same] at slot
      rw [if_neg other_ne] at slot'
      exact ⟨var, var', slot.trans varAt, slot'.trans varAt', alikeV⟩

end ModifyVar

theorem size_fresh (alike : P.ProgramLike program program') (t t' : TableId) (paired : P.table t t') :
    t ≠ program.tables.size ∧ t' ≠ program'.tables.size := by
  obtain ⟨vars, vars', tableAt, tableAt', _⟩ := alike.tables t t' paired
  exact ⟨Nat.ne_of_lt (Array.getElem?_eq_some_iff.mp tableAt).1,
    Nat.ne_of_lt (Array.getElem?_eq_some_iff.mp tableAt').1⟩

/-- A place that exists does not lie in the next table. -/
theorem slotIn?_addTable {ref : VarRef} {var : Variable} (found : slotIn? program.tables ref = some var) :
    slotIn? program.addTable.tables ref = some var := by
  obtain ⟨vars, tableAt, _⟩ := slotIn?_eq_some_iff.mp found
  have inBounds := (Array.getElem?_eq_some_iff.mp tableAt).1
  exact (slotIn?_push program.tables #[] ref).trans ((if_neg (Nat.ne_of_lt inBounds)).trans found)

/-- Adding an empty table on both sides. -/
theorem addTable (alike : P.ProgramLike program program') :
    (P.addTable program.tables.size program'.tables.size alike.size_fresh).ProgramLike
      program.addTable program'.addTable := by
  have ext := extends_addTable alike.size_fresh
  refine ⟨?_, fun ref ref' paired => ?_, fun id id' paired => ?_⟩
  · rintro t t' (old | ⟨rfl, rfl⟩)
    · obtain ⟨vars, vars', tableAt, tableAt', finds⟩ := alike.tables t t' old
      obtain ⟨notNew, notNew'⟩ := alike.size_fresh t t' old
      refine ⟨vars, vars', ?_, ?_, finds.mono ext⟩
      · rw [Program.addTable, Array.getElem?_push, if_neg notNew, tableAt]
      · rw [Program.addTable, Array.getElem?_push, if_neg notNew', tableAt']
    · exact ⟨#[], #[], by simp [Program.addTable], by simp [Program.addTable], fun _ => .none⟩
  · obtain ⟨var, var', varAt, varAt', slots⟩ := alike.vars ref ref' paired
    exact ⟨var, var', slotIn?_addTable varAt, slotIn?_addTable varAt', slots.mono ext⟩
  · obtain ⟨f, f', found, found', bodies⟩ := alike.functions id id' paired
    exact ⟨f, f', found, found', statementsLike_mono ext bodies⟩

/-- Adding functions whose statements are alike. -/
theorem addFunction {f f' : Function} (alike : P.ProgramLike program program')
    (bodies : List.Forall₂ P.StatementLike f.body f'.body) :
    (P.addFunction program.functions.size program'.functions.size).ProgramLike
      (program.addFunction f) (program'.addFunction f') := by
  have ext := extends_addFunction P program.functions.size program'.functions.size
  refine ⟨fun t t' paired => ?_, fun ref ref' paired => ?_, ?_⟩
  · obtain ⟨vars, vars', tableAt, tableAt', finds⟩ := alike.tables t t' paired
    exact ⟨vars, vars', tableAt, tableAt', finds.mono ext⟩
  · obtain ⟨var, var', varAt, varAt', slots⟩ := alike.vars ref ref' paired
    exact ⟨var, var', varAt, varAt', slots.mono ext⟩
  · rintro id id' (old | ⟨rfl, rfl⟩)
    · obtain ⟨g, g', found, found', bodies'⟩ := alike.functions id id' old
      have inBounds := (Array.getElem?_eq_some_iff.mp found).1
      have inBounds' := (Array.getElem?_eq_some_iff.mp found').1
      refine ⟨g, g', ?_, ?_, statementsLike_mono ext bodies'⟩
      · rw [Program.addFunction, Array.getElem?_push, if_neg (Nat.ne_of_lt inBounds), found]
      · rw [Program.addFunction, Array.getElem?_push, if_neg (Nat.ne_of_lt inBounds'), found']
    · exact ⟨f, f', by simp [Program.addFunction], by simp [Program.addFunction],
        statementsLike_mono ext bodies⟩

end ProgramLike

end Pairing

end Rill

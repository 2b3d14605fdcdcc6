import Mathlib
import Rill.Proofs.Basic
import Rill.Proofs.Build.Globals

/-!
# From declared globals to a finished build

A build goes over its globals three times.

* First it declares them. Nothing else is in the context then (`declaring_start`).
* Then it reads off their types (`types_of_annotates`, `annotates_of_signatures`). What it reads
  depends on the names of the globals only.
* Then it builds their values, in the order of the source. The contexts on the way differ in what was
  added for earlier values, but the names and the types of the globals stay (`Settled`).

`visits_of_fills` takes a successful build apart into one visit for each global.
-/

namespace Rill

namespace Global

/-- The variable once its type was read off. -/
def typed (binding : Global) (type? : Option Term) : Variable :=
  { binding.stub with type? }

/-- The type that is read off the binding, wherever it stands. -/
def signature (binding : Global) : Build (Option Term) :=
  Build.signature (binding.pending 0 0)

end Global

namespace Build

open BuildContext (Leaves)

variable {bindings : List Global} {types : List (Option Term)} {binding : Global}
  {context after final : BuildContext} {index : Nat}

/-! ## Types -/

/-- The context of a build that knows nothing but its globals. -/
def withGlobals (vars : List Variable) : BuildContext :=
  { start with program := { start.program with tables := #[vars.toArray] } }

theorem declaring_withGlobals (vars : List Variable) (bindings : List Global) :
    declaring (withGlobals vars) 0 bindings = withGlobals (vars ++ bindings.map Global.stub) := by
  induction bindings generalizing vars with
  | nil => simp [declaring]
  | cons binding bindings ih =>
      have declared : { withGlobals vars with program := (withGlobals vars).program.declare 0 binding.stub } =
          withGlobals (vars ++ [binding.stub]) := by
        simp [withGlobals, Program.declare]
      calc declaring (withGlobals vars) 0 (binding :: bindings)
          = declaring (withGlobals (vars ++ [binding.stub])) 0 bindings := by rw [← declared]; rfl
        _ = withGlobals (vars ++ (binding :: bindings).map Global.stub) := by rw [ih]; simp

theorem declaring_start (bindings : List Global) :
    declaring start 0 bindings = withGlobals (bindings.map Global.stub) :=
  declaring_withGlobals [] bindings

theorem modifyVar_withGlobals (done rest : List Variable) (var : Variable) (change : Variable → Variable) :
    modifyVar ⟨0, done.length⟩ change (withGlobals (done ++ var :: rest)) =
      .ok ((), withGlobals (done ++ change var :: rest)) := by
  have program : (withGlobals (done ++ var :: rest)).program.modifyVar ⟨0, done.length⟩ change =
      (withGlobals (done ++ change var :: rest)).program := by
    simp [withGlobals, Program.modifyVar, modify_append_cons]
  exact congrArg (fun program => Except.ok ((), { start with program })) program

/-- In the order of the source, the type of each global is read off in a context with all names. -/
theorem types_of_annotates {done : List Variable} {u : Unit}
    (run : (Global.pendings 0 done.length bindings).forM annotate
      (withGlobals (done ++ bindings.map Global.stub)) = .ok (u, after)) :
    ∃ types, after = withGlobals (done ++ List.zipWith Global.typed bindings types) ∧
      List.Forall₂ (fun binding type? => ∃ vars : List Variable,
        vars.map Variable.name = done.map Variable.name ++ bindings.map Global.name ∧
        binding.signature (withGlobals vars) = .ok (type?, withGlobals vars)) bindings types := by
  induction bindings generalizing done with
  | nil =>
      cases run
      exact ⟨[], by simp, .nil⟩
  | cons binding bindings ih =>
      obtain ⟨_, middle, annotates, run⟩ := bind_eq_ok_iff.mp run
      rw [annotate_eq] at annotates
      obtain ⟨type?, same, reads, modifies⟩ := bind_eq_ok_iff.mp annotates
      have unchanged := reads_signature _ _ _ _ reads
      subst unchanged
      cases (modifyVar_withGlobals done (bindings.map Global.stub) binding.stub _).symm.trans modifies
      have rest : (Global.pendings 0 (done ++ [binding.typed type?]).length bindings).forM annotate
          (withGlobals ((done ++ [binding.typed type?]) ++ bindings.map Global.stub)) = .ok (u, after) := by
        simpa [Global.typed] using run
      obtain ⟨types, isAfter, signed⟩ := ih rest
      refine ⟨type? :: types, by simpa using isAfter, .cons ⟨_, ?_, reads⟩ (signed.imp ?_)⟩
      · simp [Global.stub]
      · rintro other otherType? ⟨vars, names, reads⟩
        exact ⟨vars, by simpa [Global.typed, Global.stub] using names, reads⟩

/-- The type is read off the binding where nothing but the names of all bindings is known. -/
def ReadOff (bindings : List Global) (binding : Global) (type? : Option Term) : Prop :=
  ∃ vars : List Variable, vars.map Variable.name = bindings.map Global.name ∧
    binding.signature (withGlobals vars) = .ok (type?, withGlobals vars)

/-- The globals of a build once their types were read off, and where each type comes from. -/
theorem types_of_stubs {u : Unit}
    (run : (Global.pendings 0 0 bindings).forM annotate (withGlobals (bindings.map Global.stub)) =
      .ok (u, after)) :
    ∃ types, after = withGlobals (List.zipWith Global.typed bindings types) ∧
      List.Forall₂ (ReadOff bindings) bindings types := by
  have noneDone : (Global.pendings 0 ([] : List Variable).length bindings).forM annotate
      (withGlobals ([] ++ bindings.map Global.stub)) = .ok (u, after) := run
  exact types_of_annotates noneDone

theorem typed_empty {var : Variable} (member : var ∈ List.zipWith Global.typed bindings types) :
    var.value? = none := by
  obtain ⟨i, inBounds, isVar⟩ := List.mem_iff_getElem.mp member
  rw [← isVar]
  simp [Global.typed, Global.stub]

/-- Where the type of each global can be read off, all are annotated. -/
theorem annotates_of_signatures {done : List Variable} {names : List String}
    {Q : Global → Option Term → Prop} (isNames : done.map Variable.name ++ bindings.map Global.name = names)
    (reads : ∀ binding ∈ bindings, ∀ vars : List Variable, vars.map Variable.name = names →
      ∃ type?, binding.signature (withGlobals vars) = .ok (type?, withGlobals vars) ∧ Q binding type?) :
    ∃ types, (Global.pendings 0 done.length bindings).forM annotate
        (withGlobals (done ++ bindings.map Global.stub)) =
          .ok ((), withGlobals (done ++ List.zipWith Global.typed bindings types)) ∧
      List.Forall₂ Q bindings types := by
  induction bindings generalizing done with
  | nil => exact ⟨[], by simp; rfl, .nil⟩
  | cons binding bindings ih =>
      obtain ⟨type?, read, holds⟩ := reads binding List.mem_cons_self
        (done ++ (binding :: bindings).map Global.stub) (by simp [← isNames, Global.stub])
      have annotates : annotate (binding.pending 0 done.length)
          (withGlobals (done ++ (binding :: bindings).map Global.stub)) =
            .ok ((), withGlobals ((done ++ [binding.typed type?]) ++ bindings.map Global.stub)) := by
        rw [annotate_eq, List.append_assoc]
        exact (bind_of_ok read).trans (modifyVar_withGlobals done _ binding.stub _)
      have sameNames : (done ++ [binding.typed type?]).map Variable.name ++ bindings.map Global.name =
          names := by
        simpa [Global.typed, Global.stub] using isNames
      obtain ⟨types, rest, others⟩ := ih sameNames fun other member =>
        reads other (List.mem_cons_of_mem _ member)
      refine ⟨type? :: types, ?_, .cons holds others⟩
      rw [Global.pendings]
      refine (bind_of_ok annotates).trans ?_
      simpa using rest

/-! ## Contexts with settled globals -/

/-- A context at the top level whose globals have the names and the types given. -/
structure Settled (bindings : List Global) (types : List (Option Term)) (context : BuildContext) :
    Prop where
  scope : context.scope = [0]
  results : context.results = []
  globals : context.program.globals = 0
  vars : ∃ vars : VariableTable, context.program.tables[0]? = some vars ∧
    vars.toList.map Variable.name = bindings.map Global.name ∧ vars.toList.map Variable.type? = types

namespace Settled

theorem ofTypes (lengths : bindings.length = types.length) :
    Settled bindings types (withGlobals (List.zipWith Global.typed bindings types)) := by
  refine ⟨rfl, rfl, rfl, (List.zipWith Global.typed bindings types).toArray, rfl, ?_, ?_⟩
  · exact List.ext_getElem (by simp [lengths]) (by simp [Global.typed, Global.stub])
  · exact List.ext_getElem (by simp [lengths]) (by simp [Global.typed])

theorem slot (settled : Settled bindings types context) (bound : bindings[index]? = some binding) :
    ∃ var, slotIn? context.program.tables ⟨0, index⟩ = some var ∧ var.name = binding.name ∧
      types[index]? = some var.type? := by
  obtain ⟨vars, tableAt, names, rfl⟩ := settled.vars
  have named := congrArg (·[index]?) names
  simp only [List.getElem?_map, bound, Option.map_some, Option.map_eq_some_iff] at named
  obtain ⟨var, varAt, sameName⟩ := named
  refine ⟨var, ?_, sameName, by rw [List.getElem?_map, varAt, Option.map_some]⟩
  simpa [slotIn?, tableAt] using varAt

theorem leaves (settled : Settled bindings types context) (leaves : Leaves (fun _ => False) context after) :
    Settled bindings types after := by
  obtain ⟨vars, tableAt, rest⟩ := settled.vars
  exact ⟨leaves.scope.trans settled.scope, leaves.results.trans settled.results,
    leaves.globals.trans settled.globals, vars, leaves.tables 0 vars tableAt id, rest⟩

/-- Building a value changes no global. -/
theorem slot_leaves (settled : Settled bindings types context)
    (leaves : Leaves (fun _ => False) context after) (index : Nat) :
    slotIn? after.program.tables ⟨0, index⟩ = slotIn? context.program.tables ⟨0, index⟩ := by
  obtain ⟨vars, tableAt, _⟩ := settled.vars
  simp only [slotIn?, tableAt, leaves.tables 0 vars tableAt id]

/-- What is new after a value was built is no global. -/
theorem local_of_new {ref : VarRef} {var : Variable} (settled : Settled bindings types context)
    (leaves : Leaves (fun _ => False) context after) (isNew : slotIn? context.program.tables ref = none)
    (found : slotIn? after.program.tables ref = some var) : ref.table ≠ 0 := by
  obtain ⟨table, index⟩ := ref
  rintro rfl
  rw [settled.slot_leaves leaves, isNew] at found
  cases found

theorem modify {change : Variable → Variable} (settled : Settled bindings types context)
    (sameName : ∀ var, (change var).name = var.name)
    (sameType : ∀ var, slotIn? context.program.tables ⟨0, index⟩ = some var →
      (change var).type? = var.type?) :
    Settled bindings types { context with program := context.program.modifyVar ⟨0, index⟩ change } := by
  obtain ⟨vars, tableAt, names, rfl⟩ := settled.vars
  refine ⟨settled.scope, settled.results, settled.globals, vars.modify index change, ?_, ?_, ?_⟩
  · simp [Program.modifyVar, Array.getElem?_modify, tableAt]
  · rw [← names]
    refine List.ext_getElem? fun i => ?_
    simp only [List.getElem?_map, Array.getElem?_toList, Array.getElem?_modify]
    split
    · simp [Function.comp_def, sameName]
    · rfl
  · refine List.ext_getElem? fun i => ?_
    simp only [List.getElem?_map, Array.getElem?_toList, Array.getElem?_modify]
    split
    · next same =>
      subst same
      cases found : vars[index]? with
      | none => rfl
      | some var => simp [sameType var (by simp [slotIn?, tableAt, found])]
    · rfl

theorem size (settled : Settled bindings types context) {vars : VariableTable}
    (tableAt : context.program.tables[0]? = some vars) : vars.size = bindings.length := by
  obtain ⟨found, foundAt, names, _⟩ := settled.vars
  cases tableAt.symm.trans foundAt
  simpa using congrArg List.length names

end Settled

/-! ## Values -/

/-- What a build leaves as it is while it goes from one global to the next. -/
structure Retains (context after : BuildContext) : Prop where
  slots : ∀ ref var, ref.table ≠ 0 → slotIn? context.program.tables ref = some var →
    slotIn? after.program.tables ref = some var
  functions : ∀ (id : FunctionId) (f : Function), context.program.functions[id]? = some f →
    after.program.functions[id]? = some f
  deferred : context.deferred <+: after.deferred

namespace Retains

theorem refl (context : BuildContext) : Retains context context :=
  ⟨fun _ _ _ => id, fun _ _ => id, List.prefix_refl _⟩

theorem trans {middle : BuildContext} (first : Retains context middle) (second : Retains middle after) :
    Retains context after where
  slots ref var isLocal found := second.slots ref var isLocal (first.slots ref var isLocal found)
  functions id f found := second.functions id f (first.functions id f found)
  deferred := first.deferred.trans second.deferred

theorem ofLeaves {grown : TableId → Prop} (leaves : Leaves grown context after) : Retains context after :=
  ⟨fun ref var _ => leaves.slots ref var, leaves.functions, leaves.deferred⟩

theorem modifyVar (context : BuildContext) (index : Nat) (change : Variable → Variable) :
    Retains context { context with program := context.program.modifyVar ⟨0, index⟩ change } := by
  refine ⟨fun ref var isLocal found => ?_, fun _ _ => id, List.prefix_refl _⟩
  rw [slotIn?_modifyVar_of_ne fun same => isLocal (congrArg VarRef.table same), found]

end Retains

/-- A binding without a type that can be read off is bound to something without a type. -/
def Plain (bindings : List Global) (types : List (Option Term)) : Prop :=
  ∀ (index : Nat) (binding : Global) (phrase : Phrase), bindings[index]? = some binding →
    types[index]? = some none → binding.value? = some phrase →
    ∀ context value after, buildValue phrase context = .ok (value, after) → value.type? = none

/-- Filling a global keeps the names and the types of all. -/
theorem Settled.fill {value : Term} {phrase : Phrase} {before : BuildContext}
    (settled : Settled bindings types context)
    (plain : Plain bindings types) (bound : bindings[index]? = some binding)
    (isValue : binding.value? = some phrase) (built : buildValue phrase before = .ok (value, after)) :
    Settled bindings types
      { context with program := context.program.modifyVar ⟨0, index⟩ (filled value) } := by
  refine settled.modify (fun _ => rfl) fun var found => ?_
  obtain ⟨var', found', _, typeAt⟩ := settled.slot bound
  cases found.symm.trans found'
  unfold filled
  cases typed : var.type? with
  | some type => rfl
  | none =>
      rw [typed] at typeAt
      exact plain index binding phrase bound typeAt isValue before value after built

theorem fill_eq_ok {u : Unit} (run : fill (binding.pending 0 index) context = .ok (u, after)) :
    ∃ phrase value middle var, binding.value? = some phrase ∧
      buildValue phrase context = .ok (value, middle) ∧
      slotIn? middle.program.tables ⟨0, index⟩ = some var ∧
      (∀ type, var.type? = some type → type.satisfies value = .ok true) ∧
      after = { middle with program := middle.program.modifyVar ⟨0, index⟩ (filled value) } := by
  unfold fill Global.pending at run
  cases isValue : binding.value? with
  | none =>
      rw [isValue] at run
      obtain ⟨_, _, _, run⟩ := bind_eq_ok_iff.mp run
      cases run
  | some phrase =>
      rw [isValue] at run
      obtain ⟨value, middle, built, run⟩ := bind_eq_ok_iff.mp run
      obtain ⟨var, found, fits, rfl⟩ := bind_eq_ok run
      exact ⟨phrase, value, middle, var, rfl, built, found, fits, rfl⟩

/-- The step at which the value of a global was built. -/
structure Visit where
  before : BuildContext
  value : Term
  after : BuildContext

/-- The visit was that of the binding at `index`, in a build that went on to `final`. -/
structure Visit.Of (visit : Visit) (bindings : List Global) (types : List (Option Term))
    (final : BuildContext) (index : Nat) (binding : Global) : Prop where
  settled : Settled bindings types visit.before
  built : ∃ phrase, binding.value? = some phrase ∧
    buildValue phrase visit.before = .ok (visit.value, visit.after)
  fits : ∀ type, types[index]? = some (some type) → type.satisfies visit.value = .ok true
  retains : Retains visit.after final
  held : ∃ var, slotIn? final.program.tables ⟨0, index⟩ = some var ∧ var.value? = some visit.value

/-- The values of all globals from `start` on were built, one after the other. -/
structure Visits (bindings : List Global) (types : List (Option Term)) (start : Nat)
    (context final : BuildContext) (visit : Nat → Visit) : Prop where
  settled : Settled bindings types final
  retains : Retains context final
  earlier : ∀ i < start, slotIn? final.program.tables ⟨0, i⟩ = slotIn? context.program.tables ⟨0, i⟩
  each : ∀ i binding, start ≤ i → bindings[i]? = some binding → (visit i).Of bindings types final i binding
  after : ∀ i, start ≤ i → i < bindings.length → Retains context (visit i).before
  inOrder : ∀ i j, start ≤ i → i < j → j < bindings.length → Retains (visit i).after (visit j).before

/-- A successful pass over the values of the globals from `start` on. -/
theorem visits_of_fills {start : Nat} {rest : List Global} {u : Unit}
    (run : (Global.pendings 0 start rest).forM fill context = .ok (u, final))
    (isRest : bindings.drop start = rest) (settled : Settled bindings types context)
    (plain : Plain bindings types) : ∃ visit, Visits bindings types start context final visit := by
  induction rest generalizing start context with
  | nil =>
      cases run
      have atEnd : bindings.length ≤ start := List.drop_eq_nil_iff.mp isRest
      refine ⟨fun _ => ⟨final, .voidAt ⟨0, 0⟩, final⟩, settled, .refl _, fun _ _ => rfl, ?_, ?_, ?_⟩
      · intro i binding isLater bound
        have := (List.getElem?_eq_some_iff.mp bound).1
        omega
      · intro i isLater inBounds
        omega
      · intro i j isLater _ inBounds
        omega
  | cons binding rest ih =>
      obtain ⟨_, next, fills, run⟩ := bind_eq_ok_iff.mp run
      obtain ⟨phrase, value, middle, var, isValue, built, found, fits, rfl⟩ := fill_eq_ok fills
      obtain ⟨bound, others⟩ := drop_eq_cons isRest
      have leaves := leaves_buildValue phrase _ _ _ built
      have settledMiddle := settled.leaves leaves
      have retained := (Retains.ofLeaves leaves).trans (.modifyVar middle start (filled value))
      obtain ⟨visit, visits⟩ := ih run others (settledMiddle.fill plain bound isValue built)
      have here : (⟨context, value, middle⟩ : Visit).Of bindings types final start binding := by
        refine ⟨settled, ⟨phrase, isValue, built⟩, fun type typeAt => fits type ?_,
          (Retains.modifyVar middle start (filled value)).trans visits.retains, filled value var, ?_, rfl⟩
        · obtain ⟨var', found', _, typeAt'⟩ := settledMiddle.slot bound
          cases found.symm.trans found'
          exact Option.some.inj (typeAt'.symm.trans typeAt)
        · rw [visits.earlier start (Nat.lt_succ_self start)]
          exact slotIn?_modifyVar_same found
      -- The first visit is the one just seen, all others come from the rest of the pass.
      refine ⟨Function.update visit start ⟨context, value, middle⟩, visits.settled,
        retained.trans visits.retains, fun i earlier => ?_, fun i other isLater bound' => ?_,
        fun i isLater inBounds => ?_, fun i j isLater before inBounds => ?_⟩
      · rw [visits.earlier i (Nat.lt_succ_of_lt earlier), slotIn?_modifyVar_of_ne]
        · exact settled.slot_leaves leaves i
        · intro same
          cases same
          exact Nat.lt_irrefl _ earlier
      · rcases Nat.eq_or_lt_of_le isLater with rfl | later
        · cases bound.symm.trans bound'
          rw [Function.update_self]
          exact here
        · rw [Function.update_of_ne (Nat.ne_of_gt later)]
          exact visits.each i other later bound'
      · rcases Nat.eq_or_lt_of_le isLater with rfl | later
        · rw [Function.update_self]
          exact .refl _
        · rw [Function.update_of_ne (Nat.ne_of_gt later)]
          exact retained.trans (visits.after i later inBounds)
      · rw [Function.update_of_ne (by omega : j ≠ start)]
        rcases Nat.eq_or_lt_of_le isLater with rfl | later
        · rw [Function.update_self]
          exact (Retains.modifyVar middle _ (filled value)).trans (visits.after j before inBounds)
        · rw [Function.update_of_ne (Nat.ne_of_gt later)]
          exact visits.inOrder i j later before inBounds

/-- A variable that was declared while the value was built. -/
def Visit.Makes (visit : Visit) (ref : VarRef) : Prop :=
  ref.table ≠ 0 ∧ slotIn? visit.before.program.tables ref = none ∧
    ∃ var, slotIn? visit.after.program.tables ref = some var

/-- No variable is declared at two visits. -/
theorem Visits.makes_once {visit : Nat → Visit} {i j : Nat} {ref : VarRef}
    (visits : Visits bindings types 0 context final visit) (inBounds : i < bindings.length)
    (inBounds' : j < bindings.length) (makes : (visit i).Makes ref) (makes' : (visit j).Makes ref) :
    i = j := by
  have notAgain : ∀ {i j : Nat}, j < bindings.length → (visit i).Makes ref → (visit j).Makes ref →
      ¬ i < j := by
    rintro i j inBounds ⟨isLocal, _, var, found⟩ ⟨_, isNew, _⟩ before
    have kept := (visits.inOrder i j (Nat.zero_le i) before inBounds).slots ref var isLocal found
    cases isNew.symm.trans kept
  exact Nat.le_antisymm (Nat.le_of_not_lt (notAgain inBounds makes' makes))
    (Nat.le_of_not_lt (notAgain inBounds' makes makes'))

/-! ## The whole build -/

/-- Every call that was put off is right. -/
def Judged (calls : List DeferredCall) (context : BuildContext) : Prop :=
  ∀ call ∈ calls, ∃ type?, callType? call.callee call.calleeSpan call.span context = .ok (type?, context)

theorem rechecks_eq_ok_iff {calls : List DeferredCall} {u : Unit} :
    calls.forM recheck context = .ok (u, after) ↔ after = context ∧ Judged calls context := by
  constructor
  · intro run
    cases Moves.forM reads_recheck _ _ _ run
    refine ⟨rfl, ?_⟩
    induction calls with
    | nil => exact fun _ member => nomatch member
    | cons call calls ih =>
        obtain ⟨_, _, rechecks, run⟩ := bind_eq_ok_iff.mp run
        obtain ⟨type?, _, judges, rechecks⟩ := bind_eq_ok_iff.mp rechecks
        cases rechecks
        have same := reads_callType? _ _ _ _ _ _ judges
        subst same
        exact List.forall_mem_cons.mpr ⟨⟨type?, judges⟩, ih run⟩
  · rintro ⟨rfl, judged⟩
    induction calls with
    | nil => rfl
    | cons call calls ih =>
        obtain ⟨⟨type?, judges⟩, others⟩ := List.forall_mem_cons.mp judged
        have rechecks : recheck call after = .ok ((), after) := (bind_of_ok judges).trans rfl
        exact (bind_of_ok rechecks).trans (ih others)

/-- The steps of a build whose top-level phrases are bindings. -/
theorem topLevel_eq_ok_iff {phrases : List Phrase} {u : Unit}
    (areGlobals : phrases.map Phrase.global? = bindings.map some) :
    topLevel phrases start = .ok (u, final) ↔
      ∃ annotated, (Global.pendings 0 0 bindings).forM annotate (withGlobals (bindings.map Global.stub)) =
          .ok ((), annotated) ∧
        (Global.pendings 0 0 bindings).forM fill annotated = .ok ((), final) ∧
        Judged final.deferred final := by
  have tableAt : start.program.tables[0]? = some #[] := rfl
  have declares := declareGlobals_of_globals areGlobals tableAt
  rw [declaring_start] at declares
  have gets : ∀ context : BuildContext, (get : Build BuildContext) context = .ok (context, context) :=
    fun _ => rfl
  have steps : topLevel phrases start = ((Global.pendings 0 0 bindings).forM annotate >>= fun _ =>
      (Global.pendings 0 0 bindings).forM fill >>= fun _ => get >>= fun context =>
        context.deferred.forM recheck) (withGlobals (bindings.map Global.stub)) :=
    (bind_of_ok (gets start)).trans (bind_of_ok declares)
  rw [steps]
  constructor
  · intro run
    obtain ⟨_, annotated, annotates, run⟩ := bind_eq_ok_iff.mp run
    obtain ⟨_, bound, fills, run⟩ := bind_eq_ok_iff.mp run
    obtain ⟨_, _, got, rechecks⟩ := bind_eq_ok_iff.mp run
    cases got
    obtain ⟨rfl, judged⟩ := rechecks_eq_ok_iff.mp rechecks
    exact ⟨annotated, annotates, fills, judged⟩
  · rintro ⟨annotated, annotates, fills, judged⟩
    refine (bind_of_ok annotates).trans ((bind_of_ok fills).trans ?_)
    exact (bind_of_ok (gets final)).trans (rechecks_eq_ok_iff.mpr ⟨rfl, judged⟩)

end Build

/-- What a program that was built comes from: bindings, their types and the pass over their values. -/
theorem buildPhrases_stages {phrases : List Phrase} {program : Program}
    (built : buildPhrases phrases = .ok program) :
    ∃ bindings types final, phrases.map Phrase.global? = bindings.map some ∧
      List.Forall₂ (Build.ReadOff bindings) bindings types ∧
      (Global.pendings 0 0 bindings).forM Build.fill
        (Build.withGlobals (List.zipWith Global.typed bindings types)) = .ok ((), final) ∧
      final.program = program := by
  obtain ⟨final, run, isProgram⟩ := buildPhrases_eq_ok_iff.mp built
  have declares := run
  obtain ⟨_, _, got, declares⟩ := Build.bind_eq_ok_iff.mp declares
  cases got
  obtain ⟨pending, declared, declares, _⟩ := Build.bind_eq_ok_iff.mp declares
  obtain ⟨bindings, areGlobals⟩ := Build.globals_of_declareGlobals declares
  obtain ⟨annotated, annotates, fills, _⟩ := (Build.topLevel_eq_ok_iff areGlobals).mp run
  obtain ⟨types, rfl, reads⟩ := Build.types_of_stubs annotates
  exact ⟨bindings, types, final, areGlobals, reads, fills, isProgram⟩

end Rill

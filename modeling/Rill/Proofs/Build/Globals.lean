import Mathlib
import Rill.Proofs.Build.Persistence
import Rill.Proofs.Build.Programs

/-!
# The globals of a build

The first step of a build declares one global for every top-level binding, in the order of the source:
`declareGlobals_of_globals` says which, and `globals_of_declareGlobals` that nothing else gets through.
The later steps change what is known of the globals, but not their number.
-/

namespace Rill

/-- A top-level binding of a name. -/
structure Global where
  name : String
  nameSpan : Span
  type? : Option Phrase
  value? : Option Phrase
  span : Span

namespace Global

/-- The variable as it is declared. -/
def stub (binding : Global) : Variable :=
  { name := binding.name, nameSpan := binding.nameSpan, type? := none, value? := none }

/-- The binding at its place among the globals. -/
def pending (table : TableId) (index : Nat) (binding : Global) : Build.Pending :=
  ⟨⟨table, index⟩, binding.type?, binding.value?, binding.span⟩

/-- Several bindings at the places from `index` on. -/
def pendings (table : TableId) : Nat → List Global → List Build.Pending
  | _, [] => []
  | index, binding :: bindings => binding.pending table index :: pendings table (index + 1) bindings

theorem pendings_getElem? (table : TableId) (start : Nat) (bindings : List Global) (i : Nat) :
    (pendings table start bindings)[i]? = bindings[i]?.map (pending table (start + i)) := by
  induction bindings generalizing start i with
  | nil => rfl
  | cons binding bindings ih =>
      cases i with
      | zero => rfl
      | succ i =>
          rw [pendings, List.getElem?_cons_succ, List.getElem?_cons_succ, ih,
            Nat.add_right_comm, Nat.add_assoc]

theorem pendings_length (table : TableId) (start : Nat) (bindings : List Global) :
    (pendings table start bindings).length = bindings.length := by
  induction bindings generalizing start with
  | nil => rfl
  | cons binding bindings ih => rw [pendings, List.length_cons, List.length_cons, ih]

theorem pendings_take (table : TableId) (start n : Nat) (bindings : List Global) :
    (pendings table start bindings).take n = pendings table start (bindings.take n) := by
  induction bindings generalizing start n with
  | nil => simp [pendings]
  | cons binding bindings ih =>
      cases n with
      | zero => rfl
      | succ n => rw [pendings, List.take_succ_cons, List.take_succ_cons, pendings, ih]

theorem pendings_ref {table : TableId} {start : Nat} {bindings : List Global} {i : Nat}
    (inBounds : i < (pendings table start bindings).length) :
    (pendings table start bindings)[i].ref = ⟨table, start + i⟩ := by
  have found := pendings_getElem? table start bindings i
  rw [List.getElem?_eq_getElem inBounds] at found
  obtain ⟨binding, _, equal⟩ := Option.map_eq_some_iff.mp found.symm
  rw [← equal]
  rfl

end Global

/-- The binding of a name that a top-level phrase is, if it is one. -/
def Phrase.global? (phrase : Phrase) : Option Global :=
  match phrase.construct with
  | .statement inner =>
      match inner.construct with
      | .binding namePhrase type? value? =>
          match namePhrase.construct with
          | .ident name => some ⟨name, namePhrase.span, type?, value?, inner.span⟩
          | _ => none
      | _ => none
  | _ => none

namespace Build

variable {table : TableId} {context after : BuildContext} {vars : VariableTable}

/-! ## Declaring -/

theorem declareGlobal_of_global {phrase : Phrase} {binding : Global}
    (isGlobal : phrase.global? = some binding)
    (tableAt : context.program.tables[table]? = some vars) :
    declareGlobal table phrase context = .ok (binding.pending table vars.size,
      { context with program := context.program.declare table binding.stub }) := by
  unfold Phrase.global? at isGlobal
  unfold declareGlobal
  split at isGlobal
  · next inner isStatement =>
    split at isGlobal
    · next namePhrase type? value? isBinding =>
      split at isGlobal
      · next name isIdent =>
        cases isGlobal
        rw [isStatement]
        dsimp only
        rw [isBinding]
        have named : nameOf namePhrase context = .ok (name, context) := by
          unfold nameOf
          rw [isIdent]
          rfl
        exact (bind_of_ok named).trans ((bind_of_ok (declare_of_table _ tableAt)).trans rfl)
      · cases isGlobal
    · cases isGlobal
  · cases isGlobal

theorem global_of_declareGlobal {phrase : Phrase} {pending : Pending}
    (run : declareGlobal table phrase context = .ok (pending, after)) :
    ∃ binding, phrase.global? = some binding := by
  unfold declareGlobal at run
  unfold Phrase.global?
  generalize phrase.construct = construct at run ⊢
  cases construct with
  | statement inner =>
      dsimp only at run ⊢
      generalize inner.construct = construct at run ⊢
      cases construct with
      | binding namePhrase type? value? =>
          obtain ⟨name, middle, named, _⟩ := bind_eq_ok_iff.mp run
          unfold nameOf at named
          dsimp only
          generalize namePhrase.construct = construct at named ⊢
          cases construct with
          | ident text => exact ⟨_, rfl⟩
          | _ => cases named
      | _ => cases run
  | _ => cases run

/-- The context with the bindings declared. -/
def declaring (context : BuildContext) (table : TableId) (bindings : List Global) : BuildContext :=
  { context with
    program := bindings.foldl (fun program binding => program.declare table binding.stub) context.program }

theorem declaring_tables (tableAt : context.program.tables[table]? = some vars) (bindings : List Global) :
    (declaring context table bindings).program.tables[table]? =
      some (vars ++ (bindings.map Global.stub).toArray) := by
  induction bindings generalizing context vars with
  | nil => simpa [declaring] using tableAt
  | cons binding bindings ih =>
      have declared : (context.program.declare table binding.stub).tables[table]? =
          some (vars.push binding.stub) := by
        simp [Program.declare, Array.getElem?_modify, tableAt]
      have rest := @ih { context with program := context.program.declare table binding.stub } _ declared
      simpa [declaring] using rest

theorem declaring_globals (context : BuildContext) (table : TableId) (bindings : List Global) :
    (declaring context table bindings).program.globals = context.program.globals := by
  unfold declaring
  induction bindings generalizing context with
  | nil => rfl
  | cons binding bindings ih =>
      exact ih { context with program := context.program.declare table binding.stub }

/-- Bindings are declared in order, behind the globals that are there. -/
theorem declareGlobals_of_globals {phrases : List Phrase} {bindings : List Global}
    (areGlobals : phrases.map Phrase.global? = bindings.map some)
    (tableAt : context.program.tables[table]? = some vars) :
    phrases.mapM (declareGlobal table) context =
      .ok (Global.pendings table vars.size bindings, declaring context table bindings) := by
  induction phrases generalizing context vars bindings with
  | nil =>
      cases bindings with
      | nil => rfl
      | cons => cases areGlobals
  | cons phrase phrases ih =>
      cases bindings with
      | nil => cases areGlobals
      | cons binding bindings =>
          obtain ⟨isGlobal, others⟩ := List.cons.inj areGlobals
          have declared : (context.program.declare table binding.stub).tables[table]? =
              some (vars.push binding.stub) := by
            simp [Program.declare, Array.getElem?_modify, tableAt]
          have rest :=
            @ih { context with program := context.program.declare table binding.stub } _ _ others declared
          rw [Array.size_push] at rest
          rw [List.mapM_cons]
          exact (bind_of_ok (declareGlobal_of_global isGlobal tableAt)).trans ((bind_of_ok rest).trans rfl)

/-- Only bindings of names are declared. -/
theorem globals_of_declareGlobals {phrases : List Phrase} {pending : List Pending}
    (run : phrases.mapM (declareGlobal table) context = .ok (pending, after)) :
    ∃ bindings : List Global, phrases.map Phrase.global? = bindings.map some := by
  induction phrases generalizing context pending after with
  | nil => exact ⟨[], rfl⟩
  | cons phrase phrases ih =>
      rw [List.mapM_cons] at run
      obtain ⟨first, middle, run₁, run⟩ := bind_eq_ok_iff.mp run
      obtain ⟨rest, last, run₂, _⟩ := bind_eq_ok_iff.mp run
      obtain ⟨binding, isGlobal⟩ := global_of_declareGlobal run₁
      obtain ⟨bindings, others⟩ := ih run₂
      exact ⟨binding :: bindings, by rw [List.map_cons, List.map_cons, isGlobal, others]⟩

/-! ## Later steps -/

/-- The type that is read off a binding. -/
def signature (pending : Pending) : Build (Option Term) :=
  match pending.type?, pending.value? with
  | some type, _ => some <$> buildType type
  | none, some value => literalType? value
  | none, none => pure none

theorem annotate_eq (pending : Pending) :
    annotate pending =
      signature pending >>= fun type? => modifyVar pending.ref fun var => { var with type? } := by
  unfold annotate signature
  cases pending.type? <;> cases pending.value? <;> rfl

theorem reads_signature (pending : Pending) : Moves Eq (signature pending) := by
  unfold signature
  split
  · exact .map _ (reads_buildType _)
  · exact reads_literalType? _
  · exact .pure _

/-- The same table holds the globals, and no table gets more or fewer variables. -/
structure SameSizes (context after : BuildContext) : Prop where
  globals : after.program.globals = context.program.globals
  tables : ∀ (t : TableId) vars, context.program.tables[t]? = some vars →
    ∃ vars', after.program.tables[t]? = some vars' ∧ vars'.size = vars.size

instance : Std.Refl SameSizes := ⟨fun _ => ⟨rfl, fun _ vars found => ⟨vars, found, rfl⟩⟩⟩

instance : IsTrans BuildContext SameSizes where
  trans _ _ _ first second := by
    refine ⟨second.globals.trans first.globals, fun t vars found => ?_⟩
    obtain ⟨vars', found', same⟩ := first.tables t vars found
    obtain ⟨vars'', found'', same'⟩ := second.tables t vars' found'
    exact ⟨vars'', found'', same'.trans same⟩

theorem sameSizes_modifyVar (ref : VarRef) (change : Variable → Variable) :
    Moves SameSizes (modifyVar ref change) := by
  intro context a after run
  cases run
  refine ⟨rfl, fun t vars found => ?_⟩
  simp only [Program.modifyVar, Array.getElem?_modify, found]
  by_cases same : ref.table = t
  · exact ⟨vars.modify ref.index change, by simp [same], by simp⟩
  · exact ⟨vars, by simp [same], rfl⟩

theorem sameSizes_annotate (pending : Pending) : Moves SameSizes (annotate pending) := by
  rw [annotate_eq]
  exact (Moves.ofReads (reads_signature pending)).bind fun _ => sameSizes_modifyVar _ _

theorem sameSizes_fill (pending : Pending) : Moves SameSizes (fill pending) := by
  unfold fill
  split
  · next value _ =>
    have built : Moves SameSizes (buildValue value) :=
      Moves.mono (leaves_buildValue value) fun _ _ leaves =>
        ⟨leaves.globals, fun _ vars found => ⟨vars, leaves.tables _ vars found id, rfl⟩⟩
    refine built.bind fun built context a after run => ?_
    obtain ⟨_, _, _, rfl⟩ := bind_eq_ok run
    exact sameSizes_modifyVar pending.ref (filled built) context () _ rfl
  · exact Moves.bind (.ofReads (reads_readVar _)) fun _ => .refuse

theorem reads_recheck (call : DeferredCall) : Moves Eq (recheck call) :=
  (reads_callType? _ _ _).bind fun _ => .pure _

/-- In the end there are as many globals as top-level phrases. -/
theorem topLevel_globals {phrases : List Phrase} {u : Unit}
    (run : topLevel phrases start = .ok (u, after)) :
    after.program.globals = 0 ∧
      ∃ globals, after.program.tables[0]? = some globals ∧ globals.size = phrases.length := by
  obtain ⟨_, _, got, run⟩ := bind_eq_ok_iff.mp run
  cases got
  obtain ⟨pending, declared, declares, run⟩ := bind_eq_ok_iff.mp run
  obtain ⟨_, annotated, annotates, run⟩ := bind_eq_ok_iff.mp run
  obtain ⟨_, bound, fills, run⟩ := bind_eq_ok_iff.mp run
  obtain ⟨_, _, got, rechecks⟩ := bind_eq_ok_iff.mp run
  cases got
  obtain ⟨bindings, areGlobals⟩ := globals_of_declareGlobals declares
  have tableAt : start.program.tables[0]? = some #[] := rfl
  cases (declareGlobals_of_globals areGlobals tableAt).symm.trans declares
  have unchanged := Moves.forM reads_recheck _ _ _ rechecks
  subst unchanged
  have same : SameSizes (declaring start 0 bindings) bound :=
    IsTrans.trans _ _ _ (Moves.forM sameSizes_annotate _ _ _ annotates)
      (Moves.forM sameSizes_fill _ _ _ fills)
  obtain ⟨globals, globalsAt, size⟩ := same.tables _ _ (declaring_tables tableAt bindings)
  refine ⟨same.globals.trans (declaring_globals ..), globals, globalsAt, size.trans ?_⟩
  simpa using (congrArg List.length areGlobals).symm

end Build

theorem buildPhrases_eq (phrases : List Phrase) :
    buildPhrases phrases = (Build.topLevel phrases Build.start).map fun result => result.2.program := by
  change (Build.topLevel phrases Build.start).bind (fun result => .ok result.2.program) = _
  cases Build.topLevel phrases Build.start <;> rfl

theorem buildPhrases_eq_ok_iff {phrases : List Phrase} {program : Program} :
    buildPhrases phrases = .ok program ↔
      ∃ after, Build.topLevel phrases Build.start = .ok ((), after) ∧ after.program = program := by
  rw [buildPhrases_eq]
  cases Build.topLevel phrases Build.start with
  | error abort => simp [Except.map]
  | ok result => simp [Except.map, Prod.ext_iff]

end Rill

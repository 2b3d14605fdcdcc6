import Mathlib
import Rill.Proofs.Build.Runs
import Rill.Proofs.Likeness.Reading

/-!
# Building two programs side by side

Two steps of a build are alike (`Alike`) when, taken in contexts that are alike, they both end with
results that are alike and leave contexts that are alike under a pairing with more pairs, or are both
refused for the same reason. The main result is `alike_phrases`: building phrases that differ only in
names and places.

Variables may be marked as late: they are given their values at another time in the second build.
While such a variable has neither a type nor a value, a call of it is put off in one build and refused
in the other. That is a third way in which steps can be alike: the first build is doomed, because a
late variable without a type turns out not to be callable when the call is judged again.
-/

namespace Rill

namespace Pairing

variable {P P' P'' : Pairing} {c c' d d' e e' : BuildContext}

/-- A call was put off whose callee is late and has no type. -/
def Doomed (P : Pairing) (context : BuildContext) : Prop :=
  ∃ call ∈ context.deferred, P.late call.callee ∧
    ∃ var, slotIn? context.program.tables call.callee = some var ∧ var.type? = none

/-- What two steps that are alike leave behind: contexts that are alike under a pairing with more
pairs, of variables that were not there before. -/
structure Follows (P P' : Pairing) (c c' d d' : BuildContext) : Prop where
  ext : P.Extends P'
  context : P'.ContextLike d d'
  calls : ∃ calls calls', d.deferred = c.deferred ++ calls ∧ d'.deferred = c'.deferred ++ calls' ∧
    List.Forall₂ (fun call call' => P'.var call.callee call'.callee) calls calls'
  slots : ∀ ref, slotIn? d.program.tables ref = none → slotIn? c.program.tables ref = none
  slots' : ∀ ref, slotIn? d'.program.tables ref = none → slotIn? c'.program.tables ref = none
  fresh : ∀ ref ref', P'.var ref ref' → P.var ref ref' ∨
    slotIn? c.program.tables ref = none ∧ slotIn? c'.program.tables ref' = none

theorem Follows.refl (alike : P.ContextLike c c') : P.Follows P c c' c c' :=
  ⟨.refl P, alike, ⟨[], [], by simp, by simp, .nil⟩, fun _ => id, fun _ => id, fun _ _ => Or.inl⟩

theorem Follows.trans (first : P.Follows P' c c' d d') (second : P'.Follows P'' d d' e e') :
    P.Follows P'' c c' e e' where
  ext := first.ext.trans second.ext
  context := second.context
  calls := by
    obtain ⟨calls, calls', equal, equal', paired⟩ := first.calls
    obtain ⟨more, more', equal₂, equal₂', paired₂⟩ := second.calls
    refine ⟨calls ++ more, calls' ++ more', ?_, ?_, ?_⟩
    · rw [equal₂, equal, List.append_assoc]
    · rw [equal₂', equal', List.append_assoc]
    · exact List.rel_append (paired.imp fun _ _ => second.ext.var) paired₂
  slots ref none := first.slots ref (second.slots ref none)
  slots' ref none := first.slots' ref (second.slots' ref none)
  fresh ref ref' paired := by
    rcases second.fresh ref ref' paired with old | ⟨none, none'⟩
    · exact first.fresh ref ref' old
    · exact Or.inr ⟨first.slots ref none, first.slots' ref' none'⟩

/-- Steps that change neither the program nor the calls put off. -/
theorem Follows.ofContext {scope scope' : ScopeChain} {results results' : List Term}
    (alike : P.ContextLike { c with scope, results } { c' with scope := scope', results := results' }) :
    P.Follows P c c' { c with scope, results } { c' with scope := scope', results := results' } :=
  ⟨.refl P, alike, ⟨[], [], by simp, by simp, .nil⟩, fun _ => id, fun _ => id, fun _ _ => Or.inl⟩

end Pairing

namespace Build

open Pairing (Doomed Follows)
open BuildContext (Leaves)

variable {α α' β β' : Type} {P P' : Pairing} {c c' d d' : BuildContext} {m : Build α} {m' : Build α'}
  {R : Pairing → α → α' → Prop}

/-- Two steps do the same from contexts that are alike, unless the first build is doomed. -/
inductive Alike (P : Pairing) (m : Build α) (m' : Build α') (c c' : BuildContext)
    (R : Pairing → α → α' → Prop) : Prop
  | both {P' : Pairing} {a : α} {a' : α'} {d d' : BuildContext} : m c = .ok (a, d) →
      m' c' = .ok (a', d') → P.Follows P' c c' d d' → R P' a a' → Alike P m m' c c' R
  | refused {error error' : BuildError} : m c = .error (.reported error) →
      m' c' = .error (.reported error') → error.kind.Renamed P.name error'.kind → Alike P m m' c c' R
  | doomed : (∃ ref, P.late ref) → (∀ a d, m c = .ok (a, d) → P.Doomed d) → Alike P m m' c c' R

/-- A doomed build stays doomed. -/
def Stuck (context after : BuildContext) : Prop :=
  ∀ P : Pairing, P.Doomed context → P.Doomed after

instance : Std.Refl Stuck := ⟨fun _ _ => id⟩

instance : IsTrans BuildContext Stuck := ⟨fun _ _ _ first second P doomed => second P (first P doomed)⟩

theorem stuck_of_leaves {grown : TableId → Prop} (leaves : Leaves grown c d) : Stuck c d := by
  rintro P ⟨call, member, late, var, found, untyped⟩
  exact ⟨call, leaves.deferred.subset member, late, var, leaves.slots _ _ found, untyped⟩

namespace Alike

theorem pure {a : α} {a' : α'} (alike : P.ContextLike c c') (holds : R P a a') :
    Alike P (Pure.pure a) (Pure.pure a') c c' R :=
  .both rfl rfl (.refl alike) holds

theorem refuse {kind kind' : BuildErrorKind} {span span' : Span} (renamed : kind.Renamed P.name kind') :
    Alike P (Build.refuse kind span) (Build.refuse kind' span') c c' R :=
  .refused rfl rfl renamed

theorem mono {S : Pairing → α → α' → Prop} (alike : Alike P m m' c c' R)
    (weaker : ∀ P' a a', P.Extends P' → R P' a a' → S P' a a') : Alike P m m' c c' S := by
  cases alike with
  | both run run' follows holds => exact .both run run' follows (weaker _ _ _ follows.ext holds)
  | refused run run' renamed => exact .refused run run' renamed
  | doomed late doomed => exact .doomed late doomed

/-- Going on after two steps that both ended. -/
theorem next {a : α} {a' : α'} {f : α → Build β} {f' : α' → Build β'} {S : Pairing → β → β' → Prop}
    (run : m c = .ok (a, d)) (run' : m' c' = .ok (a', d')) (follows : P.Follows P' c c' d d')
    (rest : Alike P' (f a) (f' a') d d' S) : Alike P (m >>= f) (m' >>= f') c c' S := by
  have here := bind_of_ok run (f := f)
  have here' := bind_of_ok run' (f := f')
  cases rest with
  | both rest rest' follows' holds =>
      exact .both (here.trans rest) (here'.trans rest') (follows.trans follows') holds
  | refused rest rest' renamed =>
      exact .refused (here.trans rest) (here'.trans rest') (follows.ext.name ▸ renamed)
  | doomed late doomed =>
      refine .doomed (follows.ext.late ▸ late) fun b e run => ?_
      obtain ⟨call, member, isLate, untyped⟩ := doomed b e (here.symm.trans run)
      exact ⟨call, member, follows.ext.late ▸ isLate, untyped⟩

theorem bind {f : α → Build β} {f' : α' → Build β'} {S : Pairing → β → β' → Prop}
    (first : Alike P m m' c c' R) (stuck : (∃ ref, P.late ref) → ∀ a, Moves Stuck (f a))
    (rest : ∀ P' a a' d d', P.Follows P' c c' d d' → R P' a a' → Alike P' (f a) (f' a') d d' S) :
    Alike P (m >>= f) (m' >>= f') c c' S := by
  cases first with
  | both run run' follows holds => exact .next run run' follows (rest _ _ _ _ _ follows holds)
  | refused run run' renamed =>
      exact .refused (bind_of_error run) (bind_of_error run') renamed
  | doomed late doomed =>
      refine .doomed late fun b e run => ?_
      obtain ⟨a, d, run₁, run₂⟩ := bind_eq_ok_iff.mp run
      exact stuck late a d b e run₂ P (doomed a d run₁)

/-- Going on after reading. -/
theorem afterRead {f : α → Build β} {f' : α' → Build β'} {reading : α → α' → Prop}
    {S : Pairing → β → β' → Prop} (alike : P.ContextLike c c') (reads : ReadsAlike P m m' c c' reading)
    (rest : ∀ a a', reading a a' → Alike P (f a) (f' a') c c' S) :
    Alike P (m >>= f) (m' >>= f') c c' S := by
  cases reads with
  | both run run' holds => exact .next run run' (.refl alike) (rest _ _ holds)
  | refused run run' renamed =>
      exact .refused (bind_of_error run) (bind_of_error run') renamed

/-- Steps that look at their contexts. -/
theorem withContext {f : BuildContext → Build α} {f' : BuildContext → Build α'}
    (next : Alike P (f c) (f' c') c c' R) : Alike P (get >>= f) (get >>= f') c c' R := by
  cases next with
  | both run run' follows holds => exact .both run run' follows holds
  | refused run run' renamed => exact .refused run run' renamed
  | doomed late doomed => exact .doomed late doomed

/-- Steps that run as the given ones. -/
theorem congr {n : Build α} {n' : Build α'} (alike : Alike P m m' c c' R) (same : n c = m c)
    (same' : n' c' = m' c') : Alike P n n' c c' R := by
  cases alike with
  | both run run' follows holds => exact .both (same.trans run) (same'.trans run') follows holds
  | refused run run' renamed => exact .refused (same.trans run) (same'.trans run') renamed
  | doomed late doomed => exact .doomed late fun a d run => doomed a d (same.symm.trans run)

end Alike

/-- Steps taken for the items of two lists, one by one. -/
theorem Alike.mapM {Q : Pairing → α → α' → Prop} {S : Pairing → β → β' → Prop} {f : α → Build β}
    {f' : α' → Build β'} {xs : List α} {xs' : List α'}
    (moreQ : ∀ {P P' : Pairing} {x x'}, P.Extends P' → Q P x x' → Q P' x x')
    (moreS : ∀ {P P' : Pairing} {y y'}, P.Extends P' → S P y y' → S P' y y')
    (stuck : (∃ ref, P.late ref) → ∀ x, Moves Stuck (f x))
    (each : ∀ (P : Pairing) x x' d d', P.ContextLike d d' → Q P x x' → Alike P (f x) (f' x') d d' S)
    (alike : P.ContextLike c c') (items : List.Forall₂ (Q P) xs xs') :
    Alike P (xs.mapM f) (xs'.mapM f') c c' fun P => List.Forall₂ (S P) := by
  induction xs generalizing P xs' c c' with
  | nil =>
      cases items
      exact .pure alike .nil
  | cons x xs ih =>
      cases items with
      | cons first others =>
          rw [List.mapM_cons, List.mapM_cons]
          refine (each P _ _ c c' alike first).bind
            (fun late _ => (Moves.mapM fun item _ => stuck late item).bind fun _ => .pure _)
            fun P₁ y y' d d' follows head => ?_
          refine (ih (follows.ext.late ▸ stuck) follows.context
            (others.imp fun _ _ => moreQ follows.ext)).bind (fun _ _ => .pure _)
            fun P₂ ys ys' e e' follows' tail => ?_
          exact .pure follows'.context (.cons (moreS follows'.ext head) tail)

theorem Alike.forM {Q : Pairing → α → α' → Prop} {f : α → Build Unit} {f' : α' → Build Unit}
    {xs : List α} {xs' : List α'}
    (moreQ : ∀ {P P' : Pairing} {x x'}, P.Extends P' → Q P x x' → Q P' x x')
    (stuck : (∃ ref, P.late ref) → ∀ x, Moves Stuck (f x))
    (each : ∀ (P : Pairing) x x' d d', P.ContextLike d d' → Q P x x' →
      Alike P (f x) (f' x') d d' fun _ _ _ => True)
    (alike : P.ContextLike c c') (items : List.Forall₂ (Q P) xs xs') :
    Alike P (xs.forM f) (xs'.forM f') c c' fun _ _ _ => True := by
  induction xs generalizing P xs' c c' with
  | nil =>
      cases items
      exact .pure alike trivial
  | cons x xs ih =>
      cases items with
      | cons first others =>
          refine (each P _ _ c c' alike first).bind (fun late _ => Moves.forM (stuck late))
            fun P₁ _ _ d d' follows _ => ?_
          exact ih (follows.ext.late ▸ stuck) follows.context (others.imp fun _ _ => moreQ follows.ext)

theorem Steady.stuck {grown : TableId → Prop} (steady : Steady grown m) : Moves Stuck m :=
  Moves.mono steady fun _ _ => stuck_of_leaves

/-! ## Variables -/

section Variables

variable {var var' : Variable} {t t' : TableId} {ref ref' : VarRef} {value value' : Term}

theorem slots_of_leaves {grown : TableId → Prop} (leaves : Leaves grown c d) (ref : VarRef)
    (none : slotIn? d.program.tables ref = none) : slotIn? c.program.tables ref = .none := by
  cases found : slotIn? c.program.tables ref with
  | none => rfl
  | some var => cases none.symm.trans (leaves.slots ref var found)

/-- Declaring variables that are alike in paired tables. -/
theorem exists_declare (var var' : Variable) (alike : P.ContextLike c c') (paired : P.table t t')
    (slots : ∀ ref, P.SlotLike ref var var') :
    ∃ (P' : Pairing) (vars vars' : VariableTable), c.program.tables[t]? = some vars ∧
      c'.program.tables[t']? = some vars' ∧ P'.var ⟨t, vars.size⟩ ⟨t', vars'.size⟩ ∧
      P.Follows P' c c' { c with program := c.program.declare t var }
        { c' with program := c'.program.declare t' var' } := by
  obtain ⟨vars, vars', tableAt, tableAt', _⟩ := alike.program.tables t t' paired
  have fresh := alike.program.end_fresh tableAt tableAt'
  have ext := Pairing.extends_addVar fresh
  refine ⟨P.addVar ⟨t, vars.size⟩ ⟨t', vars'.size⟩ fresh, vars, vars', tableAt, tableAt',
    Or.inr ⟨rfl, rfl⟩, ext, ⟨alike.program.declare paired tableAt tableAt' (slots _), alike.scope,
    alike.results.imp fun _ _ => Pairing.TypeLike.mono ext.toWithin⟩,
    ⟨[], [], by simp, by simp, .nil⟩, slots_of_leaves (.declare var tableAt),
    slots_of_leaves (.declare var' tableAt'), ?_⟩
  rintro ref ref' (old | ⟨rfl, rfl⟩)
  · exact Or.inl old
  · refine Or.inr ⟨?_, ?_⟩
    · simp [slotIn?, tableAt]
    · simp [slotIn?, tableAt']

theorem slotLike_filled {var var' : Variable} (slots : P.SlotLike ref var var')
    (values : P.ValueLike value value') : P.SlotLike ref (filled value var) (filled value' var') where
  name := slots.name
  types := by
    have types := slots.types
    unfold filled
    generalize var.type? = type? at types ⊢
    generalize var'.type? = type?' at types ⊢
    cases types with
    | some types => exact .some types
    | none => exact values.types
  values := Or.inr (.some values)

/-- Changing paired variables, but not their names, to variables that are alike. -/
theorem follows_modifyVar {change change' : Variable → Variable} (alike : P.ContextLike c c')
    (paired : P.var ref ref') (sameName : ∀ var, (change var).name = var.name)
    (sameName' : ∀ var, (change' var).name = var.name)
    (slots : ∀ var var', P.SlotLike ref var var' → P.SlotLike ref (change var) (change' var')) :
    P.Follows P c c' { c with program := c.program.modifyVar ref change }
      { c' with program := c'.program.modifyVar ref' change' } := by
  have noSlot : ∀ {program : Program} {target : VarRef} {change : Variable → Variable} (other : VarRef),
      slotIn? (program.modifyVar target change).tables other = none →
      slotIn? program.tables other = none := by
    intro program target change other none
    change slotIn? (program.tables.modify _ _) _ = _ at none
    rw [slotIn?_modifyVar] at none
    split at none
    · exact Option.map_eq_none_iff.mp none
    · exact none
  exact ⟨.refl P, ⟨alike.program.modifyVar paired sameName sameName' fun var var' _ _ => slots var var',
    alike.scope, alike.results⟩, ⟨[], [], by simp, by simp, .nil⟩, noSlot, noSlot, fun _ _ => Or.inl⟩

/-- Binding values that are alike to paired variables. -/
theorem alike_bind (alike : P.ContextLike c c') (paired : P.var ref ref')
    (values : P.ValueLike value value') :
    Alike P (Build.bind ref value) (Build.bind ref' value') c c' fun _ _ _ => True := by
  obtain ⟨var, var', found, found', slots⟩ := alike.program.vars ref ref' paired
  have checks := readsAlike_checkFor alike slots values
  have steps : Alike P (checkFor var value >>= fun _ => modifyVar ref (filled value))
      (checkFor var' value' >>= fun _ => modifyVar ref' (filled value')) c c' fun _ _ _ => True :=
    .afterRead alike checks fun _ _ _ => .both rfl rfl (follows_modifyVar alike paired (fun _ => rfl)
      (fun _ => rfl) fun _ _ slots => slotLike_filled slots values) trivial
  exact steps.congr (bind_eq found) (bind_eq found')

end Variables

/-! ## Calls -/

section Calls

variable {callee callee' : Term} {ref ref' : VarRef} {span span' : Span}

/-- Calls that are alike, as statements and as values. -/
def CallLike (P : Pairing) (call call' : Term) : Prop :=
  P.StatementLike call call' ∧ P.ValueLike call call'

theorem callLike {type? type?' : Option Term} (callees : P.ValueLike callee callee')
    (types : Option.Rel P.TypeLike type? type?') :
    CallLike P ⟨.call callee [], type?, span⟩ ⟨.call callee' [], type?', span'⟩ :=
  ⟨.call (.call callees types), .call callees types⟩

/-- A call that is put off in both builds. -/
theorem follows_defer {calleeSpan calleeSpan' : Span} (alike : P.ContextLike c c')
    (paired : P.var ref ref') :
    P.Follows P c c' { c with deferred := c.deferred ++ [⟨ref, calleeSpan, span⟩] }
      { c' with deferred := c'.deferred ++ [⟨ref', calleeSpan', span'⟩] } :=
  ⟨.refl P, ⟨alike.program, alike.scope, alike.results⟩, ⟨[_], [_], rfl, rfl, .cons paired .nil⟩,
    fun _ => id, fun _ => id, fun _ _ => Or.inl⟩

/-- A variable with a type is judged by its type alone. -/
theorem readsAlike_callType? {var var' : Variable} {type type' : Term} {calleeSpan calleeSpan' : Span}
    (alike : P.ContextLike c c') (found : slotIn? c.program.tables ref = some var)
    (found' : slotIn? c'.program.tables ref' = some var') (sameName : var'.name = P.name var.name)
    (typed : var.type? = some type) (typed' : var'.type? = some type') (types : P.TypeLike type type') :
    ReadsAlike P (callType? ref calleeSpan span) (callType? ref' calleeSpan' span') c c'
      fun type? type?' => type?.isSome ∧ Option.Rel P.TypeLike type? type?' := by
  have read : ReadsAlike P (readVar ref) (readVar ref') c c' fun v v' => v = var ∧ v' = var' :=
    .both (readVar_eq_ok_iff.mpr ⟨found, rfl⟩) (readVar_eq_ok_iff.mpr ⟨found', rfl⟩) ⟨rfl, rfl⟩
  refine read.bind fun v v' ⟨same, same'⟩ => ?_
  have refused {text : Type} {R : text → text → Prop} :
      ReadsAlike P (do refuse (.notCallable var.name (← typeText (some type))) calleeSpan)
        (do refuse (.notCallable var'.name (← typeText (some type'))) calleeSpan') c c' R := by
    refine (readsAlike_typeText alike (.some types)).bind fun _ _ retold => .refuse ?_
    rw [sameName]
    exact .notCallable _ retold
  rw [same, same', typed, typed']
  cases types with
  | void | u64 | «variable» => exact refused
  | @functionType args args' _ _ _ _ lengths each resultAlike =>
      cases args with
      | nil =>
          cases args' with
          | nil => exact .pure ⟨rfl, .some resultAlike⟩
          | cons => cases lengths
      | cons arg args =>
          cases args' with
          | nil => cases lengths
          | cons => exact .refuse (lengths ▸ .arityMismatch _ _)

/-- A variable without a type is judged by its value, if it has one. -/
theorem callType?_untyped {var : Variable} (calleeSpan span : Span)
    (found : slotIn? c.program.tables ref = some var) (untyped : var.type? = none) :
    callType? ref calleeSpan span c =
      if var.value?.isSome then .error (.reported ⟨.notCallable var.name "type", calleeSpan⟩)
      else .ok (none, c) := by
  refine (bind_of_ok (readVar_eq_ok_iff.mpr ⟨found, rfl⟩)).trans ?_
  rw [untyped]
  dsimp only
  split
  · rfl
  · rfl

/-- A call of a variable that has neither a type nor a value is put off. -/
theorem callOf_untyped {var : Variable} (type? : Option Term) (calleeSpan span : Span)
    (found : slotIn? c.program.tables ref = some var) (untyped : var.type? = none) :
    callOf span ⟨.variable ref, type?, calleeSpan⟩ c =
      if var.value?.isSome then .error (.reported ⟨.notCallable var.name "type", calleeSpan⟩)
      else .ok (⟨.call ⟨.variable ref, type?, calleeSpan⟩ [], none, span⟩,
        { c with deferred := c.deferred ++ [⟨ref, calleeSpan, span⟩] }) := by
  have read : readVar ref c = .ok (var, c) := readVar_eq_ok_iff.mpr ⟨found, rfl⟩
  have judged := callType?_untyped calleeSpan span found untyped
  cases held : var.value? with
  | some value =>
      rw [held] at judged
      exact bind_of_error judged
  | none =>
      rw [held] at judged
      refine (bind_of_ok judged).trans ((bind_of_ok read).trans ?_)
      rw [held]
      rfl

/-- Calls of paired variables. -/
theorem alike_callOf_variable {type? type?' : Option Term} {calleeSpan calleeSpan' : Span}
    (alike : P.ContextLike c c') (paired : P.var ref ref') (types : Option.Rel P.TypeLike type? type?') :
    Alike P (callOf span ⟨.variable ref, type?, calleeSpan⟩)
      (callOf span' ⟨.variable ref', type?', calleeSpan'⟩) c c' CallLike := by
  obtain ⟨var, var', found, found', slots⟩ := alike.program.vars ref ref' paired
  have callees : P.ValueLike ⟨.variable ref, type?, calleeSpan⟩ ⟨.variable ref', type?', calleeSpan'⟩ :=
    .variable paired types
  rcases optionRel_cases slots.types with ⟨untyped, untyped'⟩ | ⟨type, type', typed, typed', alikeTypes⟩
  · have here := callOf_untyped type? calleeSpan span found untyped
    have here' := callOf_untyped type?' calleeSpan' span' found' untyped'
    rcases slots.values with late | values
    · refine .doomed ⟨ref, late⟩ fun a d run => ?_
      rw [here] at run
      split at run
      · cases run
      · cases run
        exact ⟨_, List.mem_append_right _ (List.mem_singleton_self _), late, var, found, untyped⟩
    · rcases optionRel_cases values with ⟨empty, empty'⟩ | ⟨value, value', held, held', _⟩
      · rw [empty] at here
        rw [empty'] at here'
        exact .both here here' (follows_defer alike paired) (callLike callees .none)
      · rw [held] at here
        rw [held'] at here'
        refine .refused here here' ?_
        rw [slots.name]
        exact .notCallable _ .type
  · refine .afterRead alike (readsAlike_callType? alike found found' slots.name typed typed' alikeTypes) ?_
    rintro _ _ ⟨isSome, results⟩
    cases results with
    | none => cases isSome
    | some results =>
        exact .afterRead alike (readsAlike_readVar alike paired) fun _ _ _ =>
          .pure alike (callLike callees (.some results))

/-- Calls of callees that are alike. -/
theorem alike_callOf (alike : P.ContextLike c c') (callees : P.ValueLike callee callee') :
    Alike P (callOf span callee) (callOf span' callee') c c' CallLike := by
  cases callees with
  | «variable» paired types => exact alike_callOf_variable alike paired types
  | type types noName =>
      cases types with
      | void | u64 | functionType => exact .refuse .unsupportedCallee
      | «variable» => exact absurd rfl (noName _)
  | int | function | sum | call => exact .refuse .unsupportedCallee

theorem alike_buildCall {args args' : Phrase} {callee callee' : Build Term}
    (argsAlike : Phrase.Like P.name args args')
    (calleeAlike : Alike P callee callee' c c' fun P => P.ValueLike) :
    Alike P (buildCall span args callee) (buildCall span' args' callee') c c' CallLike := by
  have sameEmpty : (paramItems args).isEmpty = (paramItems args').isEmpty := by
    have items := paramItems_alike argsAlike
    generalize paramItems args = xs at items ⊢
    generalize paramItems args' = xs' at items ⊢
    cases items <;> rfl
  rw [buildCall_eq, buildCall_eq, sameEmpty]
  split
  · exact calleeAlike.bind (fun _ term => (steady_callOf span term : Steady (fun _ => False) _).stuck)
      fun _ _ _ _ _ follows values => alike_callOf follows.context values
  · exact .refuse .callArguments


end Calls

/-! ## Functions -/

section Functions

variable {t t' : TableId} {phrase phrase' : Phrase} {span span' : Span}

theorem alike_buildArgument (alike : P.ContextLike c c') (paired : P.table t t')
    (phrases : Phrase.Like P.name phrase phrase') :
    Alike P (buildArgument t phrase) (buildArgument t' phrase') c c' fun P => P.TypeLike := by
  refine .afterRead alike (readsAlike_readParam phrases) fun param param' params => ?_
  refine .afterRead alike (readsAlike_buildType alike.toScope params.type) fun type type' types => ?_
  obtain ⟨P', vars, vars', tableAt, tableAt', _, follows⟩ := exists_declare
    ⟨param.name, param.nameSpan, some type, none⟩ ⟨param'.name, param'.nameSpan, some type', none⟩
    alike paired fun ref => ⟨params.name, .some types, Or.inr .none⟩
  refine .next (declare_of_table _ tableAt) (declare_of_table _ tableAt') follows ?_
  exact .pure follows.context (types.mono follows.ext.toWithin)

theorem alike_buildArguments {items items' : List Phrase} (alike : P.ContextLike c c')
    (paired : P.table t t') (phrases : List.Forall₂ (Phrase.Like P.name) items items') :
    Alike P (items.mapM (buildArgument t)) (items'.mapM (buildArgument t')) c c'
      fun P => List.Forall₂ P.TypeLike := by
  refine Alike.mapM (Q := fun P item item' => P.table t t' ∧ Phrase.Like P.name item item')
    (fun ext ⟨paired, phrases⟩ => ⟨ext.table paired, ext.name ▸ phrases⟩)
    (fun ext => Pairing.TypeLike.mono ext.toWithin)
    (fun _ item => (steady_buildArgument t item).stuck)
    (fun P item item' d d' alike ⟨paired, phrases⟩ => alike_buildArgument alike paired phrases)
    alike (phrases.imp fun _ _ phrases => ⟨paired, phrases⟩)

/-- Opening the tables of a function on both sides. -/
theorem exists_opened (alike : P.ContextLike c c') :
    ∃ P' : Pairing, P'.table c.program.tables.size c'.program.tables.size ∧
      P'.table (c.program.tables.size + 1) (c'.program.tables.size + 1) ∧
      P.Follows P' c c' (opened c) (opened c') := by
  have args := alike.program.addTable
  have locals := args.addTable
  have size : ∀ program : Program, program.addTable.tables.size = program.tables.size + 1 :=
    fun program => Array.size_push ..
  have noSlot : ∀ (context : BuildContext) (ref : VarRef),
      slotIn? (opened context).program.tables ref = none → slotIn? context.program.tables ref = none := by
    intro context ref none
    cases found : slotIn? context.program.tables ref with
    | none => rfl
    | some var =>
        cases none.symm.trans (Pairing.ProgramLike.slotIn?_addTable
          (Pairing.ProgramLike.slotIn?_addTable found))
  have ext := (Pairing.extends_addTable alike.program.size_fresh).trans
    (Pairing.extends_addTable args.size_fresh)
  refine ⟨_, Or.inl (Or.inr ⟨rfl, rfl⟩), Or.inr ⟨(size _).symm, (size _).symm⟩, ext,
    ⟨locals, ?_, alike.results.imp fun _ _ => Pairing.TypeLike.mono ext.toWithin⟩,
    ⟨[], [], by simp [opened], by simp [opened], .nil⟩, noSlot c, noSlot c', fun _ _ => Or.inl⟩
  refine .cons (Or.inr ⟨(size _).symm, (size _).symm⟩) (.cons (Or.inl (Or.inr ⟨rfl, rfl⟩)) ?_)
  exact alike.scope.imp fun _ _ => ext.table

theorem closeFunction_stuck {args : TableId} {result : Term} {argTypes body : List Term} :
    Moves Stuck (closeFunction span args result argTypes body) := by
  intro context value after run
  cases run
  exact fun P => id

/-- Adding functions with bodies that are alike, and naming them. -/
theorem alike_closeFunction {args args' : TableId} {result result' : Term}
    {argTypes argTypes' body body' : List Term} (alike : P.ContextLike c c')
    (results : P.TypeLike result result') (arguments : List.Forall₂ P.TypeLike argTypes argTypes')
    (bodies : List.Forall₂ P.StatementLike body body') :
    Alike P (closeFunction span args result argTypes body)
      (closeFunction span' args' result' argTypes' body') c c' fun P => P.ValueLike := by
  have ext := Pairing.extends_addFunction P c.program.functions.size c'.program.functions.size
  have functions : (P.addFunction c.program.functions.size c'.program.functions.size).ProgramLike
      (c.program.addFunction ⟨span, args, result, args + 1, body⟩)
      (c'.program.addFunction ⟨span', args', result', args' + 1, body'⟩) :=
    alike.program.addFunction bodies
  have types : P.TypeLike (.untyped (.functionType argTypes result) span)
      (.untyped (.functionType argTypes' result') span') :=
    Pairing.typeLike_functionType_iff.mpr ⟨arguments, results⟩
  refine .both rfl rfl ⟨ext, ⟨functions, ?_, ?_⟩, ⟨[], [], by simp [closed], by simp [closed], .nil⟩,
    fun _ => id, fun _ => id, fun _ _ => Or.inl⟩
    (.function (Or.inr ⟨rfl, rfl⟩) (types.mono ext.toWithin))
  · exact forall₂_tail (forall₂_tail (alike.scope.imp fun _ _ => ext.table))
  · exact forall₂_tail (alike.results.imp fun _ _ => .mono ext.toWithin)

/-- Function literals whose bodies are alike in any contexts. -/
theorem alike_buildFunction {params params' result result' : Phrase}
    {body body' : TableId → Build (List Term)} (alike : P.ContextLike c c')
    (paramsAlike : Phrase.Like P.name params params') (resultAlike : Phrase.Like P.name result result')
    (bodySteady : ∀ locals, Steady (· = locals) (body locals))
    (bodyAlike : ∀ P' locals locals' d d', P.Extends P' → P'.ContextLike d d' → P'.table locals locals' →
      Alike P' (body locals) (body' locals') d d' fun P => List.Forall₂ P.StatementLike) :
    Alike P (buildFunction span params result body) (buildFunction span' params' result' body') c c'
      fun P => P.ValueLike := by
  obtain ⟨P₁, argsPaired, localsPaired, opening⟩ := exists_opened alike
  have steps : Alike P₁ (buildOpened span params result body c.program.tables.size)
      (buildOpened span' params' result' body' c'.program.tables.size) (opened c) (opened c')
      fun P => P.ValueLike := by
    rw [← opening.ext.name] at paramsAlike resultAlike
    refine .afterRead opening.context (readsAlike_buildType opening.context.toScope resultAlike)
      fun resultType resultType' resultTypes => ?_
    have entering : Moves Stuck (modify fun context : BuildContext =>
        { context with results := resultType :: context.results }) := by
      intro context _ after run
      cases run
      exact fun P => id
    refine (alike_buildArguments opening.context argsPaired (paramItems_alike paramsAlike)).bind
      (fun _ _ => entering.bind fun _ => (bodySteady _).stuck.bind fun _ => closeFunction_stuck)
      fun P₂ argTypes argTypes' d d' declaring arguments => ?_
    have resultTypes₂ := resultTypes.mono declaring.ext.toWithin
    have inside : P₂.ContextLike { d with results := resultType :: d.results }
        { d' with results := resultType' :: d'.results } :=
      ⟨declaring.context.program, declaring.context.scope, .cons resultTypes₂ declaring.context.results⟩
    refine .next rfl rfl (.ofContext inside) ?_
    refine (bodyAlike P₂ _ _ _ _ (opening.ext.trans declaring.ext) inside
      (declaring.ext.table localsPaired)).bind (fun _ _ => closeFunction_stuck)
      fun P₃ statements statements' e e' follows bodies => ?_
    exact alike_closeFunction follows.context (resultTypes₂.mono follows.ext.toWithin)
      (arguments.imp fun _ _ => Pairing.TypeLike.mono follows.ext.toWithin) bodies
  let opens : Build Unit := fun context => .ok ((), opened context)
  have whole : Alike P
      (opens >>= fun _ => buildOpened span params result body c.program.tables.size)
      (opens >>= fun _ => buildOpened span' params' result' body' c'.program.tables.size) c c'
      fun P => P.ValueLike := .next rfl rfl opening steps
  exact whole.congr (buildFunction_eq ..) (buildFunction_eq ..)

end Functions

/-! ## Statements -/

section Statements

variable {locals locals' : TableId} {value value' : Term} {span span' : Span}

theorem alike_buildLocal {name : String} {nameSpan nameSpan' : Span} {type? type?' : Option Term}
    (alike : P.ContextLike c c') (paired : P.table locals locals')
    (types : Option.Rel P.TypeLike type? type?') (values : P.ValueLike value value') :
    Alike P (buildLocal locals name nameSpan span type? value)
      (buildLocal locals' (P.name name) nameSpan' span' type?' value') c c'
      fun P => Option.Rel P.StatementLike := by
  obtain ⟨P₁, vars, vars', tableAt, tableAt', pairedVars, follows⟩ := exists_declare
    ⟨name, nameSpan, type?, none⟩ ⟨P.name name, nameSpan', type?', none⟩ alike paired fun ref => ⟨rfl, types, Or.inr .none⟩
  have values₁ := values.mono follows.ext.toWithin
  refine .next (declare_of_table _ tableAt) (declare_of_table _ tableAt') follows ?_
  refine (alike_bind follows.context pairedVars values₁).bind (fun _ _ => .ite (.pure _) (.pure _)) ?_
  intro P₂ _ _ d d' follows' _
  rw [Pairing.namesType_alike values₁]
  split
  · exact .pure follows'.context .none
  · exact .pure follows'.context
      (.some (.define (follows'.ext.var pairedVars) (values₁.mono follows'.ext.toWithin)))

theorem head?_alike (span span' : Span) (alike : P.ContextLike c c') :
    P.TypeLike (c.results.head?.getD (.voidAt span)) (c'.results.head?.getD (.voidAt span')) := by
  have results := alike.results
  generalize c.results = types at results ⊢
  generalize c'.results = types' at results ⊢
  cases results with
  | nil => exact .void
  | cons first _ => exact first

theorem alike_buildBareReturn (alike : P.ContextLike c c') :
    Alike P (buildBareReturn span) (buildBareReturn span') c c' fun P => P.StatementLike := by
  have types := head?_alike span span' alike
  refine .withContext ?_
  dsimp only
  generalize c.results.head?.getD (.voidAt span) = type at types ⊢
  generalize c'.results.head?.getD (.voidAt span') = type' at types ⊢
  have refused : Alike P (do refuse (.bareReturn (← typeText (some type))) span)
      (do refuse (.bareReturn (← typeText (some type'))) span') c c' fun P => P.StatementLike :=
    .afterRead alike (readsAlike_typeText alike (.some types)) fun _ _ retold =>
      .refuse (.bareReturn retold)
  cases types with
  | void => exact .pure alike .bareReturn
  | u64 | «variable» | functionType => exact refused

theorem alike_buildReturn (alike : P.ContextLike c c') (values : P.ValueLike value value') :
    Alike P (buildReturn span value) (buildReturn span' value') c c' fun P => P.StatementLike := by
  refine .withContext (.afterRead alike (readsAlike_expect alike (head?_alike span span' alike) values ?_) ?_)
  · exact fun expected found => .returnMismatch expected found
  · exact fun _ _ _ => .pure alike (.valueReturn values)

theorem buildAssign_eq {ref : VarRef} {var : Variable} (found : slotIn? c.program.tables ref = some var) :
    buildAssign span ref value c =
      (checkFor var value >>= fun _ => pure (.untyped (.assign ref value) span)) c := by
  refine (bind_of_ok (readVar_eq_ok_iff.mpr ⟨found, rfl⟩)).trans ?_
  unfold checkFor
  cases var.type? <;> rfl

theorem alike_buildAssign {target target' : VarRef} (alike : P.ContextLike c c')
    (paired : P.var target target') (values : P.ValueLike value value') :
    Alike P (buildAssign span target value) (buildAssign span' target' value') c c'
      fun P => P.StatementLike := by
  obtain ⟨var, var', found, found', slots⟩ := alike.program.vars target target' paired
  have steps : Alike P (checkFor var value >>= fun _ => pure (.untyped (.assign target value) span))
      (checkFor var' value' >>= fun _ => pure (.untyped (.assign target' value') span')) c c'
      fun P => P.StatementLike :=
    .afterRead alike (readsAlike_checkFor alike slots values) fun _ _ _ =>
      .pure alike (.assign paired values)
  exact steps.congr (buildAssign_eq found) (buildAssign_eq found')

end Statements

/-! ## Phrases -/

/-- Types in place of values. -/
theorem alike_type {phrase phrase' : Phrase} (phrases : Phrase.Like P.name phrase phrase')
    (noName : phrase.construct.isIdent = false) (alike : P.ContextLike c c') :
    Alike P (buildType phrase) (buildType phrase') c c' fun P => P.ValueLike := by
  cases readsAlike_buildType alike.toScope phrases with
  | both run run' types =>
      exact .both run run' (.refl alike) (.type types ((TypeRun.of_ok run).1.shape_ne noName))
  | refused run run' renamed => exact .refused run run' renamed

/-- Values built from the phrase and from one that is alike, in contexts that are alike. -/
def ValueAlike (phrase : Phrase) : Prop :=
  ∀ (P : Pairing) c c' phrase', Phrase.Like P.name phrase phrase' → P.ContextLike c c' →
    Alike P (buildValue phrase) (buildValue phrase') c c' fun P => P.ValueLike

/-- Function bodies built from the phrase and from one that is alike. -/
def BodyAlike (locals : TableId) (phrase : Phrase) : Prop :=
  ∀ (P : Pairing) c c' locals' phrase', Phrase.Like P.name phrase phrase' → P.ContextLike c c' →
    P.table locals locals' →
    Alike P (buildBody locals phrase) (buildBody locals' phrase') c c'
      fun P => List.Forall₂ P.StatementLike

/-- Statements built from the phrases of a block and from ones that are alike. -/
def StatementsAlike (locals : TableId) (phrases : List Phrase) : Prop :=
  ∀ (P : Pairing) c c' locals' phrases', List.Forall₂ (Phrase.Like P.name) phrases phrases' →
    P.ContextLike c c' → P.table locals locals' →
    Alike P (buildStatements locals phrases) (buildStatements locals' phrases') c c'
      fun P => List.Forall₂ P.StatementLike

/-- A statement built from the phrase and from one that is alike. -/
def StatementAlike (locals : TableId) (phrase : Phrase) : Prop :=
  ∀ (P : Pairing) c c' locals' phrase', Phrase.Like P.name phrase phrase' → P.ContextLike c c' →
    P.table locals locals' →
    Alike P (buildStatement locals phrase) (buildStatement locals' phrase') c c'
      fun P => Option.Rel P.StatementLike

/-- Statements that are always there to execute. -/
theorem Alike.statement {m m' : Build Term} (alike : Alike P m m' c c' fun P => P.StatementLike) :
    Alike P (do return some (← m)) (do return some (← m')) c c' fun P => Option.Rel P.StatementLike :=
  alike.bind (fun _ _ => .pure _) fun _ _ _ _ _ follows statements => .pure follows.context (.some statements)

theorem alike_sum {left right : Phrase} {span : Span} (leftIh : ValueAlike left) (rightIh : ValueAlike right) :
    ValueAlike ⟨.sum left right, span⟩ := by
  rintro P c c' ⟨_, span'⟩ phrases alike
  cases phrases.construct with
  | sum left right =>
      rw [buildValue, buildValue]
      have checks : ∀ left right : Term, Moves Stuck (do
          expectU64 .sumOperand left
          expectU64 .sumOperand right
          return Term.typed (.sum left right) (.u64At span) span) := fun left right =>
        (Moves.ofReads (reads_expectU64 _ _)).bind fun _ =>
          (Moves.ofReads (reads_expectU64 _ _)).bind fun _ => .pure _
      refine (leftIh P c c' _ left alike).bind
        (fun _ _ => (leaves_buildValue _).stuck.bind fun _ => checks _ _)
        fun P₁ leftTerm leftTerm' d d' follows leftValues => ?_
      refine (rightIh P₁ d d' _ (follows.ext.name ▸ right) follows.context).bind
        (fun _ _ => checks _ _) fun P₂ rightTerm rightTerm' e e' follows' rightValues => ?_
      have leftValues₂ := leftValues.mono follows'.ext.toWithin
      refine .afterRead follows'.context (readsAlike_expectU64 _ follows'.context leftValues₂) ?_
      intro _ _ _
      refine .afterRead follows'.context (readsAlike_expectU64 _ follows'.context rightValues) ?_
      exact fun _ _ _ => .pure follows'.context (.sum leftValues₂ rightValues)

theorem alike_binding {locals : TableId} {name value : Phrase} {type? : Option Phrase} {span : Span}
    (valueIh : ValueAlike value) : StatementAlike locals ⟨.binding name type? (some value), span⟩ := by
  rintro P c c' locals' ⟨_, span'⟩ phrases alike paired
  cases phrases.construct with
  | binding name types value =>
      cases value with
      | some value =>
          rw [buildStatement, buildStatement]
          refine .afterRead alike (readsAlike_nameOf name) ?_
          rintro text _ rfl
          refine .afterRead alike (readsAlike_optionalType alike.toScope types) fun type? type?' types => ?_
          refine (valueIh P c c' _ value alike).bind
            (fun _ _ => (steady_buildLocal locals _ _ span _ _).stuck)
            fun P₁ term term' d d' follows values => ?_
          rw [← follows.ext.name]
          exact alike_buildLocal follows.context (follows.ext.table paired)
            (Pairing.typesLike_mono follows.ext.toWithin types) values

/-- A statement before others. -/
theorem alike_next {locals : TableId} {inner : Phrase} {span : Span} {rest : List Phrase}
    (innerIh : StatementAlike locals inner) (restIh : StatementsAlike locals rest) :
    StatementsAlike locals (⟨.statement inner, span⟩ :: rest) := by
  rintro P c c' locals' _ (_ | ⟨first, others⟩) alike paired
  rename_i phrase' rest'
  obtain ⟨construct', span'⟩ := phrase'
  cases first.construct with
  | statement inner =>
      rw [buildStatements, buildStatements]
      refine (innerIh P c c' locals' _ inner alike paired).bind
        (fun _ _ => (leaves_phrases.2.2.1 locals _).stuck.bind fun _ => .pure _)
        fun P₁ first first' d d' follows firsts => ?_
      refine (restIh P₁ d d' locals' _ (follows.ext.name ▸ others) follows.context
        (follows.ext.table paired)).bind (fun _ _ => .pure _)
        fun P₂ statements statements' e e' follows' rests => ?_
      refine .pure follows'.context (List.rel_append ?_ rests)
      cases firsts with
      | none => exact .nil
      | some statement => exact .cons (statement.mono follows'.ext.toWithin) .nil

/-- Building phrases that differ only in names and places, by the kind of place they stand in. -/
theorem alike_phrases :
    (∀ phrase, ValueAlike phrase) ∧ (∀ locals phrase, BodyAlike locals phrase) ∧
    (∀ locals phrases, StatementsAlike locals phrases) ∧ (∀ locals phrase, StatementAlike locals phrase) := by
  apply phrase_induction
  case int =>
    rintro value span P c c' ⟨_, span'⟩ phrases alike
    cases phrases.construct
    rw [buildValue, buildValue]
    exact .pure alike .int
  case ident =>
    rintro name span P c c' ⟨_, span'⟩ phrases alike
    cases phrases.construct
    rw [buildValue, buildValue]
    refine .afterRead alike (readsAlike_resolve alike.toScope name span span') fun ref ref' paired => ?_
    refine .afterRead alike (readsAlike_readVar alike paired) fun var var' slots => ?_
    exact .pure alike (.variable paired slots.types)
  case type =>
    rintro phrase isType noName P c c' phrase' phrases alike
    have kinds := phrases.construct
    rw [buildValue_type isType noName, buildValue_type (kinds.isType_eq.trans isType)
      (kinds.isIdent_eq.trans noName)]
    exact alike_type phrases noName alike
  case function =>
    rintro params result body span bodyIh P c c' ⟨_, span'⟩ phrases alike
    cases phrases.construct with
    | function params result body =>
        rw [buildValue, buildValue]
        exact alike_buildFunction alike params result (fun locals => leaves_phrases.2.1 locals _)
          fun P' locals locals' d d' ext inside paired =>
            bodyIh locals P' d d' locals' _ (ext.name ▸ body) inside paired
  case sum =>
    intro left right span leftIh rightIh
    exact alike_sum leftIh rightIh
  case call =>
    rintro callee args span calleeIh P c c' ⟨_, span'⟩ phrases alike
    cases phrases.construct with
    | call callee args =>
        rw [buildValue, buildValue]
        exact (alike_buildCall args (calleeIh P c c' _ callee alike)).mono fun _ _ _ _ calls => calls.2
  case noValue =>
    rintro phrase noValue P c c' phrase' phrases alike
    have kinds := phrases.construct
    rw [buildValue_refused noValue, buildValue_refused (kinds.isValue_eq.trans noValue)]
    exact .refuse (kinds.name_eq ▸ .notAValue _)
  case block =>
    rintro locals children span childrenIh P c c' locals' ⟨_, span'⟩ phrases alike paired
    cases phrases.construct with
    | curly children =>
        rw [buildBody, buildBody]
        exact childrenIh P c c' locals' _ children alike paired
  case noBlock =>
    rintro locals phrase noBlock P c c' locals' phrase' phrases alike paired
    have kinds := phrases.construct
    rw [buildBody_refused noBlock, buildBody_refused (kinds.isCurly_eq.trans noBlock)]
    exact .refuse (kinds.name_eq ▸ .notAStatement _)
  case done =>
    rintro locals P c c' locals' _ ⟨⟩ alike paired
    rw [buildStatements, buildStatements]
    exact .pure alike .nil
  case next =>
    intro locals inner span rest innerIh restIh
    exact alike_next innerIh restIh
  case unclosed =>
    rintro locals phrase rest unclosed P c c' locals' _ (_ | ⟨first, others⟩) alike paired
    have kinds := first.construct
    rw [buildStatements_refused unclosed, buildStatements_refused]
    · exact .refuse (kinds.name_eq ▸ .notAStatement _)
    · intro inner isStatement
      rw [isStatement] at kinds
      generalize phrase.construct = construct at kinds unclosed
      cases kinds
      exact unclosed _ rfl
  case binding =>
    intro locals name type? value span valueIh
    exact alike_binding valueIh
  case missingValue =>
    rintro locals name type? span P c c' locals' ⟨_, span'⟩ phrases alike paired
    cases phrases.construct with
    | binding name types value =>
        cases value
        rw [buildStatement, buildStatement]
        refine .afterRead alike (readsAlike_nameOf name) ?_
        rintro text _ rfl
        exact .refuse (.missingValue text)
  case print =>
    rintro locals operand span operandIh P c c' locals' ⟨_, span'⟩ phrases alike paired
    cases phrases.construct with
    | printU64 operand =>
        rw [buildStatement, buildStatement]
        refine (operandIh P c c' _ operand alike).bind
          (fun _ _ => (Moves.ofReads (reads_expectU64 _ _)).bind fun _ => .pure _)
          fun P₁ term term' d d' follows values => ?_
        refine .afterRead follows.context (readsAlike_expectU64 _ follows.context values) fun _ _ _ => ?_
        exact .pure follows.context (.some (.print values))
  case bareReturn =>
    rintro locals span P c c' locals' ⟨_, span'⟩ phrases alike paired
    cases phrases.construct with
    | returnWith operand =>
        cases operand
        rw [buildStatement, buildStatement]
        exact (alike_buildBareReturn alike).statement
  case valueReturn =>
    rintro locals operand span operandIh P c c' locals' ⟨_, span'⟩ phrases alike paired
    cases phrases.construct with
    | returnWith operand =>
        cases operand with
        | some operand =>
            rw [buildStatement, buildStatement]
            exact (operandIh P c c' _ operand alike).bind
              (fun _ _ => (steady_buildReturn span _ : Steady (fun _ => False) _).stuck.bind fun _ => .pure _)
              fun P₁ term term' d d' follows values => (alike_buildReturn follows.context values).statement
  case assign =>
    rintro locals target value span valueIh P c c' locals' ⟨_, span'⟩ phrases alike paired
    cases phrases.construct with
    | assign target value =>
        rw [buildStatement, buildStatement]
        refine .afterRead alike (readsAlike_nameOf target) ?_
        rintro text _ rfl
        refine .afterRead alike (readsAlike_resolve alike.toScope text _ _) fun ref ref' pairedVars => ?_
        refine (valueIh P c c' _ value alike).bind
          (fun _ _ => (steady_buildAssign span _ _ : Steady (fun _ => False) _).stuck.bind fun _ => .pure _)
          fun P₁ term term' d d' follows values => ?_
        exact (alike_buildAssign follows.context (follows.ext.var pairedVars) values).statement
  case callAlone =>
    rintro locals callee args span calleeIh P c c' locals' ⟨_, span'⟩ phrases alike paired
    cases phrases.construct with
    | call callee args =>
        rw [buildStatement, buildStatement]
        refine Alike.statement (Alike.mono (alike_buildCall args (calleeIh P c c' _ callee alike)) ?_)
        exact fun _ _ _ _ calls => calls.1
  case noStatement =>
    rintro locals phrase noStatement P c c' locals' phrase' phrases alike paired
    have kinds := phrases.construct
    rw [buildStatement_refused noStatement, buildStatement_refused (kinds.isStatement_eq.trans noStatement)]
    exact .refuse (kinds.name_eq ▸ .unsupportedStatement _)

/-- Building values from phrases that differ only in names and places. -/
theorem alike_buildValue {phrase phrase' : Phrase} (phrases : Phrase.Like P.name phrase phrase')
    (alike : P.ContextLike c c') :
    Alike P (buildValue phrase) (buildValue phrase') c c' fun P => P.ValueLike :=
  alike_phrases.1 phrase P c c' phrase' phrases alike

end Build

end Rill

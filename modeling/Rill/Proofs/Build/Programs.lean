import Mathlib
import Rill.Proofs.Build.Phrases

/-!
# Building a whole program

The four steps of the top level each walk a list. `wp_forM` carries an invariant over the part of the
list that is still to be walked; the invariants say which globals are still without a type or without
a value.

The main result is `wp_topLevel`: a build meets no fault, and a program that it gives is complete. A
complete program is a sound scene in which every global has a value, no call is left to be judged,
and every table of locals belongs to a function.
-/

namespace Rill

/-! ## Complete programs -/

/-- What holds of the scene of a finished program. -/
structure Scene.Complete (s : Scene) : Prop where
  sound : s.Sound
  settled : ∀ call ∈ s.deferred, ∃ var result inner span, s.slot? call.callee = some var ∧
    var.type? = some ⟨.functionType [] result, inner, span⟩
  bound : ∀ index var, s.slot? ⟨s.program.globals, index⟩ = some var →
    ∃ value, var.value? = some value
  owned : ∀ (t : TableId) (frame : Frame), s.frames[t]? = some frame → frame.role = .locals →
    ∃ f ∈ s.program.functions, f.locals = t

/-- In a complete program every call is of a variable with a function type, and has the result of that
type if it has a type at all. -/
theorem Scene.Complete.callType {s : Scene} (complete : s.Complete) {callee : VarRef}
    {type? : Option Term} (callType : s.CallType callee type?) :
    ∃ var result inner span, s.slot? callee = some var ∧
      var.type? = some ⟨.functionType [] result, inner, span⟩ ∧
      ∀ type, type? = some type → type = result := by
  rcases callType with ⟨var, result, inner, span, found, typed, equal⟩ | ⟨none, call, member, same⟩
  · refine ⟨var, result, inner, span, found, typed, fun type typeEq => ?_⟩
    rw [equal] at typeEq
    exact (Option.some.inj typeEq).symm
  · obtain ⟨var, result, inner, span, found, typed⟩ := complete.settled call member
    rw [same] at found
    refine ⟨var, result, inner, span, found, typed, fun type typeEq => ?_⟩
    rw [none] at typeEq
    cases typeEq

namespace Build

open BuildContext (Reaches)

variable {context : BuildContext} {frames : Array Frame} {pending : List Pending}

/-- A walk over a list keeps an invariant of the part that is left. -/
theorem wp_forM {α : Type} {m : α → Build Unit} (inv : List α → BuildContext → Prop)
    (step : ∀ x rest context, inv (x :: rest) context →
      wp (m x) (fun _ after => inv rest after) context) (xs : List α) :
    ∀ context, inv xs context → wp (xs.forM m) (fun _ after => inv [] after) context := by
  induction xs with
  | nil =>
      intro context holds
      exact holds
  | cons x rest ih =>
      intro context holds
      rw [List.forM_eq_forM, List.forM_cons, wp_bind]
      refine wp_mono (step x rest context holds) fun _ after holds' => ?_
      exact ih after holds'

/-! ## Declaring -/

/-- The top-level bindings stand for the globals, one for each and in no other place. -/
structure Declared (pending : List Pending) (context : BuildContext) (frames : Array Frame) : Prop where
  sound : context.Sound frames
  scope : context.scope = [context.program.globals]
  refs : ∀ p ∈ pending, p.ref.table = context.program.globals
  distinct : (pending.map (·.ref)).Nodup
  covers : ∀ index var, slotIn? context.program.tables ⟨context.program.globals, index⟩ = some var →
    ∃ p ∈ pending, p.ref = ⟨context.program.globals, index⟩

theorem Declared.globalsAt (declared : Declared pending context frames) :
    frames[context.program.globals]? = some ⟨.globals, [context.program.globals]⟩ :=
  declared.sound.scene.globals

/-- A variable of the top level that has neither a type nor a value. -/
def IsBlank (context : BuildContext) (ref : VarRef) : Prop :=
  ∃ var, slotIn? context.program.tables ref = some var ∧ var.type? = none ∧ var.value? = none

theorem slotOk_blank {s : Scene} {frame : Frame} {var : Variable} (role : frame.role = .globals)
    (untyped : var.type? = none) (empty : var.value? = none) : s.SlotOk frame var := by
  refine ⟨fun type equal => ?_, fun value equal => ?_, fun isArguments => ?_, fun isLocals => ?_⟩
  · rw [untyped] at equal
    cases equal
  · rw [empty] at equal
    cases equal
  · cases role.symm.trans isArguments
  · cases role.symm.trans isLocals

/-- Declaring one more global. -/
theorem Declared.declare {vars : VariableTable} {var : Variable} {p : Pending}
    (declared : Declared pending context frames)
    (tableAt : context.program.tables[context.program.globals]? = some vars)
    (untyped : var.type? = none) (empty : var.value? = none)
    (placed : p.ref = ⟨context.program.globals, vars.size⟩)
    (inTable : ∀ q ∈ pending, ∃ var, slotIn? context.program.tables q.ref = some var) :
    Declared (pending ++ [p])
      { context with program := context.program.declare context.program.globals var } frames := by
  have role : (⟨.globals, [context.program.globals]⟩ : Frame).role ≠ .arguments := by simp
  have ext := Scene.extends_declare tableAt declared.globalsAt role var (s := context.scene frames)
  have slotOk : (context.scene frames).SlotOk ⟨.globals, [context.program.globals]⟩ var :=
    slotOk_blank rfl untyped empty
  have sound := declared.sound
  refine ⟨⟨sound.scene.declare tableAt declared.globalsAt role slotOk, sound.scope,
    fun result member => ext.typeIn (sound.results result member), sound.owned⟩,
    declared.scope, fun q member => ?_, ?_, fun index found foundAt => ?_⟩
  · rcases List.mem_append.mp member with old | new
    · exact declared.refs q old
    · cases List.mem_singleton.mp new
      rw [placed]
      rfl
  · rw [List.map_append, List.nodup_append]
    refine ⟨declared.distinct, by simp, fun ref oldRef other newRef same => ?_⟩
    obtain ⟨q, member, refEq⟩ := List.mem_map.mp oldRef
    obtain ⟨old, oldAt⟩ := inTable q member
    have newEq : other = p.ref := by simpa using newRef
    rw [refEq, same, newEq, placed] at oldAt
    cases oldAt.symm.trans (Scene.slot?_end tableAt (s := context.scene frames))
  · have foundAt' := foundAt
    change slotIn? (context.program.tables.modify _ _) _ = _ at foundAt'
    rw [slotIn?_declare tableAt] at foundAt'
    split at foundAt'
    · next isLast =>
      refine ⟨p, List.mem_append_right _ (by simp), ?_⟩
      rw [placed]
      exact isLast.symm
    · obtain ⟨q, member, refEq⟩ := declared.covers index found foundAt'
      exact ⟨q, List.mem_append_left _ member, refEq⟩

theorem IsBlank.declare {vars : VariableTable} {var : Variable} {t : TableId} {ref : VarRef}
    (blank : IsBlank context ref) (tableAt : context.program.tables[t]? = some vars) :
    IsBlank { context with program := context.program.declare t var } ref := by
  obtain ⟨old, oldAt, isBlank⟩ := blank
  refine ⟨old, ?_, isBlank⟩
  change slotIn? (context.program.tables.modify _ _) _ = _
  rw [slotIn?_declare tableAt, if_neg ?_, oldAt]
  intro isLast
  rw [isLast] at oldAt
  cases oldAt.symm.trans (Scene.slot?_end tableAt (s := context.scene #[]))

theorem wp_declareGlobal {earlier : List Pending} (phrase : Phrase)
    (declared : Declared earlier context frames) (blank : ∀ p ∈ earlier, IsBlank context p.ref) :
    wp (declareGlobal context.program.globals phrase)
      (fun p after => after.program.globals = context.program.globals ∧
        Declared (earlier ++ [p]) after frames ∧ ∀ q ∈ earlier ++ [p], IsBlank after q.ref)
      context := by
  have inFrames := (Array.getElem?_eq_some_iff.mp declared.globalsAt).1
  have inTables : context.program.globals < context.program.tables.size :=
    Nat.lt_of_lt_of_eq inFrames declared.sound.scene.size
  have tableAt := Array.getElem?_eq_getElem inTables
  unfold declareGlobal
  split
  · split
    · next namePhrase type? value? _ =>
      rw [wp_bind]
      refine wp_mono (wp_nameOf namePhrase) fun name after same => ?_
      subst same
      rw [wp_bind, wp_declare tableAt, wp_pure]
      refine ⟨rfl, declared.declare tableAt rfl rfl rfl fun q member => ?_, fun q member => ?_⟩
      · obtain ⟨var, varAt, _⟩ := blank q member
        exact ⟨var, varAt⟩
      · rcases List.mem_append.mp member with old | new
        · exact (blank q old).declare tableAt
        · cases List.mem_singleton.mp new
          exact ⟨_, (slotIn?_declare tableAt _ _).trans (if_pos rfl), rfl, rfl⟩
    · trivial
  · trivial

/-- The names of the top level are declared in order, each as a blank variable of its own. -/
theorem wp_declareGlobals (phrases : List Phrase) :
    ∀ (context : BuildContext) (earlier : List Pending), Declared earlier context frames →
      (∀ p ∈ earlier, IsBlank context p.ref) →
      wp (phrases.mapM (declareGlobal context.program.globals))
        (fun pending after => Declared (earlier ++ pending) after frames ∧
          ∀ p ∈ earlier ++ pending, IsBlank after p.ref) context := by
  induction phrases with
  | nil =>
      intro context earlier declared blank
      rw [List.mapM_nil, wp_pure, List.append_nil]
      exact ⟨declared, blank⟩
  | cons phrase phrases ih =>
      intro context earlier declared blank
      rw [List.mapM_cons, wp_bind]
      refine wp_mono (wp_declareGlobal phrase declared blank) ?_
      intro p after ⟨sameGlobals, declared', blank'⟩
      rw [wp_bind, ← sameGlobals]
      refine wp_mono (ih after _ declared' blank') fun pending last holds => ?_
      rw [wp_pure, List.append_cons]
      exact holds

/-! ## Annotating and filling -/

/-- Changing a global to a variable that fits the scene. -/
theorem Declared.modifyVar {p : Pending} {var : Variable} {change : Variable → Variable}
    (declared : Declared pending context frames) (member : p ∈ pending)
    (found : slotIn? context.program.tables p.ref = some var) (grows : Scene.Grows var (change var))
    (slotOk : (context.scene frames).SlotOk ⟨.globals, [context.program.globals]⟩ (change var)) :
    Declared pending { context with program := context.program.modifyVar p.ref change } frames := by
  have frameAt : (context.scene frames).frames[p.ref.table]? =
      some ⟨.globals, [context.program.globals]⟩ := by
    rw [declared.refs p member]
    exact declared.globalsAt
  have role : (⟨.globals, [context.program.globals]⟩ : Frame).role ≠ .arguments := by simp
  have ext := Scene.extends_modifyVar found frameAt role grows (s := context.scene frames)
  have sound := declared.sound
  refine ⟨⟨sound.scene.modifyVar found frameAt role grows slotOk, sound.scope,
    fun result member => ext.typeIn (sound.results result member), sound.owned⟩,
    declared.scope, declared.refs, declared.distinct, fun index found foundAt => ?_⟩
  change slotIn? (context.program.tables.modify _ _) _ = _ at foundAt
  rw [slotIn?_modifyVar] at foundAt
  split at foundAt
  · obtain ⟨old, oldAt, _⟩ := Option.map_eq_some_iff.mp foundAt
    exact declared.covers index old oldAt
  · exact declared.covers index found foundAt

/-- The bindings of `rest` are globals without a type, and no global has a value. -/
structure Annotating (pending rest : List Pending) (context : BuildContext) (frames : Array Frame) :
    Prop where
  declared : Declared pending context frames
  suffix : rest <:+ pending
  blank : ∀ p ∈ rest, IsBlank context p.ref
  empty : ∀ p ∈ pending, ∃ var, slotIn? context.program.tables p.ref = some var ∧ var.value? = none

theorem Declared.fresh {p : Pending} {rest : List Pending} (declared : Declared pending context frames)
    (suffix : p :: rest <:+ pending) {q : Pending} (member : q ∈ rest) : q.ref ≠ p.ref := by
  have distinct := (suffix.sublist.map (·.ref)).nodup declared.distinct
  rw [List.map_cons, List.nodup_cons] at distinct
  intro same
  exact distinct.1 (same ▸ List.mem_map_of_mem member)

theorem slotIn?_modifyVar_of_ne {program : Program} {ref target : VarRef}
    {change : Variable → Variable} (different : ref ≠ target) :
    slotIn? (program.modifyVar target change).tables ref = slotIn? program.tables ref := by
  change slotIn? (program.tables.modify _ _) _ = _
  rw [slotIn?_modifyVar, if_neg different]

theorem slotIn?_modifyVar_same {program : Program} {target : VarRef} {change : Variable → Variable}
    {var : Variable} (found : slotIn? program.tables target = some var) :
    slotIn? (program.modifyVar target change).tables target = some (change var) := by
  change slotIn? (program.tables.modify _ _) _ = _
  rw [slotIn?_modifyVar, if_pos rfl, found, Option.map_some]

theorem Annotating.annotate {p : Pending} {rest : List Pending} {type? : Option Term}
    (holds : Annotating pending (p :: rest) context frames)
    (typeIn : ∀ type, type? = some type → TypeIn context.program.tables type) :
    Annotating pending rest
      { context with program := context.program.modifyVar p.ref fun var => { var with type? } }
      frames := by
  have declared := holds.declared
  have member : p ∈ pending := holds.suffix.subset (by simp)
  obtain ⟨var, found, untyped, empty⟩ := holds.blank p (by simp)
  have grows : Scene.Grows var { var with type? } := by
    refine ⟨rfl, fun type equal => ?_, fun value equal => ?_⟩
    · cases untyped.symm.trans equal
    · cases empty.symm.trans equal
  have slotOk : (context.scene frames).SlotOk ⟨.globals, [context.program.globals]⟩
      { var with type? } := by
    refine ⟨typeIn, fun value equal => ?_, fun role => ?_, fun role => ?_⟩
    · cases empty.symm.trans equal
    · cases role
    · cases role
  refine ⟨declared.modifyVar member found grows slotOk, (List.suffix_cons p rest).trans holds.suffix,
    fun q inRest => ?_, fun q inPending => ?_⟩
  · unfold IsBlank
    rw [slotIn?_modifyVar_of_ne (declared.fresh holds.suffix inRest)]
    exact holds.blank q (List.mem_cons_of_mem p inRest)
  · by_cases same : q.ref = p.ref
    · rw [same, slotIn?_modifyVar_same found]
      exact ⟨_, rfl, empty⟩
    · rw [slotIn?_modifyVar_of_ne same]
      exact holds.empty q inPending

theorem wp_annotate {p : Pending} {rest : List Pending}
    (holds : Annotating pending (p :: rest) context frames) :
    wp (annotate p) (fun _ after => Annotating pending rest after frames) context := by
  have scope := holds.declared.sound.scopeIn
  unfold annotate
  dsimp only
  split
  · next type _ =>
    rw [wp_bind, wp_map]
    refine wp_mono (wp_buildType type scope) fun built after ⟨same, inTables⟩ => ?_
    subst same
    refine holds.annotate fun type equal => ?_
    cases equal
    exact inTables
  · next value _ _ =>
    rw [wp_bind]
    refine wp_mono (wp_literalType? value scope) fun type? after ⟨same, typeIn⟩ => ?_
    subst same
    exact holds.annotate typeIn
  · exact holds.annotate (by simp)

/-- The bindings of `rest` are globals without a value; the other globals have theirs. -/
structure Filling (pending rest : List Pending) (context : BuildContext) (frames : Array Frame) :
    Prop where
  declared : Declared pending context frames
  suffix : rest <:+ pending
  empty : ∀ p ∈ rest, ∃ var, slotIn? context.program.tables p.ref = some var ∧ var.value? = none
  bound : ∀ p ∈ pending, p ∈ rest ∨
    ∃ var value, slotIn? context.program.tables p.ref = some var ∧ var.value? = some value

theorem globalSlot_of_reaches {after : BuildContext} {frames' : Array Frame} {ref : VarRef}
    (reaches : Reaches context frames after frames') (isGlobal : ref.table = context.program.globals) :
    slotIn? after.program.tables ref = slotIn? context.program.tables ref := by
  unfold slotIn?
  rw [isGlobal, reaches.globals]

theorem Filling.reaches {rest : List Pending} {after : BuildContext} {frames' : Array Frame}
    (holds : Filling pending rest context frames) (reaches : Reaches context frames after frames')
    (sound : after.Sound frames') : Filling pending rest after frames' := by
  have declared := holds.declared
  have sameGlobals : after.program.globals = context.program.globals := reaches.ext.globals
  refine ⟨⟨sound, ?_, fun p member => ?_, declared.distinct, fun index var found => ?_⟩, holds.suffix,
    fun p member => ?_, fun p member => ?_⟩
  · rw [reaches.scope, sameGlobals]
    exact declared.scope
  · rw [sameGlobals]
    exact declared.refs p member
  · rw [sameGlobals, globalSlot_of_reaches reaches rfl] at found
    rw [sameGlobals]
    exact declared.covers index var found
  · rw [globalSlot_of_reaches reaches (declared.refs p (holds.suffix.subset member))]
    exact holds.empty p member
  · rw [globalSlot_of_reaches reaches (declared.refs p member)]
    exact holds.bound p member

theorem Filling.fill {p : Pending} {rest : List Pending} {var : Variable} {value : Term}
    (holds : Filling pending (p :: rest) context frames)
    (found : slotIn? context.program.tables p.ref = some var) (empty : var.value? = none)
    (isValue : (context.scene frames).Value context.scope value)
    (satisfied : ∀ type, var.type? = some type → type.satisfies value = .ok true) :
    Filling pending rest
      { context with program := context.program.modifyVar p.ref (filled value) } frames := by
  have declared := holds.declared
  have member : p ∈ pending := holds.suffix.subset (by simp)
  have typeIn : ∀ type, var.type? = some type → TypeIn context.program.tables type :=
    fun type typed => declared.sound.scene.slot_type found typed
  have valueType := value_type_in declared.sound isValue
  have grows : Scene.Grows var (filled value var) := by
    refine ⟨rfl, fun type typed => ?_, fun held equal => ?_⟩
    · simp [filled, typed]
    · cases empty.symm.trans equal
  have slotOk : (context.scene frames).SlotOk ⟨.globals, [context.program.globals]⟩
      (filled value var) := by
    refine ⟨fun type => filled_type_in typeIn valueType, fun held equal => ?_, fun role => ?_,
      fun role => ?_⟩
    · cases equal
      rw [declared.scope] at isValue
      exact ⟨isValue, agrees_filled declared.sound.scene typeIn isValue satisfied⟩
    · cases role
    · cases role
  refine ⟨declared.modifyVar member found grows slotOk, (List.suffix_cons p rest).trans holds.suffix,
    fun q inRest => ?_, fun q inPending => ?_⟩
  · rw [slotIn?_modifyVar_of_ne (declared.fresh holds.suffix inRest)]
    exact holds.empty q (List.mem_cons_of_mem p inRest)
  · by_cases same : q.ref = p.ref
    · rw [same, slotIn?_modifyVar_same found]
      exact Or.inr ⟨_, value, rfl, rfl⟩
    · rw [slotIn?_modifyVar_of_ne same]
      rcases holds.bound q inPending with inRest | bound
      · rcases List.mem_cons.mp inRest with isFirst | later
        · exact absurd (congrArg Pending.ref isFirst) same
        · exact Or.inl later
      · exact Or.inr bound

theorem wp_fill {p : Pending} {rest : List Pending}
    (holds : Filling pending (p :: rest) context frames) :
    wp (fill p) (fun _ after => ∃ frames', Filling pending rest after frames') context := by
  obtain ⟨var, found, empty⟩ := holds.empty p (by simp)
  unfold fill
  split
  · next value _ =>
    rw [wp_bind]
    refine wp_mono (keeps_buildValue value holds.declared.sound) ?_
    intro built after ⟨frames', sound, reaches, isValue⟩
    have holds' := holds.reaches reaches sound
    obtain ⟨var', found', empty'⟩ := holds'.empty p (by simp)
    rw [← reaches.scope] at isValue
    refine wp_bindValue found' (fun type typed => sound.scene.slot_type found' typed)
      (value_type_in sound isValue) fun satisfied => ?_
    exact ⟨frames', holds'.fill found' empty' isValue satisfied⟩
  · simp only [wp_bind, wp_readVar, wp_refuse]
    exact ⟨var, found, trivial⟩

/-! ## Judging the deferred calls -/

/-- Once every global has a value, every variable has a type or a value. -/
theorem Filling.known (holds : Filling pending [] context frames) {ref : VarRef} {var : Variable}
    (found : slotIn? context.program.tables ref = some var) :
    (∃ type, var.type? = some type) ∨ ∃ value, var.value? = some value := by
  have sound := holds.declared.sound.scene
  obtain ⟨⟨role, chain⟩, frameAt⟩ := sound.frame_of_slot found
  have slotOk := sound.slots ref var _ found frameAt
  cases role with
  | arguments => exact Or.inl (slotOk.argument rfl).2
  | locals => exact Or.inr (slotOk.isBound rfl)
  | globals =>
      have isGlobal := sound.isGlobals _ _ frameAt rfl
      obtain ⟨t, index⟩ := ref
      cases isGlobal
      obtain ⟨p, member, refEq⟩ := holds.declared.covers index var found
      obtain ⟨var', value, found', held⟩ := (holds.bound p member).resolve_left (by simp)
      rw [refEq] at found'
      cases found.symm.trans found'
      exact Or.inr ⟨value, held⟩

theorem wp_recheck {call : DeferredCall} (holds : Filling pending [] context frames)
    (member : call ∈ context.deferred) :
    wp (recheck call) (fun _ after => after = context ∧
      ∃ var result inner span, slotIn? context.program.tables call.callee = some var ∧
        var.type? = some ⟨.functionType [] result, inner, span⟩) context := by
  have sound := holds.declared.sound.scene
  obtain ⟨var, found⟩ := sound.deferred call member
  unfold recheck
  rw [wp_bind]
  refine wp_mono (wp_callType? sound found) fun type? after ⟨same, answer⟩ => ?_
  subst same
  rcases answer with ⟨result, inner, span, typed, _⟩ | ⟨untyped, empty, _⟩
  · exact ⟨rfl, var, result, inner, span, found, typed⟩
  · rcases holds.known found with ⟨type, typed⟩ | ⟨value, held⟩
    · cases untyped.symm.trans typed
    · cases empty.symm.trans held

theorem wp_rechecks (holds : Filling pending [] context frames) :
    wp (context.deferred.forM recheck) (fun _ after => after = context ∧
      ∀ call ∈ context.deferred, ∃ var result inner span,
        slotIn? context.program.tables call.callee = some var ∧
          var.type? = some ⟨.functionType [] result, inner, span⟩) context := by
  let judged (call : DeferredCall) : Prop := ∃ var result inner span,
    slotIn? context.program.tables call.callee = some var ∧
      var.type? = some ⟨.functionType [] result, inner, span⟩
  have walked := wp_forM (m := recheck)
    (fun rest after => after = context ∧ rest ⊆ context.deferred ∧
      ∀ call ∈ context.deferred, call ∈ rest ∨ judged call)
    (by
      rintro call rest _ ⟨rfl, subset, rest_or_judged⟩
      refine wp_mono (wp_recheck holds (subset (by simp))) fun _ after ⟨same, isJudged⟩ => ?_
      refine ⟨same, fun other member => subset (List.mem_cons_of_mem _ member), fun other member => ?_⟩
      rcases rest_or_judged other member with inRest | done
      · rcases List.mem_cons.mp inRest with isFirst | later
        · exact Or.inr (isFirst ▸ isJudged)
        · exact Or.inl later
      · exact Or.inr done)
    context.deferred context ⟨rfl, List.Subset.refl _, fun call member => Or.inl member⟩
  refine wp_mono walked fun _ after ⟨same, _, done⟩ => ⟨same, fun call member => ?_⟩
  exact (done call member).resolve_left (by simp)

/-! ## The whole build -/

theorem Filling.complete (holds : Filling pending [] context frames)
    (settled : ∀ call ∈ context.deferred, ∃ var result inner span,
      slotIn? context.program.tables call.callee = some var ∧
        var.type? = some ⟨.functionType [] result, inner, span⟩) :
    (context.scene frames).Complete where
  sound := holds.declared.sound.scene
  settled := settled
  bound index var found := by
    obtain ⟨p, member, refEq⟩ := holds.declared.covers index var found
    obtain ⟨var', value, found', held⟩ := (holds.bound p member).resolve_left (by simp)
    rw [refEq] at found'
    cases found.symm.trans found'
    exact ⟨value, held⟩
  owned t frame frameAt isLocals := by
    rcases holds.declared.sound.owned t frame frameAt isLocals with owned | inScope
    · exact owned
    · rw [holds.declared.scope] at inScope
      cases List.mem_singleton.mp inScope
      cases frameAt.symm.trans holds.declared.globalsAt
      cases isLocals

/-- The context that a build starts in. -/
def start : BuildContext :=
  { program := .empty, scope := [Program.empty.globals], results := [], deferred := [] }

theorem declared_start : Declared [] start #[⟨.globals, [0]⟩] := by
  have noSlot : ∀ ref, slotIn? start.program.tables ref = none := by
    rintro ⟨t, index⟩
    cases t <;> simp [slotIn?, start, Program.empty]
  have frameAt : ∀ (t : TableId) (frame : Frame), (#[⟨.globals, [0]⟩] : Array Frame)[t]? = some frame →
      t = 0 ∧ frame = ⟨.globals, [0]⟩ := by
    intro t frame found
    cases t <;> simp_all
  refine ⟨⟨⟨rfl, rfl, fun t frame found _ => (frameAt t frame found).1, fun t frame found => ?_,
    fun ref var frame found => ?_, fun id f found => ?_, fun call member => ?_⟩,
    ⟨0, _, rfl, rfl⟩, fun result member => ?_, fun t frame found role => ?_⟩, rfl, ?_, List.nodup_nil,
    fun index var found => ?_⟩
  · obtain ⟨rfl, rfl⟩ := frameAt t frame found
    refine ⟨rfl, fun u member => ⟨_, ?_, List.Subset.refl _⟩⟩
    cases List.mem_singleton.mp member
    rfl
  · cases (noSlot ref).symm.trans found
  · simp [BuildContext.scene, start, Program.empty] at found
  · cases member
  · cases member
  · obtain ⟨rfl, rfl⟩ := frameAt t frame found
    cases role
  · simp
  · cases (noSlot _).symm.trans found

/-- A build meets no fault, and a program that it gives is complete. -/
theorem wp_topLevel (phrases : List Phrase) :
    wp (topLevel phrases) (fun _ after => ∃ frames, (after.scene frames).Complete) start := by
  unfold topLevel
  simp only [wp_bind, wp_get]
  refine wp_mono (wp_declareGlobals phrases start [] declared_start (by simp)) ?_
  rintro pending declaredContext ⟨declared, blank⟩
  refine wp_mono (wp_forM (fun rest after => Annotating pending rest after _)
    (fun p rest after => wp_annotate) pending declaredContext
    ⟨declared, List.suffix_refl _, blank, fun p member => ?_⟩) ?_
  · obtain ⟨var, found, _, empty⟩ := blank p member
    exact ⟨var, found, empty⟩
  rintro _ annotated annotating
  refine wp_mono (wp_forM (fun rest after => ∃ frames, Filling pending rest after frames)
    (fun p rest after filling => wp_fill filling.choose_spec) pending annotated
    ⟨_, annotating.declared, List.suffix_refl _, annotating.empty, fun p member => Or.inl member⟩) ?_
  rintro _ filledContext ⟨frames, holds⟩
  refine wp_mono (wp_rechecks holds) ?_
  rintro _ last ⟨rfl, settled⟩
  exact ⟨frames, holds.complete settled⟩

end Build

/-- A program that was built is complete. -/
theorem buildPhrases_complete {phrases : List Phrase} {program : Program}
    (built : buildPhrases phrases = .ok program) : ∃ s : Scene, s.program = program ∧ s.Complete := by
  unfold buildPhrases at built
  cases run : Build.topLevel phrases Build.start with
  | error abort =>
      simp only [StateT.run, Build.start] at built run
      simp [run, bind, Except.bind] at built
  | ok result =>
      obtain ⟨frames, complete⟩ := Build.wp_result (Build.wp_topLevel phrases) run
      refine ⟨result.2.scene frames, ?_, complete⟩
      simp only [StateT.run, Build.start] at built run
      simp only [run, bind, Except.bind, pure, Except.pure, Except.ok.injEq] at built
      exact built

end Rill

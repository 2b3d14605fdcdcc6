import Mathlib
import Rill.Proofs.Build.Growth

/-!
# Building values and statements

`Build.Keeps m context frames post` says that `m` meets no fault from a sound context and, when it
ends with a result, leaves a sound context that extends the first one, has the same scope and the
same result types, and in which the globals are untouched; `post` holds of the result.

The main results are `builds_phrases` and, for a value alone, `keeps_buildValue`: what is built from
any phrase is a value of the scope it was built in, or a list of statements of the function around it.
-/

namespace Rill

namespace BuildContext

/-- The scene of a context, given the frames of its tables. -/
def scene (context : BuildContext) (frames : Array Frame) : Scene :=
  { program := context.program, deferred := context.deferred, frames }

/-- A context in the middle of a build: its scene is sound, its scope is the chain of a table, and the
locals of every finished function have that function as their owner. -/
structure Sound (context : BuildContext) (frames : Array Frame) : Prop where
  scene : (context.scene frames).Sound
  scope : ∃ (t : TableId) (frame : Frame), frames[t]? = some frame ∧ frame.chain = context.scope
  results : ∀ result ∈ context.results, TypeIn context.program.tables result
  owned : ∀ (t : TableId) (frame : Frame), frames[t]? = some frame → frame.role = .locals →
    (∃ f ∈ context.program.functions, f.locals = t) ∨ t ∈ context.scope

theorem Sound.scopeIn {context : BuildContext} {frames : Array Frame} (sound : context.Sound frames) :
    context.ScopeIn := by
  obtain ⟨t, frame, frameAt, chain⟩ := sound.scope
  intro u member
  rw [← chain] at member
  obtain ⟨inner, innerAt, _⟩ := (sound.scene.chains t frame frameAt).2 u member
  have inFrames := (Array.getElem?_eq_some_iff.mp innerAt).1
  have sameSize := sound.scene.size
  exact Nat.lt_of_lt_of_eq inFrames sameSize

/-- What building a value or a statement leaves in place. -/
structure Reaches (context : BuildContext) (frames : Array Frame) (after : BuildContext)
    (frames' : Array Frame) : Prop where
  ext : (context.scene frames).Extends (after.scene frames')
  scope : after.scope = context.scope
  results : after.results = context.results
  globals : after.program.tables[context.program.globals]? =
    context.program.tables[context.program.globals]?

namespace Reaches

variable {context middle after : BuildContext} {frames frames' frames'' : Array Frame}

theorem refl (context : BuildContext) (frames : Array Frame) :
    Reaches context frames context frames :=
  ⟨Scene.Extends.refl _, rfl, rfl, rfl⟩

theorem trans (first : Reaches context frames middle frames')
    (second : Reaches middle frames' after frames'') : Reaches context frames after frames'' where
  ext := first.ext.trans second.ext
  scope := second.scope.trans first.scope
  results := second.results.trans first.results
  globals := by
    have sameGlobals : middle.program.globals = context.program.globals := first.ext.globals
    rw [← first.globals, ← sameGlobals]
    exact second.globals

end Reaches

end BuildContext

namespace Build

open BuildContext (Reaches)

variable {α β : Type} {context : BuildContext} {frames : Array Frame}

/-- The step meets no fault, keeps the context sound, and its result satisfies `post`. -/
def Keeps (m : Build α) (context : BuildContext) (frames : Array Frame) (post : α → Scene → Prop) :
    Prop :=
  wp m (fun a after => ∃ frames', after.Sound frames' ∧ Reaches context frames after frames' ∧
    post a (after.scene frames')) context

theorem Keeps.pure {a : α} {post : α → Scene → Prop} (sound : context.Sound frames)
    (holds : post a (context.scene frames)) : Keeps (pure a) context frames post :=
  ⟨frames, sound, Reaches.refl context frames, holds⟩

theorem Keeps.refuse {kind : BuildErrorKind} {span : Span} {post : α → Scene → Prop} :
    Keeps (refuse kind span) context frames post :=
  trivial

theorem Keeps.refuse_bind {kind : BuildErrorKind} {span : Span} {f : α → Build β}
    {post : β → Scene → Prop} : Keeps (Build.refuse kind span >>= f) context frames post :=
  trivial

theorem Keeps.bind {m : Build α} {f : α → Build β} {middle : α → Scene → Prop}
    {post : β → Scene → Prop} (first : Keeps m context frames middle)
    (next : ∀ a after frames', after.Sound frames' → Reaches context frames after frames' →
      middle a (after.scene frames') → Keeps (f a) after frames' post) :
    Keeps (m >>= f) context frames post := by
  unfold Keeps
  rw [wp_bind]
  refine wp_mono first fun a after ⟨frames', sound, reaches, holds⟩ => ?_
  refine wp_mono (next a after frames' sound reaches holds)
    fun b last ⟨frames'', sound', reaches', holds'⟩ => ?_
  exact ⟨frames'', sound', reaches.trans reaches', holds'⟩

theorem Keeps.mono {m : Build α} {post post' : α → Scene → Prop} (keeps : Keeps m context frames post)
    (weaker : ∀ a after frames', after.Sound frames' → Reaches context frames after frames' →
      post a (after.scene frames') → post' a (after.scene frames')) :
    Keeps m context frames post' :=
  wp_mono keeps fun a after ⟨frames', sound, reaches, holds⟩ =>
    ⟨frames', sound, reaches, weaker a after frames' sound reaches holds⟩

/-- A step that only reads can be followed by any step that keeps the context. -/
theorem Keeps.afterRead {m : Build α} {f : α → Build β} {reading : α → Prop} {post : β → Scene → Prop}
    (reads : wp m (fun a after => after = context ∧ reading a) context)
    (next : ∀ a, reading a → Keeps (f a) context frames post) :
    Keeps (m >>= f) context frames post := by
  unfold Keeps
  rw [wp_bind]
  refine wp_mono reads fun a after ⟨same, holds⟩ => ?_
  subst same
  exact next a holds

/-- The type that a value carries is a type of the program. -/
theorem value_type_in {chain : ScopeChain} {value : Term} (sound : context.Sound frames)
    (isValue : (context.scene frames).Value chain value) :
    ∀ found, value.type? = some found → TypeIn context.program.tables found :=
  fun _ typed => isValue.type_in sound.scene typed

/-! ## Names and types as values -/

theorem keeps_ident (name : String) (span : Span) (sound : context.Sound frames) :
    Keeps (buildValue ⟨.ident name, span⟩) context frames
      fun value s => s.Value context.scope value := by
  rw [buildValue]
  refine Keeps.afterRead (wp_resolve name span sound.scopeIn) ?_
  rintro ref ⟨inScope, var, found⟩
  unfold Keeps
  simp only [wp_bind, wp_readVar, wp_pure]
  exact ⟨var, found, frames, sound, Reaches.refl context frames,
    .variable inScope found fun type equal => equal⟩

theorem wp_type_shape {phrase : Phrase} (scope : context.ScopeIn)
    (noName : phrase.construct.isIdent = false) :
    wp (buildType phrase) (fun type _ => ∀ ref, type.shape ≠ .variable ref) context := by
  obtain ⟨construct, span⟩ := phrase
  cases construct with
  | functionType params result =>
      rw [buildType_functionType]
      simp only [wp_bind, wp_pure]
      refine wp_mono (wp_itemTypes fun _ _ type _ => wp_buildType type scope) ?_
      rintro args after ⟨rfl, _⟩
      refine wp_mono (wp_buildType result scope) fun type _ _ ref equal => ?_
      cases equal
  | ident => cases noName
  | _ =>
      rw [buildType_plain (by simp)]
      simp [plainType, Term.voidAt, Term.u64At, Term.untyped]

theorem keeps_type {phrase : Phrase} (sound : context.Sound frames)
    (noName : phrase.construct.isIdent = false) :
    Keeps (buildType phrase) context frames fun value s => s.Value context.scope value := by
  have built := wp_buildType phrase sound.scopeIn
  have shape := wp_type_shape sound.scopeIn noName
  unfold Keeps
  unfold wp at built shape ⊢
  split at built
  · next type after run =>
    rw [run] at shape
    obtain ⟨same, inTables⟩ := built
    subst same
    exact ⟨frames, sound, Reaches.refl after frames, .type inTables shape⟩
  · trivial
  · exact built

/-! ## Calls -/

/-- The answer about a call of a variable: the result of its function type, or nothing while the
variable has neither a type nor a value. -/
def CallAnswer (var : Variable) (type? : Option Term) : Prop :=
  (∃ result inner span, var.type? = some ⟨.functionType [] result, inner, span⟩ ∧
    type? = some result) ∨
  (var.type? = none ∧ var.value? = none ∧ type? = none)

theorem wp_callType? {callee : VarRef} {var : Variable} {calleeSpan span : Span}
    (sound : (context.scene frames).Sound) (found : slotIn? context.program.tables callee = some var) :
    wp (callType? callee calleeSpan span)
      (fun type? after => after = context ∧ CallAnswer var type?) context := by
  unfold callType?
  simp only [wp_bind, wp_readVar]
  refine ⟨var, found, ?_⟩
  split
  · next result inner typeSpan typed => exact ⟨rfl, Or.inl ⟨result, inner, typeSpan, typed, rfl⟩⟩
  · simp
  · next type _ _ typed =>
    obtain ⟨text, textEq⟩ := TypeIn.typeNameOf_total context.program (some type)
      fun type' equal => by
        cases equal
        exact sound.slot_type found typed
    simp [textEq]
  · next untyped =>
    cases held : var.value? with
    | some value => simp
    | none => exact ⟨rfl, Or.inr ⟨untyped, held, rfl⟩⟩

theorem keeps_judgedCall {ref : VarRef} {var : Variable} {calleeType? type? : Option Term}
    {calleeSpan span : Span} (sound : context.Sound frames) (inScope : ref.table ∈ context.scope)
    (found : slotIn? context.program.tables ref = some var)
    (typed : ∀ type, calleeType? = some type → var.type? = some type) (answer : CallAnswer var type?) :
    Keeps (do
        if type?.isNone && (← readVar ref).value?.isNone then
          modify fun context =>
            { context with deferred := context.deferred ++ [⟨ref, calleeSpan, span⟩] }
        return ⟨.call ⟨.variable ref, calleeType?, calleeSpan⟩ [], type?, span⟩)
      context frames fun value s =>
        s.Value context.scope value ∧ ∃ callee params, value.shape = .call callee params := by
  unfold Keeps
  simp only [wp_bind, wp_readVar]
  refine ⟨var, found, ?_⟩
  rcases answer with ⟨result, inner, typeSpan, varType, rfl⟩ | ⟨untyped, empty, rfl⟩
  · refine ⟨frames, sound, Reaches.refl context frames, ?_, _, _, rfl⟩
    exact .call (.variable inScope found typed)
      (Or.inl ⟨var, result, inner, typeSpan, found, varType, rfl⟩)
  · have deferred := sound.scene.defer ⟨ref, calleeSpan, span⟩ found
    have ext := Scene.extends_defer (context.scene frames) ⟨ref, calleeSpan, span⟩
    simp only [empty, Option.isNone_none, Bool.and_self, if_true, wp_bind, wp_modify, wp_pure]
    refine ⟨frames, ⟨deferred, sound.scope, sound.results, sound.owned⟩, ⟨ext, rfl, rfl, rfl⟩,
      ?_, _, _, rfl⟩
    exact .call (.variable inScope found typed)
      (Or.inr ⟨rfl, ⟨ref, calleeSpan, span⟩, List.mem_append_right _ (by simp), rfl⟩)

theorem keeps_buildCall {span : Span} {args : Phrase} {callee : Build Term}
    (calleeKeeps : Keeps callee context frames fun value s => s.Value context.scope value) :
    Keeps (buildCall span args callee) context frames fun value s =>
      s.Value context.scope value ∧ ∃ callee params, value.shape = .call callee params := by
  unfold buildCall
  dsimp only
  split
  · refine calleeKeeps.bind ?_
    intro callee after frames' sound' reaches isValue
    split
    · next ref shape =>
      rw [← reaches.scope] at isValue ⊢
      obtain ⟨calleeShape, calleeType?, calleeSpan⟩ := callee
      simp only at shape
      subst shape
      cases isValue with
      | type _ noName => exact absurd rfl (noName ref)
      | @«variable» _ var _ _ inScope found typed =>
          refine Keeps.afterRead (wp_callType? sound'.scene found) fun type? answer => ?_
          exact keeps_judgedCall sound' inScope found typed answer
    · exact Keeps.refuse
  · exact Keeps.refuse_bind

/-! ## Arguments -/

theorem wp_declare {table : TableId} {vars : VariableTable} {var : Variable}
    {post : VarRef → BuildContext → Prop} (tableAt : context.program.tables[table]? = some vars) :
    wp (declare table var) post context ↔
      post ⟨table, vars.size⟩ { context with program := context.program.declare table var } := by
  unfold declare
  simp only [wp_bind, wp_get, wp_ofFault, wp_set, wp_pure, Program.table, fetch_eq_ok_iff]
  constructor
  · rintro ⟨vars', found, holds⟩
    rw [tableAt] at found
    cases found
    exact holds
  · intro holds
    exact ⟨vars, tableAt, holds⟩

/-- The context while the arguments of a function are declared: its two tables stand at the end, the
first one with the arguments so far. -/
def withArguments (context : BuildContext) (tables : Array VariableTable) (vars : VariableTable) :
    BuildContext :=
  { context with program := { context.program with tables := (tables.push vars).push #[] } }

theorem withArguments_declare (context : BuildContext) (tables : Array VariableTable)
    (vars : VariableTable) (var : Variable) :
    { withArguments context tables vars with
      program := (withArguments context tables vars).program.declare tables.size var } =
      withArguments context tables (vars.push var) := by
  have declared : ((tables.push vars).push #[]).modify tables.size (·.push var) =
      (tables.push (vars.push var)).push #[] := by
    apply Array.ext_getElem?
    intro u
    simp only [Array.getElem?_modify, Array.getElem?_push, Array.size_push]
    by_cases isArgs : u = tables.size
    · simp [isArgs]
    · simp [isArgs, Ne.symm isArgs]
  simp only [withArguments, Program.declare, declared]

theorem typeIn_moreArguments {tables : Array VariableTable} {vars : VariableTable} {type : Term}
    (extra : VariableTable)
    (inTables : TypeIn ((tables.push vars).push #[]) type) :
    TypeIn ((tables.push (vars ++ extra)).push #[]) type := by
  refine inTables.mono fun ref var found => ?_
  rw [slotIn?_push, slotIn?_push] at found ⊢
  rw [Array.size_push] at found ⊢
  split at found
  · simp at found
  · next notLocals =>
    rw [if_neg notLocals]
    split at found
    · next isArgs =>
      rw [if_pos isArgs]
      have inBounds := (Array.getElem?_eq_some_iff.mp found).1
      exact ⟨var, by rw [Array.getElem?_append_left inBounds, found]⟩
    · next notArgs => exact ⟨var, by rw [if_neg notArgs, found]⟩

/-- Declaring the arguments of a function adds variables without values, of the types it gives. -/
theorem wp_buildArguments {tables : Array VariableTable} (items : List Phrase) :
    ∀ (vars : VariableTable), (withArguments context tables vars).ScopeIn →
      wp (items.mapM (buildArgument tables.size))
        (fun types after => ∃ extra : VariableTable,
          after = withArguments context tables (vars ++ extra) ∧
          extra.toList.map (·.type?) = types.map some ∧ (∀ var ∈ extra, var.value? = none) ∧
          ∀ type ∈ types, TypeIn after.program.tables type)
        (withArguments context tables vars) := by
  induction items with
  | nil =>
      intro vars scope
      refine ⟨#[], ?_⟩
      simp
  | cons item items ih =>
      intro vars scope
      rw [List.mapM_cons]
      simp only [buildArgument, bind_assoc, wp_bind]
      refine wp_mono (wp_readParam item) fun param after same => ?_
      subst same
      refine wp_mono (wp_buildType param.type scope) ?_
      rintro type after ⟨rfl, inTables⟩
      have argsAt : (withArguments context tables vars).program.tables[tables.size]? = some vars := by
        change ((tables.push vars).push #[])[tables.size]? = some vars
        rw [Array.getElem?_push, if_neg (by simp), Array.getElem?_push, if_pos rfl]
      rw [wp_declare argsAt, withArguments_declare]
      simp only [wp_pure]
      have scope' : ∀ var, (withArguments context tables (vars.push var)).ScopeIn := by
        intro var t member
        have := scope t member
        simpa [withArguments] using this
      refine wp_mono (ih _ (scope' _)) ?_
      rintro types after ⟨extra, same, typesEq, empty, typesIn⟩
      refine ⟨#[⟨param.name, param.nameSpan, some type, none⟩] ++ extra, ?_, ?_, ?_, ?_⟩
      · rw [same]
        simp
      · simp [typesEq]
      · intro var member
        rcases Array.mem_append.mp member with first | rest
        · simp only [List.mem_toArray, List.mem_singleton] at first
          rw [first]
        · exact empty var rest
      · intro type' member
        rcases List.mem_cons.mp member with first | rest
        · subst first
          rw [same]
          exact typeIn_moreArguments extra (typeIn_moreArguments #[_] inTables)
        · exact typesIn type' rest

/-! ## Functions -/

/-- The context in which the body of a function is built. -/
def insideFunction (context : BuildContext) (vars : VariableTable) (result : Term) : BuildContext :=
  let args := context.program.tables.size
  { context with
    program := { context.program with tables := (context.program.tables.push vars).push #[] }
    scope := (args + 1) :: args :: context.scope
    results := result :: context.results }

/-- The frames of the tables of a context, with those of a new function's tables. -/
def insideFrames (context : BuildContext) (frames : Array Frame) : Array Frame :=
  let args := context.program.tables.size
  (frames.push ⟨.arguments, args :: context.scope⟩).push ⟨.locals, (args + 1) :: args :: context.scope⟩

theorem insideFunction_sound {vars : VariableTable} {result : Term} (sound : context.Sound frames)
    (resultType : TypeIn ((context.program.tables.push vars).push #[]) result)
    (arguments : ∀ var ∈ vars, var.value? = none ∧
      ∃ type, var.type? = some type ∧ TypeIn ((context.program.tables.push vars).push #[]) type) :
    (insideFunction context vars result).Sound (insideFrames context frames) := by
  obtain ⟨t, frame, frameAt, chain⟩ := sound.scope
  have ext := Scene.extends_openFunction sound.scene vars context.scope
  have frameCases := Scene.frames_openFunction sound.scene vars context.scope
  refine ⟨sound.scene.openFunction frameAt chain arguments, ?_, ?_, ?_⟩
  · refine ⟨context.program.tables.size + 1, _, (frameCases _).trans (if_pos rfl), rfl⟩
  · intro other member
    rcases List.mem_cons.mp member with first | rest
    · exact first ▸ resultType
    · exact ext.typeIn (sound.results other rest)
  · intro u inner innerAt isLocals
    have cases := (frameCases u).symm.trans innerAt
    split at cases
    · next isNew => exact Or.inr (by simp [insideFunction, isNew, BuildContext.scene])
    · split at cases
      · cases cases
        cases isLocals
      · rcases sound.owned u inner cases isLocals with owner | inScope
        · exact Or.inl owner
        · exact Or.inr (List.mem_cons_of_mem _ (List.mem_cons_of_mem _ inScope))

/-- The context after the body of a function was built and the function added. -/
def outsideFunction (after : BuildContext) (f : Function) : BuildContext :=
  { after with
    program := after.program.addFunction f
    scope := after.scope.pop.pop
    results := after.results.tail }

section Finishing

variable {after : BuildContext} {frames' : Array Frame} {vars : VariableTable} {result : Term} {f : Function}

theorem argumentsFrame_of_reaches (sound : context.Sound frames)
    (reaches : Reaches (insideFunction context vars result) (insideFrames context frames) after frames') :
    frames'[context.program.tables.size]? =
      some ⟨.arguments, context.program.tables.size :: context.scope⟩ := by
  have frameCases := Scene.frames_openFunction sound.scene vars context.scope
  exact reaches.ext.frames _ _ ((frameCases _).trans (by simp [BuildContext.scene]))

theorem localsFrame_of_reaches (sound : context.Sound frames)
    (reaches : Reaches (insideFunction context vars result) (insideFrames context frames) after frames') :
    frames'[context.program.tables.size + 1]? = some ⟨.locals,
      (context.program.tables.size + 1) :: context.program.tables.size :: context.scope⟩ := by
  have frameCases := Scene.frames_openFunction sound.scene vars context.scope
  exact reaches.ext.frames _ _ ((frameCases _).trans (if_pos rfl))

/-- The table of the arguments gets no more variables while the body is built. -/
theorem arguments_of_reaches (sound : context.Sound frames)
    (reaches : Reaches (insideFunction context vars result) (insideFrames context frames) after frames') :
    after.program.tables[context.program.tables.size]? = some vars := by
  have frameCases := Scene.frames_openFunction sound.scene vars context.scope
  refine reaches.ext.arguments _ ⟨.arguments, context.program.tables.size :: context.scope⟩ vars
    ((frameCases _).trans (by simp [BuildContext.scene])) rfl ?_
  change ((context.program.tables.push vars).push #[])[context.program.tables.size]? = some vars
  rw [Array.getElem?_push, if_neg (by simp), Array.getElem?_push, if_pos rfl]

theorem reaches_outside (sound : context.Sound frames)
    (reaches : Reaches (insideFunction context vars result) (insideFrames context frames) after frames') :
    Reaches context frames (outsideFunction after f) frames' where
  ext := ((Scene.extends_openFunction sound.scene vars context.scope).trans reaches.ext).trans
    (Scene.extends_addFunction (after.scene frames') f)
  scope := by
    change after.scope.pop.pop = context.scope
    rw [reaches.scope]
    rfl
  results := by
    change after.results.tail = context.results
    rw [reaches.results]
    rfl
  globals := by
    have same : after.program.tables[context.program.globals]? =
        ((context.program.tables.push vars).push #[])[context.program.globals]? := reaches.globals
    change after.program.tables[context.program.globals]? = _
    have inFrames := (Array.getElem?_eq_some_iff.mp sound.scene.globals).1
    have inTables : context.program.globals < context.program.tables.size :=
      Nat.lt_of_lt_of_eq inFrames sound.scene.size
    rw [same, Array.getElem?_push, Array.size_push, if_neg (Nat.ne_of_lt (Nat.lt_succ_of_lt inTables)),
      Array.getElem?_push, if_neg (Nat.ne_of_lt inTables)]

theorem outsideFunction_sound (sound : context.Sound frames) (sound' : after.Sound frames')
    (reaches : Reaches (insideFunction context vars result) (insideFrames context frames) after frames')
    (functionOk : (after.scene frames').FunctionOk f context.scope)
    (locals : f.locals = context.program.tables.size + 1) :
    (outsideFunction after f).Sound frames' := by
  have back : Reaches context frames (outsideFunction after f) frames' := reaches_outside sound reaches
  refine ⟨sound'.scene.addFunction functionOk, ?_, fun other member => ?_, fun t frame frameAt isLocals => ?_⟩
  · obtain ⟨t, frame, frameAt, chain⟩ := sound.scope
    exact ⟨t, frame, back.ext.frames t frame frameAt, chain.trans back.scope.symm⟩
  · rw [back.results] at member
    exact back.ext.typeIn (sound.results other member)
  · rw [back.scope]
    rcases sound'.owned t frame frameAt isLocals with ⟨g, member, owner⟩ | inScope
    · exact Or.inl ⟨g, Array.mem_push_of_mem _ member, owner⟩
    · rw [reaches.scope] at inScope
      rcases List.mem_cons.mp inScope with isNew | inScope
      · exact Or.inl ⟨f, Array.mem_push_self, locals.trans isNew.symm⟩
      · rcases List.mem_cons.mp inScope with isArgs | inScope
        · subst isArgs
          cases (argumentsFrame_of_reaches sound reaches).symm.trans frameAt
          cases isLocals
        · exact Or.inr inScope

/-- The function is added once its body was built, and the value that names it is a value outside. -/
theorem finishFunction {argTypes body : List Term} {span : Span} (sound : context.Sound frames)
    (sound' : after.Sound frames')
    (reaches : Reaches (insideFunction context vars result) (insideFrames context frames) after frames')
    (typesEq : vars.toList.map (·.type?) = argTypes.map some)
    (statements : ∀ statement ∈ body, (after.scene frames').Statement
      (insideFunction context vars result).scope result statement) :
    let args := context.program.tables.size
    let last := outsideFunction after ⟨span, args, result, args + 1, body⟩
    last.Sound frames' ∧ Reaches context frames last frames' ∧
      (last.scene frames').Value context.scope
        (.typed (.function after.program.functions.size)
          (.untyped (.functionType argTypes result) span) span) := by
  intro args last
  have argsAt := argumentsFrame_of_reaches sound reaches
  have localsAt := localsFrame_of_reaches sound reaches
  have tableAt := arguments_of_reaches sound reaches
  have resultIn : TypeIn after.program.tables result := by
    refine sound'.results result ?_
    rw [reaches.results]
    exact List.mem_cons_self
  have functionOk :
      (after.scene frames').FunctionOk ⟨span, args, result, args + 1, body⟩ context.scope :=
    ⟨argsAt, localsAt, resultIn, statements⟩
  have functionAt : (last.scene frames').program.functions[after.program.functions.size]? =
      some ⟨span, args, result, args + 1, body⟩ := by
    change (after.program.functions.push _)[after.program.functions.size]? = some _
    rw [Array.getElem?_push, if_pos rfl]
  exact ⟨outsideFunction_sound sound sound' reaches functionOk rfl, reaches_outside sound reaches,
    .function functionAt argsAt localsAt tableAt typesEq⟩

end Finishing

theorem keeps_buildFunction {span : Span} {params result : Phrase} {body : TableId → Build (List Term)}
    (sound : context.Sound frames)
    (bodyKeeps : ∀ locals context frames result, BuildContext.Sound context frames →
      frames[locals]? = some ⟨.locals, context.scope⟩ → context.results.head? = some result →
      Keeps (body locals) context frames
        fun statements s => ∀ statement ∈ statements, s.Statement context.scope result statement) :
    Keeps (buildFunction span params result body) context frames
      fun value s => s.Value context.scope value := by
  unfold Keeps buildFunction
  simp only [openScope, wp_bind, wp_get, wp_set, wp_pure]
  -- The two new tables are in place; result and argument types are built with both in scope.
  let opened : BuildContext := { context with scope :=
    (context.program.tables.size + 1) :: context.program.tables.size :: context.scope }
  have scopeIn : (withArguments opened context.program.tables #[]).ScopeIn := by
    intro t member
    have inOuter := sound.scopeIn t
    simp only [withArguments, opened, List.mem_cons, Array.size_push] at member ⊢
    rcases member with rfl | rfl | inScope
    · exact Nat.lt_succ_self _
    · exact Nat.lt_succ_of_lt (Nat.lt_succ_self _)
    · exact Nat.lt_succ_of_lt (Nat.lt_succ_of_lt (inOuter inScope))
  have sizeEq : (context.program.addTable).tables.size = context.program.tables.size + 1 := by
    simp [Program.addTable]
  rw [sizeEq]
  change wp _ _ (withArguments opened context.program.tables #[])
  refine wp_mono (wp_buildType result scopeIn) ?_
  rintro resultType after ⟨rfl, resultIn⟩
  refine wp_mono (wp_buildArguments (paramItems params) #[] scopeIn) ?_
  rintro argTypes after ⟨vars, rfl, typesEq, empty, typesIn⟩
  simp only [Array.empty_append] at typesIn ⊢
  simp only [wp_modify]
  change wp _ _ (insideFunction context vars resultType)
  have resultIn' : TypeIn ((context.program.tables.push vars).push #[]) resultType := by
    have := typeIn_moreArguments vars resultIn
    simpa using this
  have arguments : ∀ var ∈ vars, var.value? = none ∧
      ∃ type, var.type? = some type ∧ TypeIn ((context.program.tables.push vars).push #[]) type := by
    intro var member
    have listed : var.type? ∈ vars.toList.map (·.type?) :=
      List.mem_map_of_mem (Array.mem_toList_iff.mpr member)
    rw [typesEq] at listed
    obtain ⟨type, typeMember, equal⟩ := List.mem_map.mp listed
    exact ⟨empty var member, type, equal.symm, typesIn type typeMember⟩
  have inside := insideFunction_sound sound resultIn' arguments
  have localsAt : (insideFrames context frames)[context.program.tables.size + 1]? =
      some ⟨.locals, (insideFunction context vars resultType).scope⟩ :=
    (Scene.frames_openFunction sound.scene vars context.scope _).trans (if_pos rfl)
  refine wp_mono (bodyKeeps _ _ _ resultType inside localsAt rfl) ?_
  rintro body after ⟨frames', sound', reaches, statements⟩
  simp only [closeScope, wp_modify]
  exact ⟨frames', finishFunction sound sound' reaches typesEq statements⟩

/-! ## Binding a value -/

/-- A variable after a value was bound to it: without a type it takes the value's. -/
def filled (value : Term) (var : Variable) : Variable :=
  { var with type? := var.type?.or value.type?, value? := some value }

/-- Binding a value fills the variable, unless the variable has a type that the value does not
satisfy. -/
theorem wp_bindValue {ref : VarRef} {var : Variable} {value : Term} {post : Unit → BuildContext → Prop}
    (found : slotIn? context.program.tables ref = some var)
    (typeIn : ∀ type, var.type? = some type → TypeIn context.program.tables type)
    (valueType : ∀ type, value.type? = some type → TypeIn context.program.tables type)
    (passes : (∀ type, var.type? = some type → type.satisfies value = .ok true) →
      post () { context with program := context.program.modifyVar ref (filled value) }) :
    wp (Build.bind ref value) post context := by
  unfold Build.bind
  simp only [wp_bind, wp_readVar]
  refine ⟨var, found, ?_⟩
  split
  · next type typed =>
    rw [wp_bind]
    refine wp_expect (typeIn type typed) valueType fun satisfied => ?_
    have sameChange : context.program.modifyVar ref (filled value) =
        context.program.modifyVar ref fun var => { var with value? := some value } :=
      Program.modifyVar_congr found (by simp [filled, typed])
    rw [wp_modifyVar, ← sameChange]
    refine passes fun type' equal => ?_
    rw [typed] at equal
    cases equal
    exact satisfied
  · next untyped =>
    have sameChange : context.program.modifyVar ref (filled value) =
        (context.program.modifyVar ref fun var => { var with type? := value.type? }).modifyVar ref
          fun var => { var with value? := some value } := by
      rw [Program.modifyVar_modifyVar]
      exact Program.modifyVar_congr found (by simp [filled, untyped])
    rw [wp_bind, wp_modifyVar, wp_modifyVar, ← sameChange]
    refine passes fun type equal => ?_
    rw [untyped] at equal
    cases equal

/-- A variable and the value bound to it have equal types. -/
theorem agrees_filled {chain : ScopeChain} {var : Variable} {value : Term}
    (sound : (context.scene frames).Sound)
    (typeIn : ∀ type, var.type? = some type → TypeIn context.program.tables type)
    (isValue : (context.scene frames).Value chain value)
    (satisfied : ∀ type, var.type? = some type → type.satisfies value = .ok true) :
    Scene.Agrees (filled value var).type? value := by
  cases typed : var.type? with
  | none => simp [filled, typed, Scene.Agrees]
  | some type =>
      have valueType : ∀ found, value.type? = some found → found.IsType :=
        fun found equal => (isValue.type_in sound equal).isType
      rcases Term.satisfies_bare (typeIn type typed).isType valueType (satisfied type typed) with
        ⟨isU64, n, isInt⟩ | ⟨_, found, foundEq, bareEq⟩
      · obtain ⟨span, intEq⟩ := isValue.int_type isInt
        subst intEq
        have sameBare : type.bare = (Term.u64At span).bare := by
          rw [Term.bare_eq_iff, isU64]
          rfl
        simp [filled, typed, Scene.Agrees, Term.intAt, Term.typed, sameBare]
      · simp [filled, typed, Scene.Agrees, foundEq, bareEq]

theorem filled_type_in {var : Variable} {value type : Term}
    (typeIn : ∀ type, var.type? = some type → TypeIn context.program.tables type)
    (valueType : ∀ type, value.type? = some type → TypeIn context.program.tables type)
    (typed : (filled value var).type? = some type) : TypeIn context.program.tables type := by
  rcases Option.or_eq_some_iff.mp typed with own | ⟨_, inferred⟩
  · exact typeIn type own
  · exact valueType type inferred

/-! ## Statements -/

/-- Declaring a bound local variable is a step of the construction. -/
theorem reaches_declareLocal {locals : TableId} {var : Variable} (sound : context.Sound frames)
    (localsAt : frames[locals]? = some ⟨.locals, context.scope⟩)
    (slotOk : (context.scene frames).SlotOk ⟨.locals, context.scope⟩ var) :
    let after : BuildContext := { context with program := context.program.declare locals var }
    after.Sound frames ∧ Reaches context frames after frames := by
  intro after
  have inFrames := (Array.getElem?_eq_some_iff.mp localsAt).1
  have inTables : locals < context.program.tables.size := Nat.lt_of_lt_of_eq inFrames sound.scene.size
  have tableAt := Array.getElem?_eq_getElem inTables
  have role : (⟨.locals, context.scope⟩ : Frame).role ≠ .arguments := by simp
  have ext := Scene.extends_declare tableAt localsAt role var (s := context.scene frames)
  refine ⟨⟨sound.scene.declare tableAt localsAt role slotOk, sound.scope,
    fun result member => ext.typeIn (sound.results result member), sound.owned⟩, ext, rfl, rfl, ?_⟩
  have different : locals ≠ context.program.globals := by
    intro same
    have globalsAt := sound.scene.globals
    rw [same] at localsAt
    cases localsAt.symm.trans globalsAt
  change (context.program.tables.modify locals _)[context.program.globals]? = _
  rw [Array.getElem?_modify, if_neg different]

theorem keeps_buildLocal {locals : TableId} {name : String} {nameSpan span : Span} {type? : Option Term}
    {value : Term} (result : Term) (sound : context.Sound frames)
    (localsAt : frames[locals]? = some ⟨.locals, context.scope⟩)
    (typeIn : ∀ type, type? = some type → TypeIn context.program.tables type)
    (isValue : (context.scene frames).Value context.scope value) :
    Keeps (buildLocal locals name nameSpan span type? value) context frames
      fun statement? s => ∀ statement ∈ statement?.toList,
        s.Statement context.scope result statement := by
  have inFrames := (Array.getElem?_eq_some_iff.mp localsAt).1
  have inTables : locals < context.program.tables.size := Nat.lt_of_lt_of_eq inFrames sound.scene.size
  have tableAt := Array.getElem?_eq_getElem inTables
  let stub : Variable := { name, nameSpan, type?, value? := none }
  let declared : BuildContext := { context with program := context.program.declare locals stub }
  have localsRole : (⟨.locals, context.scope⟩ : Frame).role ≠ .arguments := by simp
  have stubExt := Scene.extends_declare tableAt localsAt localsRole stub (s := context.scene frames)
  have stubAt : slotIn? declared.program.tables ⟨locals, context.program.tables[locals].size⟩ =
      some stub := by
    change slotIn? (context.program.tables.modify locals _) _ = _
    rw [slotIn?_declare tableAt, if_pos rfl]
  have valueType := value_type_in sound isValue
  unfold Keeps buildLocal
  rw [wp_bind, wp_declare tableAt, wp_bind]
  refine wp_bindValue stubAt (fun type typed => stubExt.typeIn (typeIn type typed))
    (fun type typed => stubExt.typeIn (valueType type typed)) fun satisfied => ?_
  rw [show declared.program.modifyVar _ (filled value) =
      context.program.declare locals (filled value stub)
    from Program.declare_modifyVar tableAt stub (filled value)]
  -- From here on the declared and bound variable counts as one step of the scene.
  have slotOk : (context.scene frames).SlotOk ⟨.locals, context.scope⟩ (filled value stub) := by
    refine ⟨fun type => filled_type_in typeIn valueType, fun bound equal => ?_, fun role => ?_,
      fun _ => ?_⟩
    · cases equal
      exact ⟨isValue, agrees_filled sound.scene typeIn isValue satisfied⟩
    · cases role
    · exact ⟨value, rfl⟩
  have ext := Scene.extends_declare tableAt localsAt localsRole (filled value stub)
    (s := context.scene frames)
  have keeps := reaches_declareLocal sound localsAt slotOk
  split
  · exact ⟨frames, keeps.1, keeps.2, by simp⟩
  · next names =>
    refine ⟨frames, keeps.1, keeps.2, fun statement member => ?_⟩
    cases Option.mem_toList.mp member
    have slotAt : ((context.scene frames).declare locals (filled value stub)).slot?
        ⟨locals, context.program.tables[locals].size⟩ = some (filled value stub) :=
      (Scene.slot?_declare tableAt (filled value stub) _ (s := context.scene frames)).trans (if_pos rfl)
    exact .define (sound.scene.chains _ _ localsAt).1 slotAt rfl (isValue.mono ext)
      (by simpa using names)

theorem keeps_print {operand : Term} {span : Span} {chain : ScopeChain} {result : Term}
    (sound : context.Sound frames) (isValue : (context.scene frames).Value chain operand) :
    Keeps (do
        expectU64 .printOperand operand
        return some (.untyped (.printU64 operand) span)) context frames
      fun statement? s => ∀ statement ∈ statement?.toList, s.Statement chain result statement := by
  unfold Keeps
  rw [wp_bind]
  refine wp_expectU64 (value_type_in sound isValue) fun isU64 => ?_
  refine ⟨frames, sound, Reaches.refl context frames, fun statement member => ?_⟩
  cases Option.mem_toList.mp member
  exact .print isValue isU64

theorem keeps_bareReturn {span : Span} {result : Term} (chain : ScopeChain)
    (sound : context.Sound frames) (expected : context.results.head? = some result) :
    Keeps (buildBareReturn span) context frames
      fun statement s => s.Statement chain result statement := by
  have resultIn : TypeIn context.program.tables result :=
    sound.results result (List.mem_of_mem_head? expected)
  unfold Keeps buildBareReturn
  rw [wp_bind, wp_get, expected]
  simp only [Option.getD_some]
  split
  · next isVoid =>
    refine ⟨frames, sound, Reaches.refl context frames, .bareReturn ?_⟩
    cases shape : result.shape <;> simp_all [Term.Shape.isVoid]
  · obtain ⟨text, textEq⟩ := TypeIn.typeNameOf_total context.program (some result)
      (by simpa using resultIn)
    simp [textEq]

theorem keeps_return {span : Span} {chain : ScopeChain} {result value : Term}
    (sound : context.Sound frames) (expected : context.results.head? = some result)
    (isValue : (context.scene frames).Value chain value) :
    Keeps (buildReturn span value) context frames
      fun statement s => s.Statement chain result statement := by
  have resultIn : TypeIn context.program.tables result :=
    sound.results result (List.mem_of_mem_head? expected)
  unfold Keeps buildReturn
  rw [wp_bind, wp_get, expected, wp_bind]
  refine wp_expect resultIn (value_type_in sound isValue) fun satisfied => ?_
  exact ⟨frames, sound, Reaches.refl context frames, .valueReturn isValue satisfied⟩

theorem keeps_assign {span : Span} {chain : ScopeChain} {target : VarRef} {var : Variable}
    {value : Term} (result : Term) (sound : context.Sound frames) (inChain : target.table ∈ chain)
    (found : slotIn? context.program.tables target = some var)
    (isValue : (context.scene frames).Value chain value) :
    Keeps (buildAssign span target value) context frames
      fun statement s => s.Statement chain result statement := by
  have isStatement :
      (context.scene frames).Statement chain result (.untyped (.assign target value) span) :=
    .assign inChain found isValue
  unfold Keeps buildAssign
  rw [wp_bind, wp_readVar]
  refine ⟨var, found, ?_⟩
  split
  · next type typed =>
    rw [wp_bind]
    exact wp_expect (sound.scene.slot_type found typed) (value_type_in sound isValue) fun _ =>
      ⟨frames, sound, Reaches.refl context frames, isStatement⟩
  · exact ⟨frames, sound, Reaches.refl context frames, isStatement⟩

/-! ## All phrases -/

/-- Whatever sound context a value is built in, it is a value of that scope. -/
def BuildsValue (m : Build Term) : Prop :=
  ∀ context frames, BuildContext.Sound context frames →
    Keeps m context frames fun value s => s.Value context.scope value

/-- Whatever sound context the terms are built in, with `locals` as its innermost table, they are
statements of the function around them. -/
def BuildsStatements (locals : TableId) (m : Build α) (listed : α → List Term) : Prop :=
  ∀ context frames result, BuildContext.Sound context frames →
    frames[locals]? = some ⟨.locals, context.scope⟩ → context.results.head? = some result →
    Keeps m context frames
      fun built s => ∀ statement ∈ listed built, s.Statement context.scope result statement

/-- A statement that is always there to execute. -/
theorem Keeps.statement {m : Build Term} {chain : ScopeChain} {result : Term}
    (keeps : Keeps m context frames fun statement s => s.Statement chain result statement) :
    Keeps (do return some (← m)) context frames
      fun statement? s => ∀ statement ∈ statement?.toList, s.Statement chain result statement := by
  refine keeps.bind ?_
  intro statement after frames' sound reaches holds
  refine Keeps.pure sound fun other member => ?_
  cases Option.mem_toList.mp member
  exact holds

theorem buildsStatements_binding {locals : TableId} {name value : Phrase} {type? : Option Phrase}
    {span : Span} (valueIh : BuildsValue (buildValue value)) :
    BuildsStatements locals (buildStatement locals ⟨.binding name type? (some value), span⟩)
      Option.toList := by
  intro context frames result sound localsAt expected
  rw [buildStatement]
  refine Keeps.afterRead (wp_mono (wp_nameOf name) fun _ _ same => ⟨same, trivial⟩) fun nameText _ => ?_
  have types : wp (type?.mapM buildType) (fun types after => after = context ∧
      ∀ type, types = some type → TypeIn context.program.tables type) context := by
    cases type? with
    | none => simp
    | some type =>
        simp only [Option.mapM_some, wp_map]
        refine wp_mono (wp_buildType type sound.scopeIn) ?_
        rintro built after ⟨same, inTables⟩
        refine ⟨same, fun type' equal => ?_⟩
        cases equal
        exact inTables
  refine Keeps.afterRead types fun typeTerm? typeIn => ?_
  refine (valueIh context frames sound).bind ?_
  intro valueTerm after frames' sound' reaches isValue
  rw [← reaches.scope] at isValue localsAt ⊢
  exact keeps_buildLocal result sound' (reaches.ext.frames _ _ localsAt)
    (fun type equal => reaches.ext.typeIn (typeIn type equal)) isValue

theorem buildsStatements_cons {locals : TableId} {inner : Phrase} {span : Span} {rest : List Phrase}
    (innerIh : BuildsStatements locals (buildStatement locals inner) Option.toList)
    (restIh : BuildsStatements locals (buildStatements locals rest) id) :
    BuildsStatements locals (buildStatements locals (⟨.statement inner, span⟩ :: rest)) id := by
  intro context frames result sound localsAt expected
  rw [buildStatements]
  refine (innerIh context frames result sound localsAt expected).bind ?_
  intro first after frames' sound' reaches firstOk
  rw [← reaches.scope] at firstOk localsAt ⊢
  rw [← reaches.results] at expected
  refine (restIh after frames' result sound' (reaches.ext.frames _ _ localsAt) expected).bind ?_
  intro others last frames'' sound'' reaches' othersOk
  refine Keeps.pure sound'' fun statement member => ?_
  rcases List.mem_append.mp member with inFirst | inOthers
  · exact (firstOk statement inFirst).mono reaches'.ext
  · exact othersOk statement inOthers

/-- What is built from a phrase, by the kind of place it stands in. -/
theorem builds_phrases :
    (∀ phrase, BuildsValue (buildValue phrase)) ∧
    (∀ locals phrase, BuildsStatements locals (buildBody locals phrase) id) ∧
    (∀ locals phrases, BuildsStatements locals (buildStatements locals phrases) id) ∧
    (∀ locals phrase, BuildsStatements locals (buildStatement locals phrase) Option.toList) := by
  apply phrase_induction
  case int =>
    intro value span context frames sound
    rw [buildValue]
    exact Keeps.pure sound .int
  case ident =>
    intro name span context frames sound
    exact keeps_ident name span sound
  case type =>
    intro phrase isType noName context frames sound
    rw [buildValue_type isType noName]
    exact keeps_type sound noName
  case function =>
    intro params result body span bodyIh context frames sound
    rw [buildValue]
    exact keeps_buildFunction sound bodyIh
  case sum =>
    intro left right span leftIh rightIh context frames sound
    rw [buildValue]
    refine (leftIh context frames sound).bind ?_
    intro leftTerm after frames' sound' reaches leftValue
    rw [← reaches.scope] at leftValue ⊢
    refine (rightIh after frames' sound').bind ?_
    intro rightTerm last frames'' sound'' reaches' rightValue
    rw [← reaches'.scope] at leftValue rightValue ⊢
    have leftValue' := leftValue.mono reaches'.ext
    unfold Keeps
    simp only [wp_bind]
    refine wp_expectU64 (value_type_in sound'' leftValue') fun leftU64 => ?_
    refine wp_expectU64 (value_type_in sound'' rightValue) fun rightU64 => ?_
    exact ⟨frames'', sound'', Reaches.refl last frames'', .sum leftValue' rightValue leftU64 rightU64⟩
  case call =>
    intro callee args span calleeIh context frames sound
    rw [buildValue]
    exact (keeps_buildCall (calleeIh context frames sound)).mono fun _ _ _ _ _ holds => holds.1
  case noValue =>
    intro phrase noValue context frames sound
    rw [buildValue_refused noValue]
    exact Keeps.refuse
  case block =>
    intro locals children span childrenIh
    rw [buildBody]
    exact childrenIh
  case noBlock =>
    intro locals phrase noBlock context frames result sound localsAt expected
    rw [buildBody_refused noBlock]
    exact Keeps.refuse
  case done =>
    intro locals context frames result sound localsAt expected
    rw [buildStatements]
    exact Keeps.pure sound (by simp)
  case next =>
    intro locals inner span rest innerIh restIh
    exact buildsStatements_cons innerIh restIh
  case unclosed =>
    intro locals phrase rest unclosed context frames result sound localsAt expected
    rw [buildStatements_refused unclosed]
    exact Keeps.refuse
  case binding =>
    intro locals name type? value span valueIh
    exact buildsStatements_binding valueIh
  case missingValue =>
    intro locals name type? span context frames result sound localsAt expected
    rw [buildStatement]
    exact Keeps.afterRead (wp_mono (wp_nameOf name) fun _ _ same => ⟨same, trivial⟩)
      fun _ _ => Keeps.refuse
  case print =>
    intro locals operand span operandIh context frames result sound localsAt expected
    rw [buildStatement]
    refine (operandIh context frames sound).bind ?_
    intro operandTerm after frames' sound' reaches isValue
    exact keeps_print sound' isValue
  case bareReturn =>
    intro locals span context frames result sound localsAt expected
    rw [buildStatement]
    exact (keeps_bareReturn context.scope sound expected).statement
  case valueReturn =>
    intro locals operand span operandIh context frames result sound localsAt expected
    rw [buildStatement]
    refine (operandIh context frames sound).bind ?_
    intro value after frames' sound' reaches isValue
    rw [← reaches.results] at expected
    exact (keeps_return sound' expected isValue).statement
  case assign =>
    intro locals targetPhrase valuePhrase span valueIh context frames result sound localsAt expected
    rw [buildStatement]
    refine Keeps.afterRead (wp_mono (wp_nameOf targetPhrase) fun _ _ same => ⟨same, trivial⟩)
      fun name _ => ?_
    refine Keeps.afterRead (wp_resolve name targetPhrase.span sound.scopeIn) ?_
    rintro target ⟨inScope, var, found⟩
    refine (valueIh context frames sound).bind ?_
    intro value after frames' sound' reaches isValue
    obtain ⟨var', found', _⟩ := reaches.ext.slots _ _ found
    exact (keeps_assign result sound' inScope found' isValue).statement
  case callAlone =>
    intro locals callee args span calleeIh context frames result sound localsAt expected
    rw [buildStatement]
    refine Keeps.statement ((keeps_buildCall (calleeIh context frames sound)).mono ?_)
    rintro ⟨shape, type?, callSpan⟩ after frames' sound' reaches ⟨isValue, calleeTerm, params, isCall⟩
    simp only at isCall
    subst isCall
    exact .call isValue
  case noStatement =>
    intro locals phrase noStatement context frames result sound localsAt expected
    rw [buildStatement_refused noStatement]
    exact Keeps.refuse

theorem keeps_buildValue (phrase : Phrase) (sound : context.Sound frames) :
    Keeps (buildValue phrase) context frames fun value s => s.Value context.scope value :=
  builds_phrases.1 phrase context frames sound

end Build

end Rill

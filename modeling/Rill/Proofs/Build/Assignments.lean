import Mathlib
import Rill.Proofs.Basic
import Rill.Proofs.Build.Signatures
import Rill.Proofs.Run.TypeSafety

/-!
# Assignments to globals

An assignment is checked against the type that its target has when the statement is built. A global whose
type can be read off has one from the beginning; any other global gets the type of its value, at the turn
of its binding (`Global.isSigned`). A function that is built before that turn may assign to the global
whatever it likes, and nobody looks at it again.

* Every function stands in the value of one global (`Program.StandsIn`), and was built at its turn.
* At that turn the type of a global is the one it ends with, if it can be read off or its own turn is over
  (`Build.Assigned`).

So an assigned value satisfies the type of its target, unless the target is a global without a type to
read off, and the function stands in an earlier binding: see `assigned_fits`, and
`assigned_before_type_known` for a program where it does not.
-/

namespace Rill

/-- Whether the type of the global can be read off its binding. -/
def Global.isSigned (binding : Global) : Bool :=
  match binding.type?, binding.value? with
  | some _, _ => true
  | none, some value => value.isLiteral
  | none, none => false

/-- Whether the phrase is a binding whose type can be read off. -/
def Phrase.isSigned (phrase : Phrase) : Bool :=
  phrase.global?.any Global.isSigned

/-! ## Where functions stand -/

namespace Program

/-- The function stands in the value of the global. -/
def StandsIn (program : Program) (id : FunctionId) (index : Nat) : Prop :=
  ∃ var value outer, program.var ⟨program.globals, index⟩ = .ok var ∧ var.value? = some value ∧
    value.Carries outer ∧ (outer = id ∨ program.Encloses outer id)

variable {program later : Program} {id outer : FunctionId} {index : Nat}

theorem Surrounds.mono (surrounds : program.Surrounds outer id)
    (functions : Continues program.functions later.functions) : later.Surrounds outer id := by
  obtain ⟨g, found, held⟩ := surrounds
  exact ⟨g, fetch_eq_ok_iff.mpr (functions _ _ (fetch_eq_ok_iff.mp found)), held⟩

theorem StandsIn.mono (stands : program.StandsIn id index) (globals : later.globals = program.globals)
    (functions : Continues program.functions later.functions)
    (slots : ∀ var, slotIn? program.tables ⟨program.globals, index⟩ = some var →
      slotIn? later.tables ⟨program.globals, index⟩ = some var) : later.StandsIn id index := by
  obtain ⟨var, value, outer, found, held, carries, around⟩ := stands
  refine ⟨var, value, outer, ?_, held, carries, around.imp_right fun encloses => ?_⟩
  · rw [globals]
    exact Program.var_eq_ok_iff.mpr (slots var (Program.var_eq_ok_iff.mp found))
  · exact Relation.TransGen.mono (fun _ _ surrounds => Surrounds.mono surrounds functions) _ _ encloses

theorem StandsIn.inner (stands : program.StandsIn outer index) (surrounds : program.Surrounds outer id) :
    program.StandsIn id index := by
  obtain ⟨var, value, top, found, held, carries, rfl | encloses⟩ := stands
  · exact ⟨var, value, top, found, held, carries, Or.inr (.single surrounds)⟩
  · exact ⟨var, value, top, found, held, carries, Or.inr (encloses.tail surrounds)⟩

/-- The functions from `size` on, which were added for a value, stand in it. A function stands in the
value or in a later function, so the induction goes through the later functions first. -/
theorem standsIn_of_placed {size : Nat} {var : Variable} {value : Term}
    (found : program.var ⟨program.globals, index⟩ = .ok var) (held : var.value? = some value)
    (placed : ∀ id, size ≤ id → id < program.functions.size →
      (∃ term ∈ [value], term.Carries id) ∨ Inner program.functions id)
    (isNew : size ≤ id) (inBounds : id < program.functions.size) : program.StandsIn id index := by
  induction ahead : program.functions.size - id using Nat.strong_induction_on generalizing id with
  | _ ahead ih =>
    rcases placed id isNew inBounds with ⟨term, isValue, carries⟩ | ⟨outer, g, behind, foundOuter, inBody⟩
    · cases List.mem_singleton.mp isValue
      exact ⟨var, value, id, found, held, carries, Or.inl rfl⟩
    · have outerBounds := (Array.getElem?_eq_some_iff.mp foundOuter).1
      have stands := ih _ (ahead ▸ Nat.sub_lt_sub_left inBounds behind) (isNew.trans behind.le) outerBounds rfl
      exact stands.inner ⟨g, fetch_eq_ok_iff.mpr foundOuter, inBody⟩

end Program

/-! ## Filling the globals -/

namespace Build

variable {bindings : List Global} {context after : BuildContext} {index : Nat}

/-- The binding at the place is one whose type can be read off. -/
def SignedAt (bindings : List Global) (index : Nat) : Prop :=
  ∃ binding, bindings[index]? = some binding ∧ binding.isSigned = true

theorem signature_isSome {binding : Global} {type? : Option Term} (isSigned : binding.isSigned = true)
    (run : binding.signature context = .ok (type?, after)) : ∃ type, type? = some type := by
  unfold Global.isSigned at isSigned
  unfold Global.signature signature Global.pending at run
  cases annotated : binding.type? with
  | some type =>
      simp only [annotated, map_eq_pure_bind] at run
      obtain ⟨type, _, _, gives⟩ := bind_eq_ok_iff.mp run
      cases gives
      exact ⟨type, rfl⟩
  | none =>
      rw [annotated] at run isSigned
      cases isValue : binding.value? with
      | none =>
          rw [isValue] at isSigned
          cases isSigned
      | some value =>
          rw [isValue] at run isSigned
          exact literalType?_isSome isSigned run

/-- A value that is a function is built from a literal. -/
theorem isLiteral_of_function {phrase : Phrase} {value : Term} {id : FunctionId}
    (run : buildValue phrase context = .ok (value, after)) (isFunction : value.shape = .function id) :
    phrase.isLiteral = true := by
  cases ValueRun.of_ok run with
  | function => rfl
  | call call =>
      obtain ⟨_, _, _, _, _, _, _, rfl, _⟩ := buildCall_eq_ok call
      cases isFunction
  | type _ typeRun => cases typeRun <;> cases isFunction
  | int | ident | sum => cases isFunction

theorem isSigned_of_function {binding : Global} {phrase : Phrase} {value : Term} {id : FunctionId}
    (isValue : binding.value? = some phrase) (run : buildValue phrase context = .ok (value, after))
    (isFunction : value.shape = .function id) : binding.isSigned = true := by
  have isLiteral := isLiteral_of_function run isFunction
  cases annotated : binding.type? <;> simp [Global.isSigned, annotated, isValue, isLiteral]

/-- What is known of the functions once the globals before `index` have their values. -/
structure Assigned (bindings : List Global) (index : Nat) (context : BuildContext) : Prop where
  typed : ∀ i, SignedAt bindings i → ∃ var type,
    slotIn? context.program.tables ⟨0, i⟩ = some var ∧ var.type? = some type
  signed : ∀ i var value id, slotIn? context.program.tables ⟨0, i⟩ = some var → var.value? = some value →
    value.shape = .function id → SignedAt bindings i
  fits : ∀ (id : FunctionId) (f : Function), context.program.functions[id]? = some f →
    ∃ i < index, context.program.StandsIn id i ∧ ∀ statement ∈ f.body, ∀ target value,
      statement.shape = .assign target value → target.table = 0 →
      target.index < i ∨ SignedAt bindings target.index →
      ∃ var, slotIn? context.program.tables target = some var ∧
        ∀ type, var.type? = some type → type.satisfies value = .ok true

theorem Assigned.start {types : List (Option Term)}
    (reads : List.Forall₂ (ReadOff bindings) bindings types) :
    Assigned bindings 0 (withGlobals (List.zipWith Global.typed bindings types)) := by
  refine ⟨?_, fun i var value id found held => ?_, nofun⟩
  · rintro i ⟨binding, bound, isSigned⟩
    obtain ⟨type?, typeAt, vars, _, run⟩ := forall₂_getElem? reads bound
    obtain ⟨type, rfl⟩ := signature_isSome isSigned run
    refine ⟨binding.typed (some type), type, ?_, rfl⟩
    simp [slotIn?, withGlobals, List.getElem?_zipWith, bound, typeAt]
  · have empty := (FilledTo.start fun var => typed_empty).empty i var (Nat.zero_le i) found
    cases empty.symm.trans held

/-- A turn changes the type of its own global only, and not if that is known. -/
theorem Assigned.sameType {program : Program} {var : Variable} {value : Term} {i : Nat}
    (assigned : Assigned bindings index context) (settled : i ≠ index ∨ SignedAt bindings i)
    (before : slotIn? context.program.tables ⟨0, i⟩ = some var)
    (found : slotIn? program.tables ⟨0, i⟩ = some var) :
    ∃ later, slotIn? (program.modifyVar ⟨0, index⟩ (filled value)).tables ⟨0, i⟩ = some later ∧
      later.type? = var.type? := by
  by_cases same : i = index
  · subst same
    obtain ⟨known, type, knownAt, typed⟩ := assigned.typed i (settled.resolve_left (not_not_intro rfl))
    cases before.symm.trans knownAt
    exact ⟨filled value var, slotIn?_modifyVar_same found, by simp [filled, typed]⟩
  · exact ⟨var, (slotIn?_modifyVar_of_ne (by simpa using same)).trans found, rfl⟩

/-- One turn: what is known of the functions that are there stays so, and holds of the new ones. -/
theorem Assigned.fill {binding : Global} {u : Unit} (assigned : Assigned bindings index context)
    (filledTo : FilledTo index context) (bound : bindings[index]? = some binding)
    (run : Build.fill (binding.pending 0 index) context = .ok (u, after)) :
    Assigned bindings (index + 1) after := by
  obtain ⟨phrase, value, middle, var, isValue, valueRun, varAt, _, rfl⟩ := fill_eq_ok run
  have leaves := leaves_buildValue phrase _ _ _ valueRun
  have built := builds_uses.1 phrase _ _ _ filledTo.grounded valueRun
  have globals : middle.program.globals = 0 := leaves.globals.trans filledTo.globals
  have kept := filledTo.sameGlobals leaves
  have filledAt : slotIn? (middle.program.modifyVar ⟨0, index⟩ (filled value)).tables ⟨0, index⟩ =
      some (filled value var) := slotIn?_modifyVar_same varAt
  have others : ∀ i, i ≠ index → slotIn? (middle.program.modifyVar ⟨0, index⟩ (filled value)).tables ⟨0, i⟩ =
      slotIn? middle.program.tables ⟨0, i⟩ :=
    fun i different => slotIn?_modifyVar_of_ne (by simpa using different)
  have sameType : ∀ i other, i ≠ index ∨ SignedAt bindings i →
      slotIn? middle.program.tables ⟨0, i⟩ = some other → ∃ other',
        slotIn? (middle.program.modifyVar ⟨0, index⟩ (filled value)).tables ⟨0, i⟩ = some other' ∧
          other'.type? = other.type? :=
    fun i other settled found => assigned.sameType settled (kept i ▸ found) found
  refine ⟨fun i isSigned => ?_, fun i other held id found isHeld isFunction => ?_, fun id f found => ?_⟩
  · obtain ⟨known, type, knownAt, typed⟩ := assigned.typed i isSigned
    rw [← kept] at knownAt
    obtain ⟨other, otherAt, same⟩ := sameType i known (Or.inr isSigned) knownAt
    exact ⟨other, type, otherAt, same.trans typed⟩
  · by_cases same : i = index
    · subst same
      cases filledAt.symm.trans found
      cases isHeld
      exact ⟨binding, bound, isSigned_of_function isValue valueRun isFunction⟩
    · rw [others i same, kept] at found
      exact assigned.signed i other held id found isHeld isFunction
  · by_cases isNew : context.program.functions.size ≤ id
    · -- The function was added for the value.
      refine ⟨index, Nat.lt_succ_self index, ?_, fun statement member target stored isAssign isGlobal
        settled => ?_⟩
      · have inBounds := (Array.getElem?_eq_some_iff.mp found).1
        have heldAt : (middle.program.modifyVar ⟨0, index⟩ (filled value)).var ⟨middle.program.globals, index⟩ =
            .ok (filled value var) := Program.var_eq_ok_iff.mpr (globals ▸ filledAt)
        exact Program.standsIn_of_placed heldAt rfl built.adds.placed isNew inBounds
      · obtain old | fits := built.adds.fits id f found
        · exact absurd (Array.getElem?_eq_some_iff.mp old).1 (Nat.not_lt.mpr isNew)
        · obtain ⟨other, otherAt, satisfied⟩ := fits statement member target stored isAssign
          obtain ⟨t, i⟩ := target
          cases isGlobal
          obtain ⟨other', otherAt', same⟩ := sameType i other (settled.imp_left Nat.ne_of_lt) otherAt
          exact ⟨other', otherAt', same ▸ satisfied⟩
    · obtain ⟨g, foundBefore⟩ : ∃ g, context.program.functions[id]? = some g :=
        ⟨_, Array.getElem?_eq_getElem (Nat.not_le.mp isNew)⟩
      have same := (leaves.functions id g foundBefore).symm.trans found
      obtain ⟨i, earlier, stands, fits⟩ := assigned.fits id f (same ▸ foundBefore)
      refine ⟨i, Nat.lt_succ_of_lt earlier, ?_, fun statement member target stored isAssign isGlobal
        settled => ?_⟩
      · refine stands.mono leaves.globals leaves.functions fun other otherAt => ?_
        rw [filledTo.globals] at otherAt ⊢
        rw [others i (Nat.ne_of_lt earlier), kept, otherAt]
      · obtain ⟨other, otherAt, satisfied⟩ := fits statement member target stored isAssign isGlobal settled
        obtain ⟨t, j⟩ := target
        cases isGlobal
        rw [← kept] at otherAt
        obtain ⟨other', otherAt', same⟩ :=
          sameType j other (settled.imp_left fun before => Nat.ne_of_lt (before.trans earlier)) otherAt
        exact ⟨other', otherAt', same ▸ satisfied⟩

theorem Assigned.fills {rest : List Global} {u : Unit} (assigned : Assigned bindings index context)
    (filledTo : FilledTo index context) (isRest : bindings.drop index = rest)
    (run : (Global.pendings 0 index rest).forM Build.fill context = .ok (u, after)) :
    Assigned bindings (index + rest.length) after := by
  induction rest generalizing index context with
  | nil =>
      cases run
      exact assigned
  | cons binding rest ih =>
      obtain ⟨_, middle, fills, run⟩ := bind_eq_ok_iff.mp run
      obtain ⟨bound, others⟩ := drop_eq_cons isRest
      rw [List.length_cons, Nat.add_comm rest.length, ← Nat.add_assoc]
      exact ih (assigned.fill filledTo bound fills) (filledTo.next fills) others run

end Build

/-! ## The result -/

theorem TypeIn.not_carries {tables : Array VariableTable} {type : Term} {id : FunctionId}
    (inTables : TypeIn tables type) : ¬ type.Carries id := by
  induction inTables with
  | void | u64 | «variable» =>
      rw [Term.carries_iff]
      rintro (isFunction | ⟨part, member, _⟩)
      · cases isFunction
      · cases member
  | functionType _ _ argsIh resultIh =>
      rw [Term.carries_iff]
      rintro (isFunction | ⟨part, member, carries⟩)
      · cases isFunction
      · rcases List.mem_append.mp member with inArgs | isResult
        · exact argsIh part inArgs carries
        · cases List.mem_singleton.mp isResult
          exact resultIh carries

namespace Scene

variable {s : Scene} {chain : ScopeChain} {value : Term} {id : FunctionId}

theorem Value.not_function_of_u64 (isValue : s.Value chain value) (isU64 : Term.isU64? value.type? = true) :
    value.shape ≠ .function id := by
  intro isFunction
  obtain ⟨shape, type?, span⟩ := value
  obtain ⟨type, rfl, shapeU64⟩ := Term.isU64?_iff.mp isU64
  cases isFunction
  obtain ⟨_, _, _, rfl⟩ := isValue.function_type
  cases shapeU64

/-- A value that holds a function is one: the operands of a sum are numbers, and calls go to variables. -/
theorem Value.isFunction_of_carries (isValue : s.Value chain value) (carries : value.Carries id) :
    value.shape = .function id := by
  induction isValue with
  | int | «variable» =>
      obtain isFunction | ⟨part, member, _⟩ := Term.carries_iff.mp carries
      · cases isFunction
      · cases member
  | type inTables _ => exact absurd carries inTables.not_carries
  | function =>
      obtain isFunction | ⟨part, member, _⟩ := Term.carries_iff.mp carries
      · exact isFunction
      · cases member
  | sum isLeft isRight leftU64 rightU64 leftIh rightIh =>
      obtain isFunction | ⟨part, member, inPart⟩ := Term.carries_iff.mp carries
      · cases isFunction
      · rcases List.mem_pair.mp member with rfl | rfl
        · exact absurd (leftIh inPart) (isLeft.not_function_of_u64 leftU64)
        · exact absurd (rightIh inPart) (isRight.not_function_of_u64 rightU64)
  | call isCallee _ calleeIh =>
      obtain isFunction | ⟨part, member, inPart⟩ := Term.carries_iff.mp carries
      · cases isFunction
      · cases List.mem_singleton.mp member
        cases calleeIh inPart

theorem Complete.function_of_standsIn {index : Nat} (complete : s.Complete)
    (stands : s.program.StandsIn id index) : ∃ var value outer,
      slotIn? s.program.tables ⟨s.program.globals, index⟩ = some var ∧ var.value? = some value ∧
        value.shape = .function outer := by
  obtain ⟨var, value, outer, found, held, carries, _⟩ := stands
  have slotAt := Program.var_eq_ok_iff.mp found
  obtain ⟨frame, frameAt⟩ := complete.sound.frame_of_slot slotAt
  have isValue := ((complete.sound.slots _ var frame slotAt frameAt).value value held).1
  exact ⟨var, value, outer, slotAt, held, isValue.isFunction_of_carries carries⟩

end Scene

theorem Phrase.signedAt {phrases : List Phrase} {bindings : List Global} {index : Nat} {phrase : Phrase}
    (areGlobals : phrases.map Phrase.global? = bindings.map some) (phraseAt : phrases[index]? = some phrase)
    (isSigned : phrase.isSigned = true) : Build.SignedAt bindings index := by
  have here := congrArg (·[index]?) areGlobals
  simp only [List.getElem?_map, phraseAt, Option.map_some] at here
  obtain ⟨binding, bound, isGlobal⟩ := Option.map_eq_some_iff.mp here.symm
  rw [Phrase.isSigned, ← isGlobal] at isSigned
  exact ⟨binding, bound, isSigned⟩

/-- An assigned value satisfies the type of its target, if that is no global, or its type can be read off
its binding, or the function stands in no earlier binding. -/
theorem assigned_fits {source : String} {program : Program}
    (checked : Pipeline.check source = .ok program) :
    ∃ tree phrases, Pipeline.parse source = .ok tree ∧ tree.topLevel = .ok phrases ∧
      ∀ id f statement target value var type, program.function id = .ok f → statement ∈ f.body →
        statement.shape = .assign target value → program.var target = .ok var → var.type? = some type →
        (target.table = program.globals →
          (∃ phrase, phrases[target.index]? = some phrase ∧ phrase.isSigned = true) ∨
            ∀ i < target.index, ¬ program.StandsIn id i) →
        type.satisfies value = .ok true := by
  obtain ⟨tree, phrases, parsed, top, built⟩ := check_eq_ok checked
  refine ⟨tree, phrases, parsed, top, ?_⟩
  intro id f statement target value var type found member isAssign varAt typed settled
  have foundAt := fetch_eq_ok_iff.mp found
  have slotAt := Program.var_eq_ok_iff.mp varAt
  have lexical := buildPhrases_lexical built
  obtain ⟨s, rfl, complete⟩ := buildPhrases_complete built
  obtain ⟨bindings, types, final, areGlobals, reads, fills, isProgram⟩ := buildPhrases_stages built
  have filledTo := (Build.FilledTo.start fun var => Build.typed_empty).fills fills
  have assigned := (Build.Assigned.start reads).fills (.start fun var => Build.typed_empty) rfl fills
  have globals := filledTo.globals
  obtain ⟨typedAt, signed, fits⟩ := assigned
  rw [isProgram] at globals signed fits
  by_cases isGlobal : target.table = s.program.globals
  · obtain ⟨i, _, stands, fits⟩ := fits id f foundAt
    have inTime : target.index < i ∨ Build.SignedAt bindings target.index := by
      rcases settled isGlobal with ⟨phrase, phraseAt, isSigned⟩ | noEarlier
      · exact Or.inr (Phrase.signedAt areGlobals phraseAt isSigned)
      · rcases Nat.lt_trichotomy target.index i with behind | same | before
        · exact Or.inl behind
        · -- A function in the value of the target itself is that value, so the binding has a literal.
          obtain ⟨held, value, outer, heldAt, isHeld, isFunction⟩ := complete.function_of_standsIn stands
          rw [globals] at heldAt
          exact Or.inr (same ▸ signed i held value outer heldAt isHeld isFunction)
        · exact absurd stands (noEarlier i before)
    obtain ⟨other, otherAt, satisfied⟩ :=
      fits statement member target value isAssign (isGlobal.trans globals) inTime
    cases slotAt.symm.trans otherAt
    exact satisfied type typed
  · obtain ⟨other, otherAt, satisfied⟩ :=
      (lexical.orderly id f foundAt).fits statement member target value isAssign isGlobal
    cases slotAt.symm.trans otherAt
    exact satisfied type typed

/-- Whether the first function is a single assignment to a variable that has a type, and `test` holds of the
program, the target, its type and the assigned value. -/
def assignsOnce (test : Program → VarRef → (type value : Term) → Bool) (program : Program) : Bool :=
  (program.function 0).toOption.any fun f =>
    match f.body with
    | [⟨.assign target value, _, _⟩] =>
        (program.var target).toOption.any fun var => var.type?.any fun type => test program target type value
    | _ => false

theorem exists_of_assignsOnce {program : Program} {test : Program → VarRef → (type value : Term) → Bool}
    (passes : assignsOnce test program = true) : ∃ f statement target value var type,
      program.function 0 = .ok f ∧ statement ∈ f.body ∧ statement.shape = .assign target value ∧
      program.var target = .ok var ∧ var.type? = some type ∧ test program target type value = true := by
  obtain ⟨f, functionAt, passes⟩ := any_toOption_iff.mp passes
  split at passes
  · next target value type? span body =>
    simp only [Option.any_eq_true, toOption_eq_some_iff] at passes
    obtain ⟨var, varAt, type, typed, passes⟩ := passes
    have member : (⟨.assign target value, type?, span⟩ : Term) ∈ f.body := by simp [body]
    exact ⟨f, _, target, value, var, type, functionAt, member, rfl, varAt, typed, passes⟩
  · cases passes

/-- A source with a global whose type is that of its value, and an assignment to it behind. -/
def assignedLate : String :=
  "g :: 1 + 1; main :: () -> void \x7b g = 3; \x7d;"

theorem assigned_fits_assignedLate : ∃ program f statement target value var type,
    Pipeline.check assignedLate = .ok program ∧ program.function 0 = .ok f ∧ statement ∈ f.body ∧
    statement.shape = .assign target value ∧ program.var target = .ok var ∧ var.type? = some type ∧
    type.satisfies value = .ok true := by
  have accepted : (Pipeline.check assignedLate).toOption.any (assignsOnce fun program target _ _ =>
      decide (target = ⟨program.globals, 0⟩)) = true := by
    decide +kernel
  obtain ⟨program, checked, passes⟩ := any_toOption_iff.mp accepted
  obtain ⟨f, statement, target, value, var, type, functionAt, member, isAssign, varAt, typed, isFirst⟩ :=
    exists_of_assignsOnce passes
  obtain ⟨tree, phrases, _, _, fits⟩ := assigned_fits checked
  refine ⟨program, f, statement, target, value, var, type, checked, functionAt, member, isAssign, varAt,
    typed, ?_⟩
  refine fits 0 f statement target value var type functionAt member isAssign varAt typed fun _ =>
    Or.inr fun i before => ?_
  rw [of_decide_eq_true isFirst] at before
  exact absurd before (Nat.not_lt_zero i)

/-- The same global, behind a function that assigns another function to it. -/
def assignedEarly : String :=
  "main :: () -> void \x7b g = k; \x7d; g :: 1 + 1; k :: () -> void \x7b \x7d;"

/-- The program is accepted, although what it assigns does not satisfy the type of the global. -/
theorem assigned_before_type_known : ∃ program f statement target value var type,
    Pipeline.check assignedEarly = .ok program ∧ program.function 0 = .ok f ∧ statement ∈ f.body ∧
    statement.shape = .assign target value ∧ program.var target = .ok var ∧ var.type? = some type ∧
    type.satisfies value = .ok false := by
  have accepted : (Pipeline.check assignedEarly).toOption.any (assignsOnce fun _ _ type value =>
      decide ((type.satisfies value).toOption = some false)) = true := by
    decide +kernel
  obtain ⟨program, checked, passes⟩ := any_toOption_iff.mp accepted
  obtain ⟨f, statement, target, value, var, type, functionAt, member, isAssign, varAt, typed, refuted⟩ :=
    exists_of_assignsOnce passes
  exact ⟨program, f, statement, target, value, var, type, checked, functionAt, member, isAssign, varAt, typed,
    toOption_eq_some_iff.mp (of_decide_eq_true refuted)⟩

end Rill

import Mathlib
import Rill.Proofs.Build.Stages
import Rill.Proofs.Likeness.Renaming

/-!
# The order of declarations

Top-level bindings with different names may be put in any order, as long as the type of each can be
read off. Nothing keeps its place: the globals are declared in another order, and the tables and
functions that belong to their values are made in another order.

Two builds cannot be followed step by step then. The first build is run to its end; its last context
holds everything that the second will need. `Tracks` compares this context with the second build, where
the globals that are still to be filled are marked as late. When the second build fills a global, the
step of the first build that filled the same global shows what will happen (`Tracks.step`).
-/

namespace Rill

/-! ## Types that can be read off -/

/-- The construct of a value whose type, if it has one, can be read off. -/
def Construct.showsType {α : Type} : Construct α → Bool
  | .int _ | .function .. | .void | .u64 | .functionType .. => true
  | _ => false

/-- Whether a binding has a type, or a value whose type can be read off. -/
def Global.shown (binding : Global) : Bool :=
  binding.type?.isSome || binding.value?.any fun value => value.construct.showsType

namespace Build

/-- The types that were read off the bindings, each in some context. -/
def Signatures (bindings : List Global) (types : List (Option Term)) : Prop :=
  List.Forall₂ (fun binding type? => ∃ context, binding.signature context = .ok (type?, context))
    bindings types

theorem signature_of_type {binding : Global} {type : Phrase} (annotated : binding.type? = some type)
    (context : BuildContext) :
    binding.signature context = (buildType type >>= fun type => pure (some type)) context := by
  unfold Global.signature signature Global.pending
  simp only [annotated, map_eq_pure_bind]

theorem signature_of_value {binding : Global} {value : Phrase} (annotated : binding.type? = none)
    (isValue : binding.value? = some value) (context : BuildContext) :
    binding.signature context = literalType? value context := by
  unfold Global.signature signature Global.pending
  simp only [annotated, isValue]

/-- A value that shows no type builds to a type. -/
theorem untyped_of_shown {phrase : Phrase} {context reading read after : BuildContext} {value : Term}
    (shows : phrase.construct.showsType) (untyped : literalType? phrase reading = .ok (none, read))
    (built : buildValue phrase context = .ok (value, after)) : value.type? = none := by
  obtain ⟨construct, span⟩ := phrase
  cases construct with
  | int => cases untyped
  | function params result body =>
      obtain ⟨_, _, _, untyped⟩ := bind_eq_ok_iff.mp untyped
      obtain ⟨_, _, _, untyped⟩ := bind_eq_ok_iff.mp untyped
      cases untyped
  | void | u64 | functionType =>
      rw [buildValue] at built
      cases (TypeRun.of_ok built).1
      rfl
  | _ => cases shows

theorem plain_of_shown {bindings : List Global} {types : List (Option Term)}
    (signatures : Signatures bindings types) (shown : ∀ binding ∈ bindings, binding.shown) :
    Plain bindings types := by
  intro index binding phrase bound untyped isValue context value after built
  obtain ⟨_, typeAt, reading, read⟩ := forall₂_getElem? signatures bound
  cases untyped.symm.trans typeAt
  cases annotation : binding.type? with
  | some type =>
      obtain ⟨_, _, _, read⟩ := bind_eq_ok_iff.mp ((signature_of_type annotation _).symm.trans read)
      cases read
  | none =>
      have reads := (signature_of_value annotation isValue _).symm.trans read
      have shows : phrase.construct.showsType := by
        simpa [Global.shown, annotation, isValue] using shown binding (List.mem_of_getElem? bound)
      exact untyped_of_shown shows reads built

end Build

/-! ## Two orders of the same bindings -/

/-- Bindings with different names in two orders. -/
structure Reordering where
  before : List Global
  after : List Global
  perm : before.Perm after
  distinct : (before.map Global.name).Nodup

namespace Reordering

variable (r : Reordering)

/-- The change back. -/
def symm : Reordering where
  before := r.after
  after := r.before
  perm := r.perm.symm
  distinct := (r.perm.map Global.name).nodup_iff.mp r.distinct

/-- Globals with the same binding. -/
def Pairs (ref ref' : VarRef) : Prop :=
  ref.table = 0 ∧ ref'.table = 0 ∧
    ∃ binding, r.before[ref.index]? = some binding ∧ r.after[ref'.index]? = some binding

/-- Globals of the first order that the second has at `count` or behind it. -/
def Late (count : Nat) (ref : VarRef) : Prop :=
  ∃ ref', r.Pairs ref ref' ∧ count ≤ ref'.index

variable {r}

theorem index_unique {i j : Nat} {binding : Global} (first : r.before[i]? = some binding)
    (second : r.before[j]? = some binding) : i = j := by
  have inBounds := (List.getElem?_eq_some_iff.mp first).1
  exact (List.getElem?_inj inBounds (List.Nodup.of_map _ r.distinct)).mp (first.trans second.symm)

theorem exists_after {i : Nat} {binding : Global} (bound : r.before[i]? = some binding) :
    ∃ j : Nat, r.after[j]? = some binding :=
  List.mem_iff_getElem?.mp (r.perm.subset (List.mem_of_getElem? bound))

theorem pairs_unique : Relator.BiUnique r.Pairs := by
  constructor
  · rintro ⟨_, i⟩ ⟨_, j⟩ ⟨_, k⟩ ⟨rfl, rfl, binding, bound, bound'⟩ ⟨rfl, _, other, otherBound, otherBound'⟩
    cases bound'.symm.trans otherBound'
    cases index_unique bound otherBound
    rfl
  · rintro ⟨_, i⟩ ⟨_, j⟩ ⟨_, k⟩ ⟨rfl, rfl, binding, bound, bound'⟩ ⟨_, rfl, other, otherBound, otherBound'⟩
    cases bound.symm.trans otherBound
    cases r.symm.index_unique bound' otherBound'
    rfl

variable (r) in
/-- The pairing of globals with the same binding. All of them are late. -/
def pairing : Pairing where
  name := id
  table t t' := t = 0 ∧ t' = 0
  var := r.Pairs
  function _ _ := False
  late := r.Late 0
  name_injective := Function.injective_id
  table_unique := Pairing.globalTables_unique
  var_unique := pairs_unique

theorem finds {vars vars' : VariableTable}
    (names : vars.toList.map Variable.name = r.before.map Global.name)
    (names' : vars'.toList.map Variable.name = r.after.map Global.name) :
    r.pairing.Finds 0 0 vars vars' := by
  intro name
  have here := VariableTable.lookup?_of_nodup names r.distinct name
  have here' := VariableTable.lookup?_of_nodup names' r.symm.distinct name
  change Option.Rel _ (vars.lookup? name) (vars'.lookup? name)
  cases found : vars.lookup? name with
  | some index =>
      obtain ⟨binding, bound, named⟩ : ∃ binding, r.before[index]? = some binding ∧ binding.name = name := by
        simpa using (here index).mp found
      obtain ⟨index', bound'⟩ := exists_after bound
      have found' : vars'.lookup? name = some index' := (here' index').mpr (by simp [bound', named])
      rw [found']
      exact .some ⟨rfl, rfl, binding, bound, bound'⟩
  | none =>
      cases found' : vars'.lookup? name with
      | none => exact .none
      | some index' =>
          obtain ⟨binding, bound', named⟩ : ∃ binding, r.after[index']? = some binding ∧
              binding.name = name := by
            simpa using (here' index').mp found'
          obtain ⟨index, bound⟩ := r.symm.exists_after bound'
          change r.before[index]? = some binding at bound
          have impossible := (here index).mpr (by simp [bound, named])
          cases found.symm.trans impossible

/-! ## Contexts -/

section Contexts

open Build (Settled withGlobals Signatures)

variable {types types' : List (Option Term)} {c c' : BuildContext}

variable (r) in
/-- Globals with the same binding have types that are alike. -/
def TypesLike (types types' : List (Option Term)) : Prop :=
  ∀ (i j : Nat) (binding : Global), r.before[i]? = some binding → r.after[j]? = some binding →
    ∃ type? type?', types[i]? = some type? ∧ types'[j]? = some type?' ∧
      Option.Rel r.pairing.TypeLike type? type?'

theorem contextLike (likes : r.TypesLike types types') (settled : Settled r.before types c)
    (settled' : Settled r.after types' c') : r.pairing.ContextLike c c' := by
  obtain ⟨vars, tableAt, names, _⟩ := settled.vars
  obtain ⟨vars', tableAt', names', _⟩ := settled'.vars
  refine ⟨⟨?_, ?_, fun _ _ paired => paired.elim⟩, ?_, ?_⟩
  · rintro _ _ ⟨rfl, rfl⟩
    exact ⟨vars, vars', tableAt, tableAt', finds names names'⟩
  · rintro ⟨_, i⟩ ⟨_, j⟩ ⟨rfl, rfl, binding, bound, bound'⟩
    obtain ⟨var, found, named, typeAt⟩ := settled.slot bound
    obtain ⟨var', found', named', typeAt'⟩ := settled'.slot bound'
    obtain ⟨type?, type?', readAt, readAt', alike⟩ := likes i j binding bound bound'
    cases typeAt.symm.trans readAt
    cases typeAt'.symm.trans readAt'
    exact ⟨var, var', found, found', named'.trans named.symm, alike,
      Or.inl ⟨⟨0, j⟩, ⟨rfl, rfl, binding, bound, bound'⟩, Nat.zero_le j⟩⟩
  · rw [settled.scope, settled'.scope]
    exact .cons ⟨rfl, rfl⟩ .nil
  · rw [settled.results, settled'.results]
    exact .nil

theorem scopeLike {vars vars' : List Variable} (names : vars.map Variable.name = r.before.map Global.name)
    (names' : vars'.map Variable.name = r.after.map Global.name) :
    r.pairing.ScopeLike (withGlobals vars) (withGlobals vars') := by
  refine ⟨?_, .cons ⟨rfl, rfl⟩ .nil⟩
  rintro _ _ ⟨rfl, rfl⟩
  exact ⟨vars.toArray, vars'.toArray, rfl, rfl, finds names names'⟩

/-- Types that can be read off in the first order can be read off in the second, and are alike. -/
theorem annotates (read : List.Forall₂ (fun binding type? => ∃ vars : List Variable,
      vars.map Variable.name = r.before.map Global.name ∧
      binding.signature (withGlobals vars) = .ok (type?, withGlobals vars)) r.before types) :
    ∃ types', (Global.pendings 0 0 r.after).forM Build.annotate (withGlobals (r.after.map Global.stub)) =
        .ok ((), withGlobals (List.zipWith Global.typed r.after types')) ∧
      r.TypesLike types types' ∧ Signatures r.after types' := by
  have like : ∀ phrase? : Option Phrase, Option.Rel (Phrase.Like r.pairing.name) phrase? phrase? := by
    rintro (_ | phrase)
    · exact .none
    · exact .some (Form.rename_id phrase.form).symm
  have each : ∀ binding ∈ r.after, ∀ vars' : List Variable,
      vars'.map Variable.name = r.after.map Global.name → ∃ type?',
        binding.signature (withGlobals vars') = .ok (type?', withGlobals vars') ∧
        (∃ context, binding.signature context = .ok (type?', context)) ∧
        ∀ (i : Nat) type?, r.before[i]? = some binding → types[i]? = some type? →
          Option.Rel r.pairing.TypeLike type? type?' := by
    intro binding member vars' names'
    obtain ⟨i, bound⟩ := List.mem_iff_getElem?.mp (r.perm.symm.subset member)
    obtain ⟨type?, typeAt, vars, names, readHere⟩ := forall₂_getElem? read bound
    have alike : Build.ReadsAlike r.pairing binding.signature binding.signature (withGlobals vars)
        (withGlobals vars') (Option.Rel r.pairing.TypeLike) :=
      Build.readsAlike_signature (scopeLike names names') (like _) (like _)
    cases alike with
    | refused run => cases readHere.symm.trans run
    | @both _ type?' run run' types =>
        cases readHere.symm.trans run
        refine ⟨type?', run', ⟨_, run'⟩, fun j other otherBound otherAt => ?_⟩
        cases index_unique bound otherBound
        cases typeAt.symm.trans otherAt
        exact types
  have noneDone : ([] : List Variable).map Variable.name ++ r.after.map Global.name =
      r.after.map Global.name := rfl
  obtain ⟨types', run, reads⟩ := Build.annotates_of_signatures noneDone each
  refine ⟨types', by simpa using run, fun i j binding bound bound' => ?_,
    reads.imp fun _ _ holds => holds.1⟩
  obtain ⟨type?, typeAt, _⟩ := forall₂_getElem? read bound
  obtain ⟨type?', typeAt', _, alike⟩ := forall₂_getElem? reads bound'
  exact ⟨type?, type?', typeAt, typeAt', alike i type? bound typeAt⟩

end Contexts

end Reordering

/-! ## Following the second build -/

/-- The pairs of two pairings together, with other late variables. -/
def Pairing.join (P Q : Pairing) (late : VarRef → Prop)
    (unique : Relator.BiUnique fun ref ref' => P.var ref ref' ∨ Q.var ref ref') : Pairing :=
  { P with
    var := fun ref ref' => P.var ref ref' ∨ Q.var ref ref'
    function := fun id id' => P.function id id' ∨ Q.function id id'
    late
    var_unique := unique }

namespace Build

variable {r : Reordering} {types types' : List (Option Term)} {first final context : BuildContext}
  {visit : Nat → Visit} {P : Pairing} {i j count : Nat} {binding : Global}

/-- In a build that succeeds, no call of a global without a type is put off. -/
theorem Visits.not_doomed (visits : Visits r.before types 0 first final visit) (judged : Judged final.deferred final)
    (bound : r.before[i]? = some binding) : ¬ r.pairing.Doomed (visit i).after := by
  rintro ⟨⟨⟨_, j⟩, calleeSpan, span⟩, member, ⟨ref', ⟨rfl, _, other, otherBound, _⟩, _⟩,
    var, found, untyped⟩
  have isVisit := visits.each i binding (Nat.zero_le i) bound
  obtain ⟨phrase, _, built⟩ := isVisit.built
  obtain ⟨var₁, found₁, _, typeAt₁⟩ :=
    (isVisit.settled.leaves (leaves_buildValue phrase _ _ _ built)).slot otherBound
  obtain ⟨var₂, found₂, _, typeAt₂⟩ := visits.settled.slot otherBound
  cases found.symm.trans found₁
  have untyped₂ : var₂.type? = none := by
    rw [← untyped]
    exact Option.some.inj (typeAt₂.symm.trans typeAt₁)
  obtain ⟨var₃, found₃, held⟩ := (visits.each j other (Nat.zero_le j) otherBound).held
  cases found₂.symm.trans found₃
  obtain ⟨type?, accepted⟩ := judged _ (isVisit.retains.deferred.subset member)
  rw [callType?_untyped _ _ found₂ untyped₂, held] at accepted
  cases accepted

/-- The value of a binding is built in the second order as it was at its visit in the first. -/
theorem Visits.exists_built {phrase : Phrase} (visits : Visits r.before types 0 first final visit)
    (judged : Judged final.deferred final) (likes : r.TypesLike types types') (settled : Settled r.after types' context)
    (bound : r.before[i]? = some binding) (isValue : binding.value? = some phrase) :
    ∃ Q value after, buildValue phrase context = .ok (value, after) ∧
      r.pairing.Follows Q (visit i).before context (visit i).after after ∧
      Q.ValueLike (visit i).value value := by
  have isVisit := visits.each i binding (Nat.zero_le i) bound
  obtain ⟨other, isOther, built⟩ := isVisit.built
  cases isValue.symm.trans isOther
  have alike := alike_buildValue (P := r.pairing) (Form.rename_id phrase.form).symm
    (Reordering.contextLike likes isVisit.settled settled)
  cases alike with
  | refused run => cases built.symm.trans run
  | doomed _ doomed => exact absurd (doomed _ _ built) (visits.not_doomed judged bound)
  | both run run' follows values =>
      cases built.symm.trans run
      exact ⟨_, _, _, run', follows, values⟩

/-- The second build has filled the globals before `count`; the other globals are late. Every variable
that is paired is a global or was declared at the visit of a global that is filled. -/
structure Tracks (r : Reordering) (types' : List (Option Term)) (final : BuildContext)
    (visit : Nat → Visit) (count : Nat) (P : Pairing) (context : BuildContext) : Prop where
  settled : Settled r.after types' context
  name : P.name = id
  table : P.table = r.pairing.table
  late : P.late = r.Late count
  within : r.pairing.Within P
  program : P.ProgramLike final.program context.program
  origin : ∀ ref ref', P.var ref ref' → r.Pairs ref ref' ∨ ∃ (i j : Nat) (binding : Global), j < count ∧
    r.before[i]? = some binding ∧ r.after[j]? = some binding ∧ (visit i).Makes ref
  calls : ∀ call' ∈ context.deferred, ∃ call ∈ final.deferred, P.var call.callee call'.callee

namespace Tracks

variable {Q : Pairing} {after : BuildContext} {ref ref' : VarRef}

/-- What the second build pairs at a global is new on both sides. -/
theorem new_pair (visits : Visits r.before types 0 first final visit)
    (tracks : Tracks r types' final visit count P context) (bound : r.before[i]? = some binding)
    (follows : r.pairing.Follows Q (visit i).before context (visit i).after after)
    (paired : Q.var ref ref') :
    P.var ref ref' ∨ (visit i).Makes ref ∧ slotIn? context.program.tables ref' = none := by
  rcases follows.fresh ref ref' paired with old | ⟨isNew, isNew'⟩
  · exact Or.inl (tracks.within.var old)
  · have isVisit := visits.each i binding (Nat.zero_le i) bound
    obtain ⟨phrase, _, built⟩ := isVisit.built
    obtain ⟨var, _, found, _⟩ := follows.context.program.vars ref ref' paired
    have isLocal := isVisit.settled.local_of_new (leaves_buildValue phrase _ _ _ built) isNew found
    exact Or.inr ⟨⟨isLocal, isNew, var, found⟩, isNew'⟩

/-- What is declared at the visit of a global that is still to be filled is not paired yet. -/
theorem not_makes (visits : Visits r.before types 0 first final visit)
    (tracks : Tracks r types' final visit count P context) (bound : r.before[i]? = some binding)
    (bound' : r.after[count]? = some binding) (paired : P.var ref ref') : ¬ (visit i).Makes ref := by
  intro makes
  rcases tracks.origin ref ref' paired with ⟨isGlobal, _⟩ | ⟨i₁, j₁, other, filled, bound₁, bound₁', makes₁⟩
  · exact makes.1 isGlobal
  · cases visits.makes_once (List.getElem?_eq_some_iff.mp bound).1 (List.getElem?_eq_some_iff.mp bound₁).1
      makes makes₁
    cases bound.symm.trans bound₁
    cases Reordering.index_unique (r := r.symm) bound' bound₁'
    exact Nat.lt_irrefl _ filled

theorem joined_unique (visits : Visits r.before types 0 first final visit)
    (tracks : Tracks r types' final visit count P context) (bound : r.before[i]? = some binding)
    (bound' : r.after[count]? = some binding)
    (follows : r.pairing.Follows Q (visit i).before context (visit i).after after) :
    Relator.BiUnique fun ref ref' => P.var ref ref' ∨ Q.var ref ref' := by
  have old : ∀ {ref ref' other other' : VarRef}, P.var ref ref' → Q.var other other' →
      (ref = other ∨ ref' = other') → P.var other other' := by
    intro ref ref' other other' paired pairedOther same
    rcases tracks.new_pair visits bound follows pairedOther with isOld | ⟨makes, isNew⟩
    · exact isOld
    · rcases same with rfl | rfl
      · exact absurd makes (tracks.not_makes visits bound bound' paired)
      · obtain ⟨_, var', _, found', _⟩ := tracks.program.vars _ _ paired
        cases isNew.symm.trans found'
  constructor
  · rintro a b c (first | first) (second | second)
    · exact P.var_unique.1 first second
    · exact P.var_unique.1 first (old first second (Or.inr rfl))
    · exact P.var_unique.1 (old second first (Or.inr rfl)) second
    · exact Q.var_unique.1 first second
  · rintro a b c (first | first) (second | second)
    · exact P.var_unique.2 first second
    · exact P.var_unique.2 first (old first second (Or.inl rfl))
    · exact P.var_unique.2 (old second first (Or.inl rfl)) second
    · exact Q.var_unique.2 first second

/-- The context of the second build once `value` is bound to a global. -/
def next (after : BuildContext) (count : Nat) (value : Term) : BuildContext :=
  { after with program := after.program.modifyVar ⟨0, count⟩ (filled value) }

variable {phrase : Phrase} {value : Term}

/-- The value fits the type of the global as it did in the first order. -/
theorem fits_alike (visits : Visits r.before types 0 first final visit) (likes : r.TypesLike types types')
    (bound : r.before[i]? = some binding) (bound' : r.after[j]? = some binding)
    (ext : r.pairing.Extends Q) (values : Q.ValueLike (visit i).value value) {type : Term}
    (typeAt : types'[j]? = some (some type)) : type.satisfies value = .ok true := by
  obtain ⟨type?, type?', readAt, readAt', alike⟩ := likes i j binding bound bound'
  cases typeAt.symm.trans readAt'
  cases alike with
  | some alike =>
      obtain ⟨answer, satisfied, satisfied'⟩ := Pairing.satisfies_alike (alike.mono ext.toWithin) values
      have fits := (visits.each i binding (Nat.zero_le i) bound).fits _ readAt
      cases satisfied.symm.trans fits
      exact satisfied'

section Join

variable (visits : Visits r.before types 0 first final visit)
  (tracks : Tracks r types' final visit count P context) (bound : r.before[i]? = some binding)
  (bound' : r.after[count]? = some binding) (built : buildValue phrase context = .ok (value, after))
  (follows : r.pairing.Follows Q (visit i).before context (visit i).after after)
  (values : Q.ValueLike (visit i).value value)
  (unique : Relator.BiUnique fun ref ref' => P.var ref ref' ∨ Q.var ref ref')

include visits tracks bound bound' follows in
theorem joined_origin (paired : P.var ref ref' ∨ Q.var ref ref') :
    r.Pairs ref ref' ∨ ∃ (i j : Nat) (binding : Global), j < count + 1 ∧ r.before[i]? = some binding ∧
      r.after[j]? = some binding ∧ (visit i).Makes ref := by
  have older : P.var ref ref' ∨ (visit i).Makes ref := by
    rcases paired with old | new
    · exact Or.inl old
    · exact (tracks.new_pair visits bound follows new).imp id And.left
  rcases older with old | makes
  · refine (tracks.origin ref ref' old).imp id ?_
    rintro ⟨i, j, other, filled, rest⟩
    exact ⟨i, j, other, Nat.lt_succ_of_lt filled, rest⟩
  · exact Or.inr ⟨i, count, binding, Nat.lt_succ_self count, bound, bound', makes⟩

include built in
/-- Variables of the second build are as they were, but for the global that is filled. -/
theorem slot_next {var : Variable} (found : slotIn? context.program.tables ref' = some var)
    (other : ref' ≠ ⟨0, count⟩) : slotIn? (next after count value).program.tables ref' = some var :=
  (slotIn?_modifyVar_of_ne other).trans ((leaves_buildValue phrase _ _ _ built).slots ref' var found)

include visits tracks bound bound' built values in
/-- Globals are alike once one more of them is filled. -/
theorem global_slots (likes : r.TypesLike types types')
    (settled : Settled r.after types' (next after count value)) (paired : r.Pairs ref ref') :
    ∃ var var', slotIn? final.program.tables ref = some var ∧
      slotIn? (next after count value).program.tables ref' = some var' ∧
      (P.join Q (r.Late (count + 1)) unique).SlotLike ref var var' := by
  have within : r.pairing.Within (P.join Q (r.Late (count + 1)) unique) :=
    ⟨fun paired => Or.inl (tracks.within.var paired), fun paired => paired.elim⟩
  have withinP : P.Within (P.join Q (r.Late (count + 1)) unique) := ⟨Or.inl, Or.inl⟩
  obtain ⟨var, var', found, found', slots⟩ :=
    (Reordering.contextLike likes visits.settled settled).program.vars ref ref' paired
  refine ⟨var, var', found, found', ?_, Pairing.typesLike_mono within slots.types, ?_⟩
  · rw [slots.name]
    exact congrFun tracks.name.symm _
  · rcases Nat.lt_trichotomy ref'.index count with earlier | isHere | later
    · obtain ⟨old, old', oldAt, oldAt', oldSlots⟩ := tracks.program.vars ref ref' (tracks.within.var paired)
      have kept := slot_next built oldAt' fun same => Nat.ne_of_lt earlier (congrArg VarRef.index same)
      cases found.symm.trans oldAt
      cases found'.symm.trans kept
      refine Or.inr (optionRel_mono (oldSlots.values.resolve_left ?_) fun _ _ => .mono withinP)
      rw [tracks.late]
      rintro ⟨other', pairedOther, late⟩
      cases r.pairing.var_unique.2 paired pairedOther
      exact Nat.lt_irrefl _ (Nat.lt_of_lt_of_le earlier late)
    · have isFilled : ref' = ⟨0, count⟩ := by rw [← paired.2.1, ← isHere]
      subst isFilled
      have globals : r.Pairs ⟨0, i⟩ ⟨0, count⟩ := ⟨rfl, rfl, binding, bound, bound'⟩
      cases r.pairing.var_unique.1 paired globals
      obtain ⟨_, foundFinal, held⟩ := (visits.each i binding (Nat.zero_le i) bound).held
      cases found.symm.trans foundFinal
      have leaves := leaves_buildValue phrase _ _ _ built
      obtain ⟨var₁, found₁, _⟩ := (tracks.settled.leaves leaves).slot bound'
      cases found'.symm.trans (slotIn?_modifyVar_same found₁)
      rw [held]
      exact Or.inr (.some (values.mono ⟨Or.inr, Or.inr⟩))
    · exact Or.inl ⟨ref', paired, later⟩

include visits tracks bound bound' built follows in
/-- Local variables are alike: those that were there, and those that belong to the global. -/
theorem local_slots (isLocal : ref.table ≠ 0) (paired : P.var ref ref' ∨ Q.var ref ref') :
    ∃ var var', slotIn? final.program.tables ref = some var ∧
      slotIn? (next after count value).program.tables ref' = some var' ∧
      (P.join Q (r.Late (count + 1)) unique).SlotLike ref var var' := by
  have globals : (P.join Q (r.Late (count + 1)) unique).var ⟨0, i⟩ ⟨0, count⟩ :=
    Or.inl (tracks.within.var ⟨rfl, rfl, binding, bound, bound'⟩)
  have other : ref' ≠ ⟨0, count⟩ := by
    rintro rfl
    exact isLocal (congrArg VarRef.table (unique.1 paired globals))
  have notLate : ∀ n, ¬ r.Late n ref := fun n ⟨_, ⟨isGlobal, _⟩, _⟩ => isLocal isGlobal
  rcases paired with old | new
  · obtain ⟨var, var', found, found', slots⟩ := tracks.program.vars ref ref' old
    have values := slots.values.resolve_left (tracks.late ▸ notLate count)
    exact ⟨var, var', found, slot_next built found' other, slots.name,
      Pairing.typesLike_mono ⟨Or.inl, Or.inl⟩ slots.types,
      Or.inr (optionRel_mono values fun _ _ => .mono ⟨Or.inl, Or.inl⟩)⟩
  · obtain ⟨var, var', found, found', slots⟩ := follows.context.program.vars ref ref' new
    have values := slots.values.resolve_left (follows.ext.late ▸ notLate 0)
    have retains := (visits.each i binding (Nat.zero_le i) bound).retains
    refine ⟨var, var', retains.slots ref var isLocal found, (slotIn?_modifyVar_of_ne other).trans found',
      ?_, Pairing.typesLike_mono ⟨Or.inr, Or.inr⟩ slots.types,
      Or.inr (optionRel_mono values fun _ _ => .mono ⟨Or.inr, Or.inr⟩)⟩
    rw [slots.name, follows.ext.name]
    exact congrFun tracks.name.symm _

include visits tracks bound bound' built follows values in
theorem joined_program (likes : r.TypesLike types types')
    (settled : Settled r.after types' (next after count value)) :
    (P.join Q (r.Late (count + 1)) unique).ProgramLike final.program (next after count value).program where
  tables t t' paired := by
    have both : r.pairing.table t t' := tracks.table ▸ paired
    obtain ⟨vars, vars', tableAt, tableAt', finds⟩ :=
      (Reordering.contextLike likes visits.settled settled).program.tables t t' both
    refine ⟨vars, vars', tableAt, tableAt', fun name => ?_⟩
    change Option.Rel _ _ (vars'.lookup? (P.name name))
    rw [tracks.name]
    exact optionRel_mono (finds name) fun _ _ paired => Or.inl (tracks.within.var paired)
  vars ref ref' paired := by
    by_cases isGlobal : r.Pairs ref ref'
    · exact global_slots visits tracks bound bound' built values unique likes settled isGlobal
    · obtain ⟨_, _, _, _, _, _, makes⟩ :=
        (joined_origin visits tracks bound bound' follows paired).resolve_left isGlobal
      exact local_slots visits tracks bound bound' built follows unique makes.1 paired
  functions id id' := by
    rintro (paired | paired)
    · obtain ⟨f, f', found, found', bodies⟩ := tracks.program.functions id id' paired
      exact ⟨f, f', found, (leaves_buildValue phrase _ _ _ built).functions id' f' found',
        bodies.imp fun _ _ => .mono ⟨Or.inl, Or.inl⟩⟩
    · obtain ⟨f, f', found, found', bodies⟩ := follows.context.program.functions id id' paired
      exact ⟨f, f', (visits.each i binding (Nat.zero_le i) bound).retains.functions id f found, found',
        bodies.imp fun _ _ => .mono ⟨Or.inr, Or.inr⟩⟩

end Join

/-- One more global is filled in the second build. -/
theorem step (visits : Visits r.before types 0 first final visit) (judged : Judged final.deferred final)
    (likes : r.TypesLike types types') (plain' : Plain r.after types')
    (tracks : Tracks r types' final visit count P context) (bound' : r.after[count]? = some binding) :
    ∃ P' next, fill (binding.pending 0 count) context = .ok ((), next) ∧
      Tracks r types' final visit (count + 1) P' next := by
  obtain ⟨i, bound⟩ : ∃ i : Nat, r.before[i]? = some binding := Reordering.exists_after (r := r.symm) bound'
  have isVisit := visits.each i binding (Nat.zero_le i) bound
  obtain ⟨phrase, isValue, builtBefore⟩ := isVisit.built
  obtain ⟨Q, value, after, built, follows, values⟩ :=
    visits.exists_built judged likes tracks.settled bound isValue
  have leaves := leaves_buildValue phrase _ _ _ built
  have settledAfter := tracks.settled.leaves leaves
  obtain ⟨var, found, _, typeAt⟩ := settledAfter.slot bound'
  have fills : fill (binding.pending 0 count) context = .ok ((), next after count value) := by
    unfold fill Global.pending
    simp only [isValue]
    refine (bind_of_ok built).trans (bind_of_satisfies found fun type typed => ?_)
    rw [typed] at typeAt
    exact fits_alike visits likes bound bound' follows.ext values typeAt
  have settledNext : Settled r.after types' (next after count value) :=
    settledAfter.fill plain' bound' isValue built
  have unique := tracks.joined_unique visits bound bound' follows
  refine ⟨P.join Q (r.Late (count + 1)) unique, _, fills, settledNext, tracks.name, tracks.table, rfl,
    ⟨fun paired => Or.inl (tracks.within.var paired), fun paired => paired.elim⟩, ?_, ?_, ?_⟩
  · exact joined_program visits tracks bound bound' built follows values unique likes settledNext
  · exact fun ref ref' paired => joined_origin visits tracks bound bound' follows paired
  · obtain ⟨calls, calls', equal, equal', paired⟩ := follows.calls
    intro call' member
    change call' ∈ after.deferred at member
    rw [equal', List.mem_append] at member
    rcases member with old | new
    · obtain ⟨call, member, paired⟩ := tracks.calls call' old
      exact ⟨call, member, Or.inl paired⟩
    · obtain ⟨n, found⟩ := List.mem_iff_getElem?.mp new
      obtain ⟨call, callAt, paired⟩ := forall₂_getElem? paired.flip found
      refine ⟨call, isVisit.retains.deferred.subset ?_, Or.inr paired⟩
      rw [equal]
      exact List.mem_append_right _ (List.mem_of_getElem? callAt)

/-- All globals from `count` on are filled in the second build. -/
theorem run {rest : List Global} (visits : Visits r.before types 0 first final visit)
    (judged : Judged final.deferred final) (likes : r.TypesLike types types')
    (plain' : Plain r.after types') (tracks : Tracks r types' final visit count P context)
    (isRest : r.after.drop count = rest) :
    ∃ P' last, (Global.pendings 0 count rest).forM fill context = .ok ((), last) ∧
      Tracks r types' final visit (count + rest.length) P' last := by
  induction rest generalizing count P context with
  | nil => exact ⟨P, context, rfl, tracks⟩
  | cons binding rest ih =>
      obtain ⟨bound', others⟩ := drop_eq_cons isRest
      obtain ⟨P₁, next, fills, tracks₁⟩ := tracks.step visits judged likes plain' bound'
      obtain ⟨P₂, last, run, tracks₂⟩ := ih tracks₁ others
      refine ⟨P₂, last, (bind_of_ok fills).trans run, ?_⟩
      rw [List.length_cons, Nat.add_comm rest.length, ← Nat.add_assoc]
      exact tracks₂

/-- Before the second build fills any global, they are all late. -/
theorem initial (visits : Visits r.before types 0 first final visit) (likes : r.TypesLike types types')
    (settled : Settled r.after types' context) (noCalls : context.deferred = []) :
    Tracks r types' final visit 0 r.pairing context where
  settled := settled
  name := rfl
  table := rfl
  late := rfl
  within := ⟨id, id⟩
  program := (Reordering.contextLike likes visits.settled settled).program
  origin _ _ := Or.inl
  calls call member := by
    rw [noCalls] at member
    cases member

/-- In the end no global is late. -/
theorem strict (tracks : Tracks r types' final visit r.after.length P context) : P.Strict := by
  intro ref late
  rw [tracks.late] at late
  obtain ⟨ref', ⟨_, _, _, _, bound'⟩, outside⟩ := late
  exact absurd (List.getElem?_eq_some_iff.mp bound').1 (Nat.not_lt.mpr outside)

/-- In the end the calls that were put off are right in the second order too. -/
theorem judged (tracks : Tracks r types' final visit r.after.length P context)
    (settled : Settled r.before types final) (judged : Judged final.deferred final) :
    Judged context.deferred context := by
  intro call' member
  obtain ⟨call, member, paired⟩ := tracks.calls call' member
  obtain ⟨type?, accepted⟩ := judged call member
  have contexts : P.ContextLike final context := by
    refine ⟨tracks.program, ?_, ?_⟩
    · rw [settled.scope, tracks.settled.scope, tracks.table]
      exact .cons ⟨rfl, rfl⟩ .nil
    · rw [settled.results, tracks.settled.results]
      exact .nil
  have judges : ReadsAlike P (callType? call.callee call.calleeSpan call.span)
      (callType? call'.callee call'.calleeSpan call'.span) final context fun _ _ => True :=
    readsAlike_judge tracks.strict contexts paired
  cases judges with
  | refused run => cases accepted.symm.trans run
  | both _ run' => exact ⟨_, run'⟩

end Tracks

/-- A build that succeeds in the first order succeeds in the second, and the programs are alike. -/
theorem topLevel_reordered {phrases phrases' : List Phrase} {u : Unit}
    (areGlobals : phrases.map Phrase.global? = r.before.map some)
    (areGlobals' : phrases'.map Phrase.global? = r.after.map some)
    (shown : ∀ binding ∈ r.before, binding.shown) (run : topLevel phrases start = .ok (u, final)) :
    ∃ types types' P last, topLevel phrases' start = .ok ((), last) ∧ Settled r.before types final ∧
      Settled r.after types' last ∧ P.Strict ∧ r.pairing.Within P ∧
      P.ProgramLike final.program last.program := by
  obtain ⟨annotated, annotates, fills, judged⟩ := (topLevel_eq_ok_iff areGlobals).mp run
  have fromStart : (Global.pendings 0 ([] : List Variable).length r.before).forM annotate
      (withGlobals ([] ++ r.before.map Global.stub)) = .ok ((), annotated) := annotates
  obtain ⟨types, rfl, read⟩ := types_of_annotates fromStart
  have signatures : Signatures r.before types := read.imp fun _ _ ⟨vars, _, signed⟩ => ⟨_, signed⟩
  obtain ⟨types', annotates', likes, signatures'⟩ := Reordering.annotates read
  have shown' : ∀ binding ∈ r.after, binding.shown :=
    fun binding member => shown binding (r.perm.symm.subset member)
  have settled : Settled r.before types (withGlobals (List.zipWith Global.typed r.before types)) :=
    .ofTypes signatures.length_eq
  obtain ⟨visit, visits⟩ := visits_of_fills fills List.drop_zero settled (plain_of_shown signatures shown)
  have settled' : Settled r.after types' (withGlobals (List.zipWith Global.typed r.after types')) :=
    .ofTypes signatures'.length_eq
  obtain ⟨P, last, fills', tracks⟩ := (Tracks.initial visits likes settled' rfl).run visits judged likes
    (plain_of_shown signatures' shown') List.drop_zero
  rw [Nat.zero_add] at tracks
  have judged' := tracks.judged visits.settled judged
  exact ⟨types, types', P, last, (topLevel_eq_ok_iff areGlobals').mpr ⟨_, annotates', fills', judged'⟩,
    visits.settled, tracks.settled, tracks.strict, tracks.within, tracks.program⟩

end Build

/-! ## Programs -/

namespace Program

variable {globals globals' : VariableTable} {s s' : Scene} {P : Pairing} {r : Reordering}

/-- With different names, the entry point is the function of the only global called `main`. -/
theorem entryPoint?_of_lookup? {i : Nat} {var : Variable}
    (distinct : (globals.toList.map Variable.name).Nodup) (found : globals.lookup? entryName = some i)
    (varAt : globals[i]? = some var) : entryPoint? globals = var.function? := by
  have member : var ∈ globals.toList := List.mem_of_getElem? (Array.getElem?_toList.trans varAt)
  have isMain : var.name = entryName := by
    simpa [varAt] using (VariableTable.lookup?_of_nodup rfl distinct entryName i).mp found
  have others : ∀ other ∈ globals.toList.reverse,
      other = var ∨ (if other.name == entryName then other.function? else none) = none := by
    intro other isOther
    by_cases alsoMain : other.name = entryName
    · exact Or.inl (List.inj_on_of_nodup_map distinct (List.mem_reverse.mp isOther) member
        (alsoMain.trans isMain.symm))
    · exact Or.inr (by simp [alsoMain])
  simpa [entryPoint?, isMain] using findSome?_of_unique (List.mem_reverse.mpr member) others

theorem entryPoint?_of_lookup?_none (distinct : (globals.toList.map Variable.name).Nodup)
    (missing : globals.lookup? entryName = none) : entryPoint? globals = none := by
  unfold entryPoint?
  rw [List.findSome?_eq_none_iff]
  intro var member
  obtain ⟨i, varAt⟩ := List.mem_iff_getElem?.mp (List.mem_reverse.mp member)
  have notMain : var.name ≠ entryName := by
    intro isMain
    have found := (VariableTable.lookup?_of_nodup rfl distinct entryName i).mpr
      (by rw [List.getElem?_map, varAt, Option.map_some, isMain])
    cases missing.symm.trans found
  simp [notMain]

/-- The entry points of complete programs with the same bindings in two orders. -/
theorem entryPoint?_reordered (strict : P.Strict) (within : r.pairing.Within P) (complete : s.Complete)
    (complete' : s'.Complete) (alike : P.ProgramLike s.program s'.program)
    (isGlobals : s.program.globals = 0) (isGlobals' : s'.program.globals = 0)
    (globalsAt : s.program.tables[0]? = some globals) (globalsAt' : s'.program.tables[0]? = some globals')
    (names : globals.toList.map Variable.name = r.before.map Global.name)
    (names' : globals'.toList.map Variable.name = r.after.map Global.name) :
    Option.Rel (SameArity P s.program s'.program) (entryPoint? globals) (entryPoint? globals') := by
  have distinct : (globals.toList.map Variable.name).Nodup := names ▸ r.distinct
  have distinct' : (globals'.toList.map Variable.name).Nodup := names' ▸ r.symm.distinct
  rcases optionRel_cases (Reordering.finds names names' entryName) with
    ⟨missing, missing'⟩ | ⟨i, j, found, found', paired⟩
  · rw [entryPoint?_of_lookup?_none distinct missing, entryPoint?_of_lookup?_none distinct' missing']
    exact .none
  · obtain ⟨var, var', varAt, varAt', slots⟩ := alike.vars _ _ (within.var paired)
    have inGlobals : globals[i]? = some var := by simpa [slotIn?, globalsAt] using varAt
    have inGlobals' : globals'[j]? = some var' := by simpa [slotIn?, globalsAt'] using varAt'
    rw [entryPoint?_of_lookup? distinct found inGlobals, entryPoint?_of_lookup? distinct' found' inGlobals']
    rw [← isGlobals] at varAt slots
    rw [← isGlobals'] at varAt'
    exact function?_alike strict complete complete' varAt varAt' slots

end Program

/-- Bindings whose types can be read off build in any order, to programs that run alike. -/
theorem buildPhrases_reordered {r : Reordering} {phrases phrases' : List Phrase} {program : Program}
    (areGlobals : phrases.map Phrase.global? = r.before.map some)
    (areGlobals' : phrases'.map Phrase.global? = r.after.map some)
    (shown : ∀ binding ∈ r.before, binding.shown) (built : buildPhrases phrases = .ok program) :
    ∃ program', buildPhrases phrases' = .ok program' ∧ program.RunsLike program' := by
  obtain ⟨final, run, rfl⟩ := buildPhrases_eq_ok_iff.mp built
  obtain ⟨types, types', P, last, run', settled, settled', strict, within, alike⟩ :=
    Build.topLevel_reordered areGlobals areGlobals' shown run
  have built' := buildPhrases_eq_ok_iff.mpr ⟨last, run', rfl⟩
  obtain ⟨s, sameProgram, complete⟩ := buildPhrases_complete built
  obtain ⟨s', sameProgram', complete'⟩ := buildPhrases_complete built'
  obtain ⟨globals, globalsAt, names, _⟩ := settled.vars
  obtain ⟨globals', globalsAt', names', _⟩ := settled'.vars
  refine ⟨last.program, built', Program.run_alike strict alike ?_⟩
  refine Program.entries_alike (settled.globals.symm ▸ globalsAt) (settled'.globals.symm ▸ globalsAt') ?_
  have isGlobals := settled.globals
  have isGlobals' := settled'.globals
  rw [← sameProgram] at alike isGlobals globalsAt ⊢
  rw [← sameProgram'] at alike isGlobals' globalsAt' ⊢
  exact Program.entryPoint?_reordered strict within complete complete' alike isGlobals isGlobals'
    globalsAt globalsAt' names names'

/-! ## Trees -/

namespace ParseTree

/-- The tree with other top-level nodes. -/
def withRootChildren (tree : ParseTree) (children : List NodeId) : ParseTree :=
  match tree.root with
  | some root =>
      { tree with nodes := tree.nodes.modify root fun node => { node with construct := .root children } }
  | none => tree

/-- Whether the top level consists of bindings with different names whose types can be read off. -/
def readable (tree : ParseTree) : Bool :=
  match tree.topLevel with
  | .ok phrases =>
      let bindings := phrases.filterMap Phrase.global?
      phrases.all (fun phrase => phrase.global?.isSome) && decide (bindings.map Global.name).Nodup &&
        bindings.all Global.shown
  | .error _ => false

/-- Changing a node does not change what is read at other nodes, if it is no part of any. -/
theorem readAt_modify {nodes : Array Node} {root id : NodeId} {change : Node → Node}
    (noPart : ∀ (n : NodeId) (node : Node), nodes[n]? = some node → root ∉ node.construct.parts)
    (other : id ≠ root) (depth : Nat) :
    readAt (nodes.modify root change) depth id = readAt nodes depth id := by
  induction depth generalizing id with
  | zero => rw [readAt, readAt, Array.size_modify]
  | succ depth ih =>
      have sameNode : fetch (nodes.modify root change) id = fetch nodes id := by
        rw [fetch, fetch, Array.getElem?_modify, if_neg (Ne.symm other), Array.size_modify]
      rw [readAt, readAt, sameNode]
      cases found : fetch nodes id with
      | error fault => rfl
      | ok node =>
          have sameParts := Construct.mapM_congr fun part member =>
            ih fun isRoot => noPart id node (fetch_eq_ok_iff.mp found) (isRoot ▸ member)
          simp only [bind, Except.bind, sameParts]

/-- The top level of a tree whose root node has children that can be read. -/
theorem topLevel_of_root {nodes : Array Node} {rootNode : Node} {ids : List NodeId} {depth : Nat}
    {phraseOf : NodeId → Phrase} (foundRoot : nodes[0]? = some rootNode)
    (isRoot : rootNode.construct = .root ids) (size : nodes.size = depth + 1)
    (reads : ∀ id ∈ ids, readAt nodes depth id = .ok (phraseOf id)) :
    topLevel ⟨nodes, some 0⟩ = .ok (ids.map phraseOf) := by
  have read : readAt nodes nodes.size 0 = .ok ⟨.root (ids.map phraseOf), rootNode.span⟩ := by
    have parts := Construct.mapM_eq_ok (c := .root ids) reads
    rw [size, readAt, fetch_eq_ok_iff.mpr foundRoot]
    simp only [bind, Except.bind, isRoot, parts]
    rfl
  have phrase : phrase? ⟨nodes, some 0⟩ = .ok (some ⟨.root (ids.map phraseOf), rootNode.span⟩) := by
    change (readAt nodes nodes.size 0 >>= fun phrase => pure (some phrase)) = _
    rw [read]
    rfl
  rw [topLevel, phrase]
  rfl

end ParseTree

/-- The top-level phrases of a parsed tree are those of its top-level nodes, in any order. -/
theorem Workspace.Parsed.topLevel_eq {lexemes : List Lexeme} {children : List Form} {tree : ParseTree}
    {w : Workspace} {forms : NodeId → Form} (parsed : Parsed lexemes children tree w forms) :
    ∃ phraseOf : NodeId → Phrase, tree.topLevel = .ok (tree.rootChildren.map phraseOf) ∧
      ∀ ids ⊆ tree.rootChildren, (tree.withRootChildren ids).topLevel = .ok (ids.map phraseOf) := by
  have valid := parsed.valid
  obtain ⟨rootNode, foundRoot, noParent, _⟩ := parsed.root
  obtain ⟨ids, isRoot⟩ : ∃ ids, rootNode.construct = .root ids := by
    have form := (valid.form 0 rootNode foundRoot List.not_mem_nil).symm.trans parsed.form
    cases construct : rootNode.construct <;> simp [construct, Construct.map] at form
    exact ⟨_, rfl⟩
  have rootChildren : tree.rootChildren = ids := by
    obtain ⟨construct, span, tokens, parent⟩ := rootNode
    cases isRoot
    simp [parsed.tree_eq, ParseTree.rootChildren, foundRoot]
  obtain ⟨depth, size⟩ : ∃ depth, w.nodes.size = depth + 1 :=
    Nat.exists_eq_add_one_of_ne_zero (Nat.ne_of_gt (lt_size foundRoot))
  have noPart : ∀ (n : NodeId) (node : Node), w.nodes[n]? = some node → 0 ∉ node.construct.parts := by
    intro n node found isPart
    cases noParent.symm.trans ((parsed.lister_iff foundRoot found).mp isPart)
  have reads : ∀ id, ∃ phrase, id ∈ ids → ParseTree.readAt w.nodes depth id = .ok phrase := by
    intro id
    by_cases member : id ∈ ids
    · have isPart : id ∈ rootNode.construct.parts := by rwa [isRoot]
      obtain ⟨node, found, _⟩ := (valid.tiles 0 rootNode foundRoot List.not_mem_nil).part_bounds
        (Construct.part_mem_layout.mpr isPart)
      have lower := valid.rank_part_lt foundRoot List.not_mem_nil isPart
      have small := rank_lt_size (lt_size foundRoot)
      have deep : w.rank id < depth := by omega
      obtain ⟨phrase, read, _⟩ := valid.readAt found List.not_mem_nil deep
      exact ⟨phrase, fun _ => read⟩
    · exact ⟨⟨.void, ⟨0, 0⟩⟩, fun isChild => absurd isChild member⟩
  choose phraseOf reads using reads
  rw [rootChildren, parsed.tree_eq]
  refine ⟨phraseOf, ParseTree.topLevel_of_root foundRoot isRoot size reads, fun others subset => ?_⟩
  have found : (w.nodes.modify 0 fun node => { node with construct := .root others })[0]? =
      some { rootNode with construct := .root others } := by
    rw [Array.getElem?_modify, if_pos rfl, foundRoot, Option.map_some]
  refine ParseTree.topLevel_of_root found rfl (Array.size_modify.trans size) fun id member => ?_
  · have notRoot : id ≠ 0 := by
      rintro rfl
      exact noPart 0 rootNode foundRoot (by rw [isRoot]; exact subset member)
    rw [ParseTree.readAt_modify noPart notRoot]
    exact reads id (subset member)

theorem map_global?_eq {phrases : List Phrase} (areGlobals : ∀ phrase ∈ phrases, phrase.global?.isSome) :
    phrases.map Phrase.global? = (phrases.filterMap Phrase.global?).map some := by
  induction phrases with
  | nil => rfl
  | cons phrase phrases ih =>
      obtain ⟨isGlobal, others⟩ := List.forall_mem_cons.mp areGlobals
      obtain ⟨binding, isBinding⟩ := Option.isSome_iff_exists.mp isGlobal
      rw [List.map_cons, List.filterMap_cons_some isBinding, List.map_cons, ih others, isBinding]

/-- Bindings at the top level whose types can be read off may be put in any order: a tree that reduction
returns and a tree with the same top-level nodes in another order are both built or both refused, and
the programs run alike. -/
theorem order_of_bindings_irrelevant (lexemes : List Lexeme) (tree : ParseTree)
    (reduced : reduce lexemes = .ok tree) (readable : tree.readable = true) (children : List NodeId)
    (permuted : children.Perm tree.rootChildren) :
    ((∃ program, build tree = .ok program) ↔
      ∃ program, build (tree.withRootChildren children) = .ok program) ∧
    ∀ program program', build tree = .ok program → build (tree.withRootChildren children) = .ok program' →
      program.RunsLike program' := by
  have agrees := Workspace.reduce_agrees lexemes
  rw [reduced] at agrees
  obtain ⟨_, _, _, _, parsed⟩ := agrees.of_ok
  obtain ⟨phraseOf, top, tops⟩ := parsed.topLevel_eq
  have top' := tops children permuted.subset
  have samePhrases := permuted.symm.map phraseOf
  generalize tree.rootChildren.map phraseOf = phrases at top samePhrases
  generalize children.map phraseOf = phrases' at top' samePhrases
  simp only [ParseTree.readable, top, Bool.and_eq_true, List.all_eq_true, decide_eq_true_eq] at readable
  obtain ⟨⟨areGlobals, distinct⟩, shown⟩ := readable
  let r : Reordering := ⟨phrases.filterMap Phrase.global?, phrases'.filterMap Phrase.global?,
    samePhrases.filterMap _, distinct⟩
  have isBefore : phrases.map Phrase.global? = r.before.map some := map_global?_eq areGlobals
  have isAfter : phrases'.map Phrase.global? = r.after.map some :=
    map_global?_eq fun phrase member => areGlobals phrase (samePhrases.symm.subset member)
  have shown' : ∀ binding ∈ r.after, binding.shown := fun binding member =>
    shown binding (r.perm.symm.subset member)
  rw [build, build, top, top']
  refine ⟨⟨?_, ?_⟩, ?_⟩
  · rintro ⟨program, built⟩
    obtain ⟨program', built', _⟩ := buildPhrases_reordered isBefore isAfter shown built
    exact ⟨program', built'⟩
  · rintro ⟨program', built'⟩
    obtain ⟨program, built, _⟩ := buildPhrases_reordered (r := r.symm) isAfter isBefore shown' built'
    exact ⟨program, built⟩
  · intro program program' built built'
    obtain ⟨other, builtOther, alike⟩ := buildPhrases_reordered isBefore isAfter shown built
    cases built'.symm.trans builtOther
    exact alike

/-- A source whose first function calls a later one, which reads a constant of a named type. -/
def forward : String :=
  "main :: () -> void \x7b print_u64 next(); run(); \x7d;
   next :: () -> u64 \x7b step :: base + 1; return step; \x7d;
   base : u64 : 40;
   run : () -> void : () -> void \x7b print_u64 next() + base; \x7d;
   word :: u64;"

theorem order_of_bindings_irrelevant_for_forward :
    ∃ tree, reduce (tokenize forward).lexemes = .ok tree ∧ tree.readable = true ∧
      (∃ program, build tree = .ok program) ∧
      (∃ program, build (tree.withRootChildren tree.rootChildren.reverse) = .ok program) ∧
      ∀ program program', build tree = .ok program →
        build (tree.withRootChildren tree.rootChildren.reverse) = .ok program' →
        program.RunsLike program' := by
  have accepted : (reduce (tokenize forward).lexemes).toOption.any
      (fun tree => tree.readable && (build tree).isOk) = true := by decide +kernel
  simp only [any_toOption_iff, Bool.and_eq_true] at accepted
  obtain ⟨tree, reduced, readable, isOk⟩ := accepted
  obtain ⟨program, built⟩ := exists_of_isOk isOk
  obtain ⟨iff, alike⟩ := order_of_bindings_irrelevant _ tree reduced readable _ (List.reverse_perm _)
  exact ⟨tree, reduced, readable, ⟨program, built⟩, iff.mp ⟨program, built⟩, alike⟩

end Rill

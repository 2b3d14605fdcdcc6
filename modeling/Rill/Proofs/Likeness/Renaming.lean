import Mathlib
import Rill.Proofs.Build.Globals
import Rill.Proofs.Likeness.Running
import Rill.Proofs.Reduction.Renaming

/-!
# Layout and naming

Sources that differ only in their layout and in the names of their identifiers mean the same. The two
lists of lexemes need not have anything in common but their tokens, and of these the identifiers may be
renamed, as long as different names stay different and `main` stays `main`.

All stages follow suit: `reduce_renamed` is about the reduction, `alike_topLevel` about the build of
the top-level phrases, and `run_alike` about the run.
-/

namespace Rill

namespace Build

variable {P : Pairing} {c c' : BuildContext}

/-! ## The steps of the top level -/

/-- Bindings of paired globals with types and values that are alike. -/
structure PendingLike (P : Pairing) (pending pending' : Pending) : Prop where
  ref : P.var pending.ref pending'.ref
  type? : Option.Rel (Phrase.Like P.name) pending.type? pending'.type?
  value? : Option.Rel (Phrase.Like P.name) pending.value? pending'.value?

theorem PendingLike.mono {P' : Pairing} {pending pending' : Pending} (ext : P.Extends P')
    (alike : PendingLike P pending pending') : PendingLike P' pending pending' :=
  ⟨ext.var alike.ref, ext.name ▸ alike.type?, ext.name ▸ alike.value?⟩

theorem alike_declareGlobal {t t' : TableId} {phrase phrase' : Phrase} (alike : P.ContextLike c c')
    (paired : P.table t t') (phrases : Phrase.Like P.name phrase phrase') :
    Alike P (declareGlobal t phrase) (declareGlobal t' phrase') c c' PendingLike := by
  have kinds := phrases.construct
  unfold declareGlobal
  generalize phrase.construct = construct at kinds ⊢
  generalize phrase'.construct = construct' at kinds ⊢
  cases kinds with
  | @statement inner inner' inners =>
      have innerKinds := inners.construct
      dsimp only
      generalize inner.construct = construct at innerKinds ⊢
      generalize inner'.construct = construct' at innerKinds ⊢
      cases innerKinds with
      | binding name types values =>
          refine .afterRead alike (readsAlike_nameOf name) ?_
          rintro text _ rfl
          obtain ⟨P₁, vars, vars', tableAt, tableAt', pairedVars, follows⟩ := exists_declare
            ⟨text, _, none, none⟩ ⟨P.name text, _, none, none⟩ alike paired fun ref => ⟨rfl, .none, Or.inr .none⟩
          refine .next (declare_of_table _ tableAt) (declare_of_table _ tableAt') follows ?_
          exact .pure follows.context ⟨pairedVars, follows.ext.name ▸ types, follows.ext.name ▸ values⟩
      | _ => exact .refuse (.topLevelNotBinding _)
  | _ => exact .refuse (.topLevelNotBinding _)

theorem readsAlike_signature {pending pending' : Pending} (alike : P.ScopeLike c c')
    (types : Option.Rel (Phrase.Like P.name) pending.type? pending'.type?)
    (values : Option.Rel (Phrase.Like P.name) pending.value? pending'.value?) :
    ReadsAlike P (signature pending) (signature pending') c c' (Option.Rel P.TypeLike) := by
  unfold signature
  generalize pending.type? = type? at types ⊢
  generalize pending'.type? = type?' at types ⊢
  generalize pending.value? = value? at values ⊢
  generalize pending'.value? = value?' at values ⊢
  cases types with
  | some type => exact (readsAlike_buildType alike type).map fun _ _ => .some
  | none =>
      cases values with
      | some value => exact readsAlike_literalType? alike value
      | none => exact .pure .none

theorem alike_annotate {pending pending' : Pending} (alike : P.ContextLike c c')
    (pendings : PendingLike P pending pending') :
    Alike P (annotate pending) (annotate pending') c c' fun _ _ _ => True := by
  rw [annotate_eq, annotate_eq]
  refine .afterRead alike (readsAlike_signature alike.toScope pendings.type? pendings.value?) ?_
  intro type? type?' types
  exact .both rfl rfl (follows_modifyVar alike pendings.ref (fun _ => rfl) (fun _ => rfl)
    fun _ _ slots => ⟨slots.name, types, slots.values⟩) trivial

theorem alike_fill {pending pending' : Pending} (strict : P.Strict) (alike : P.ContextLike c c')
    (pendings : PendingLike P pending pending') :
    Alike P (fill pending) (fill pending') c c' fun _ _ _ => True := by
  have values := pendings.value?
  unfold fill
  generalize pending.value? = value? at values ⊢
  generalize pending'.value? = value?' at values ⊢
  cases values with
  | some value =>
      exact (alike_buildValue value alike).bind strict.elim
        fun _ _ _ _ _ follows values => alike_bind follows.context (follows.ext.var pendings.ref) values
  | none =>
      refine .afterRead alike (readsAlike_readVar alike pendings.ref) fun var var' slots => .refuse ?_
      rw [slots.name]
      exact .missingValue var.name

/-- Where no variable is late, calls of paired variables are judged alike. -/
theorem readsAlike_judge {ref ref' : VarRef} {calleeSpan span calleeSpan' span' : Span}
    (strict : P.Strict) (alike : P.ContextLike c c') (paired : P.var ref ref') :
    ReadsAlike P (callType? ref calleeSpan span) (callType? ref' calleeSpan' span') c c'
      fun _ _ => True := by
  obtain ⟨var, var', found, found', slots⟩ := alike.program.vars ref ref' paired
  rcases optionRel_cases slots.types with ⟨untyped, untyped'⟩ | ⟨type, type', typed, typed', types⟩
  · have here := callType?_untyped calleeSpan span found untyped
    have here' := callType?_untyped calleeSpan' span' found' untyped'
    rcases optionRel_cases (slots.values.resolve_left (strict ref)) with
      ⟨empty, empty'⟩ | ⟨value, value', held, held', _⟩
    · rw [empty] at here
      rw [empty'] at here'
      exact .both here here' trivial
    · rw [held] at here
      rw [held'] at here'
      refine .refused here here' ?_
      rw [slots.name]
      exact .notCallable _ .type
  · exact (readsAlike_callType? alike found found' slots.name typed typed' types).mono fun _ _ _ => trivial

theorem alike_recheck {call call' : DeferredCall} (strict : P.Strict) (alike : P.ContextLike c c')
    (paired : P.var call.callee call'.callee) :
    Alike P (recheck call) (recheck call') c c' fun _ _ _ => True :=
  .afterRead alike (readsAlike_judge strict alike paired) fun _ _ _ => .pure alike trivial

end Build

/-! ## Two builds -/

namespace Pairing

/-- The tables of the globals are a pair of their own. -/
theorem globalTables_unique : Relator.BiUnique fun t t' : TableId => t = 0 ∧ t' = 0 :=
  ⟨fun _ _ _ h h' => h.1.trans h'.1.symm, fun _ _ _ h h' => h.2.trans h'.2.symm⟩

/-- The pairing that two builds start with: the tables of the globals, which are still empty. -/
def initial (ρ : String → String) (injective : Function.Injective ρ) : Pairing where
  name := ρ
  table t t' := t = 0 ∧ t' = 0
  var _ _ := False
  function _ _ := False
  late _ := False
  name_injective := injective
  table_unique := globalTables_unique
  var_unique := ⟨fun _ _ _ h => h.elim, fun _ _ _ h => h.elim⟩

theorem initial_strict (ρ : String → String) (injective : Function.Injective ρ) :
    (initial ρ injective).Strict :=
  fun _ late => late

theorem initial_context (ρ : String → String) (injective : Function.Injective ρ) :
    (initial ρ injective).ContextLike Build.start Build.start := by
  refine ⟨⟨?_, fun _ _ paired => paired.elim, fun _ _ paired => paired.elim⟩, .cons ⟨rfl, rfl⟩ .nil, .nil⟩
  rintro _ _ ⟨rfl, rfl⟩
  exact ⟨#[], #[], rfl, rfl, fun _ => .none⟩

end Pairing

namespace Build

variable {P : Pairing} {ρ : String → String} {phrases phrases' : List Phrase}

/-- The globals are paired one by one. -/
def Aligned (P : Pairing) (count : Nat) : Prop :=
  ∀ i < count, P.var ⟨0, i⟩ ⟨0, i⟩

theorem aligned_of_declareGlobals {pending pending' : List Pending} {d d' : BuildContext}
    (run : phrases.mapM (declareGlobal 0) start = .ok (pending, d))
    (run' : phrases'.mapM (declareGlobal 0) start = .ok (pending', d'))
    (pendings : List.Forall₂ (PendingLike P) pending pending') : Aligned P phrases.length := by
  obtain ⟨bindings, areGlobals⟩ := globals_of_declareGlobals run
  obtain ⟨bindings', areGlobals'⟩ := globals_of_declareGlobals run'
  have tableAt : start.program.tables[0]? = some #[] := rfl
  cases (declareGlobals_of_globals areGlobals tableAt).symm.trans run
  cases (declareGlobals_of_globals areGlobals' tableAt).symm.trans run'
  have count : phrases.length = bindings.length := by
    simpa using congrArg List.length areGlobals
  obtain ⟨lengths, each⟩ := List.forall₂_iff_get.mp pendings
  intro i inBounds
  rw [count, ← Global.pendings_length 0 0] at inBounds
  have paired := (each i inBounds (lengths ▸ inBounds)).ref
  rw [List.get_eq_getElem, List.get_eq_getElem, Global.pendings_ref, Global.pendings_ref] at paired
  simpa using paired

theorem alike_topLevel (injective : Function.Injective ρ)
    (alike : List.Forall₂ (Phrase.Like ρ) phrases phrases') :
    Alike (.initial ρ injective) (topLevel phrases) (topLevel phrases') start start
      fun P _ _ => P.Strict ∧ Aligned P phrases.length := by
  have strict := Pairing.initial_strict ρ injective
  refine .withContext ?_
  have declares : Alike (.initial ρ injective) (phrases.mapM (declareGlobal 0))
      (phrases'.mapM (declareGlobal 0)) start start fun P => List.Forall₂ (PendingLike P) :=
    Alike.mapM (Q := fun P phrase phrase' => P.table 0 0 ∧ Phrase.Like P.name phrase phrase')
      (fun ext ⟨paired, phrases⟩ => ⟨ext.table paired, ext.name ▸ phrases⟩) PendingLike.mono
      strict.elim
      (fun P phrase phrase' d d' alike ⟨paired, phrases⟩ => alike_declareGlobal alike paired phrases)
      (Pairing.initial_context ρ injective) (alike.imp fun _ _ phrases => ⟨⟨rfl, rfl⟩, phrases⟩)
  cases declares with
  | refused run run' renamed => exact .refused (bind_of_error run) (bind_of_error run') renamed
  | doomed late => exact strict.elim late
  | @both P₁ pending pending' d d' run run' declared pendings =>
      have strict₁ := strict.mono declared.ext
      refine .next run run' declared ?_
      refine (Alike.forM (Q := PendingLike) PendingLike.mono strict₁.elim
        (fun P p p' d d' alike pendings => alike_annotate alike pendings) declared.context pendings).bind
        strict₁.elim fun P₂ _ _ e e' annotated _ => ?_
      have strict₂ := strict₁.mono annotated.ext
      refine (Alike.forM (Q := fun P p p' => P.Strict ∧ PendingLike P p p')
        (fun ext ⟨strict, pendings⟩ => ⟨strict.mono ext, pendings.mono ext⟩) strict₂.elim
        (fun P p p' d d' alike ⟨strict, pendings⟩ => alike_fill strict alike pendings) annotated.context
        (pendings.imp fun _ _ pendings => ⟨strict₂, pendings.mono annotated.ext⟩)).bind
        strict₂.elim fun P₃ _ _ f f' filled _ => ?_
      have strict₃ := strict₂.mono filled.ext
      obtain ⟨calls, calls', equal, equal', paired⟩ := ((declared.trans annotated).trans filled).calls
      refine .withContext ?_
      rw [equal, equal']
      refine (Alike.forM (Q := fun P call call' => P.Strict ∧ P.var call.callee call'.callee)
        (fun ext ⟨strict, paired⟩ => ⟨strict.mono ext, ext.var paired⟩) strict₃.elim
        (fun P call call' d d' alike ⟨strict, paired⟩ => alike_recheck strict alike paired) filled.context
        (paired.imp fun _ _ paired => ⟨strict₃, paired⟩)).mono fun P₄ _ _ ext _ => ?_
      have aligned := aligned_of_declareGlobals run run' pendings
      exact ⟨strict₃.mono ext, fun i inBounds =>
        ext.var (filled.ext.var (annotated.ext.var (aligned i inBounds)))⟩

end Build

namespace Program

variable {P : Pairing}

/-- Where the globals are paired one by one and `main` is not renamed, the entry points are alike. -/
theorem entryPoint?_aligned {s s' : Scene} {globals globals' : VariableTable} (strict : P.Strict)
    (fixesMain : P.name entryName = entryName) (complete : s.Complete) (complete' : s'.Complete)
    (alike : P.ProgramLike s.program s'.program)
    (globalsAt : s.program.tables[s.program.globals]? = some globals)
    (globalsAt' : s'.program.tables[s'.program.globals]? = some globals')
    (size : globals.size = globals'.size)
    (aligned : ∀ i < globals.size, P.var ⟨s.program.globals, i⟩ ⟨s'.program.globals, i⟩) :
    Option.Rel (SameArity P s.program s'.program) (entryPoint? globals) (entryPoint? globals') := by
  unfold entryPoint?
  refine findSome?_alike (List.forall₂_reverse_iff.mpr ?_)
  rw [List.forall₂_iff_get]
  refine ⟨by simpa using size, fun i inBounds inBounds' => ?_⟩
  rw [Array.length_toList] at inBounds inBounds'
  obtain ⟨var, var', found, found', slots⟩ := alike.vars _ _ (aligned i inBounds)
  have varEq : globals[i] = var := by
    simpa [slotIn?, globalsAt, inBounds] using found
  have varEq' : globals'[i] = var' := by
    simpa [slotIn?, globalsAt', inBounds'] using found'
  have sameName : (var'.name == entryName) = (var.name == entryName) := by
    rw [slots.name, Bool.eq_iff_iff, beq_iff_eq, beq_iff_eq]
    constructor
    · exact fun equal => P.name_injective (equal.trans fixesMain.symm)
    · exact fun equal => (congrArg P.name equal).trans fixesMain
  have functions := function?_alike strict complete complete' found found' slots
  simp only [List.get_eq_getElem, Array.getElem_toList, varEq, varEq', sameName]
  split
  · exact functions
  · exact .none

end Program

/-! ## Lexemes -/

/-- Results of two builds: programs that run alike, or errors that differ only in names. -/
def BuildsLike (ρ : String → String) :
    Except (Abort BuildError) Program → Except (Abort BuildError) Program → Prop
  | .ok program, .ok program' => program.RunsLike program'
  | .error (.reported error), .error (.reported error') => error.kind.Renamed ρ error'.kind
  | _, _ => False

/-- Results of two reductions: trees that build alike, or errors that differ only in names. -/
def ReducesLike (ρ : String → String) : Except ReduceError ParseTree → Except ReduceError ParseTree → Prop
  | .ok tree, .ok tree' => BuildsLike ρ (build tree) (build tree')
  | .error error, .error error' => error'.kind = error.kind.rename ρ
  | _, _ => False

theorem buildPhrases_alike {ρ : String → String} (injective : Function.Injective ρ)
    (fixesMain : ρ entryName = entryName) {phrases phrases' : List Phrase}
    (alike : List.Forall₂ (Phrase.Like ρ) phrases phrases') :
    BuildsLike ρ (buildPhrases phrases) (buildPhrases phrases') := by
  have result := buildPhrases_eq phrases
  have result' := buildPhrases_eq phrases'
  cases Build.alike_topLevel injective alike with
  | doomed late => exact (Pairing.initial_strict ρ injective).elim late
  | refused run run' renamed =>
      rw [result, result', run, run']
      exact renamed
  | @both P _ _ d d' run run' follows holds =>
      obtain ⟨strict, aligned⟩ := holds
      obtain ⟨isGlobals, globals, globalsAt, size⟩ := Build.topLevel_globals run
      obtain ⟨isGlobals', globals', globalsAt', size'⟩ := Build.topLevel_globals run'
      have built : buildPhrases phrases = .ok d.program := by rw [result, run]; rfl
      have built' : buildPhrases phrases' = .ok d'.program := by rw [result', run']; rfl
      obtain ⟨s, sameProgram, complete⟩ := buildPhrases_complete built
      obtain ⟨s', sameProgram', complete'⟩ := buildPhrases_complete built'
      have programs := follows.context.program
      rw [← sameProgram, ← sameProgram'] at programs
      rw [← sameProgram] at isGlobals globalsAt
      rw [← sameProgram'] at isGlobals' globalsAt'
      rw [built, built', ← sameProgram, ← sameProgram']
      refine Program.run_alike strict programs ?_
      rw [← isGlobals] at globalsAt
      rw [← isGlobals'] at globalsAt'
      refine Program.entries_alike globalsAt globalsAt' (Program.entryPoint?_aligned strict ?_ complete
        complete' programs globalsAt globalsAt' ?_ ?_)
      · rw [follows.ext.name]
        exact fixesMain
      · rw [size, size', alike.length_eq]
      · intro i inBounds
        rw [isGlobals, isGlobals']
        exact aligned i (size ▸ inBounds)

/-- Layout and naming do not change the meaning of a source: lexemes with the same tokens up to an
injective renaming of identifiers that fixes `main`, wherever they stand, reduce, build and run alike. -/
theorem renaming_keeps_meaning (ρ : String → String) (injective : Function.Injective ρ)
    (fixesMain : ρ entryName = entryName) (lexemes lexemes' : List Lexeme)
    (renames : Renames ρ lexemes lexemes') : ReducesLike ρ (reduce lexemes) (reduce lexemes') := by
  rcases reduce_renamed renames with
    ⟨tree, tree', phrases, phrases', run, run', top, top', alike⟩ | ⟨error, error', run, run', sameKind⟩
  · rw [run, run']
    change BuildsLike ρ (build tree) (build tree')
    rw [build, build, top, top']
    exact buildPhrases_alike injective fixesMain alike
  · rw [run, run']
    exact sameKind

/-- A source with a call that is put off, a local variable and a global. -/
def counter : String :=
  "main :: () -> void \x7b late(); x :: next(); print_u64 x + base; \x7d;
   next :: () -> u64 \x7b return base + 1; \x7d;
   base : u64 : 40;
   late :: early;
   early :: () -> void \x7b print_u64 base; \x7d;"

/-- The same source on one line, with `next` and `base` exchanged. -/
def counterRenamed : String :=
  "main::()->void\x7blate();x::base();print_u64 x+next;\x7d;base::()->u64\x7breturn next+1;\x7d;" ++
    "next:u64:40;late::early;early::()->void\x7bprint_u64 next;\x7d;"

theorem renaming_keeps_meaning_of_counter :
    Function.Injective (Equiv.swap "next" "base") ∧ Equiv.swap "next" "base" entryName = entryName ∧
    Renames (Equiv.swap "next" "base") (tokenize counter).lexemes (tokenize counterRenamed).lexemes ∧
    (Pipeline.check counter).isOk = true ∧
    ReducesLike (Equiv.swap "next" "base") (reduce (tokenize counter).lexemes)
      (reduce (tokenize counterRenamed).lexemes) := by
  have injective := (Equiv.swap "next" "base").injective
  have fixesMain : Equiv.swap "next" "base" entryName = entryName := by decide
  have renames : Renames (Equiv.swap "next" "base") (tokenize counter).lexemes
      (tokenize counterRenamed).lexemes := by
    unfold Renames
    decide +kernel
  exact ⟨injective, fixesMain, renames, by decide +kernel,
    renaming_keeps_meaning _ injective fixesMain _ _ renames⟩

end Rill

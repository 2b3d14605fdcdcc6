import Mathlib
import Rill.Proofs.Build.Persistence

/-!
# What a build did

A step that ends with a result, taken apart: the smaller steps it was made of, with the contexts
between them, and what it gave. `TypeRun`, `ValueRun` and `StatementRun` have one case for each way in
which a type, a value or a statement can be built; `TypeRun.of_ok`, `ValueRun.of_ok` and
`StatementRun.of_ok` say that there is no other.
-/

namespace Rill

namespace Build

variable {context middle after : BuildContext} {locals : TableId} {phrase : Phrase} {value : Term}

/-! ## Types -/

/-- The ways in which a type is built. -/
inductive TypeRun (context : BuildContext) : Phrase → Term → Prop
  | void {span : Span} : TypeRun context ⟨.void, span⟩ (.voidAt span)
  | u64 {span : Span} : TypeRun context ⟨.u64, span⟩ (.u64At span)
  | ident {name : String} {span : Span} {ref : VarRef} : resolve name span context = .ok (ref, context) →
      TypeRun context ⟨.ident name, span⟩ (.untyped (.variable ref) span)
  | functionType {params result : Phrase} {span : Span} {args : List Term} {type : Term} :
      (paramItems params).mapM buildItemType context = .ok (args, context) →
      buildType result context = .ok (type, context) →
      TypeRun context ⟨.functionType params result, span⟩ (.untyped (.functionType args type) span)

theorem TypeRun.of_ok (run : buildType phrase context = .ok (value, after)) :
    TypeRun context phrase value ∧ after = context := by
  refine ⟨?_, (reads_buildType phrase _ _ _ run).symm⟩
  obtain ⟨construct, span⟩ := phrase
  cases construct with
  | functionType params result =>
      rw [buildType_functionType] at run
      obtain ⟨args, _, argsRun, run⟩ := bind_eq_ok_iff.mp run
      cases reads_itemTypes (fun _ _ type _ => reads_buildType type) _ _ _ argsRun
      obtain ⟨type, _, resultRun, run⟩ := bind_eq_ok_iff.mp run
      cases reads_buildType _ _ _ _ resultRun
      cases run
      exact .functionType argsRun resultRun
  | void =>
      rw [buildType_plain (by simp)] at run
      cases run
      exact .void
  | u64 =>
      rw [buildType_plain (by simp)] at run
      cases run
      exact .u64
  | ident name =>
      rw [buildType_plain (by simp)] at run
      obtain ⟨ref, _, resolved, run⟩ := bind_eq_ok_iff.mp run
      cases reads_resolve _ _ _ _ _ resolved
      cases run
      exact .ident resolved
  | _ =>
      rw [buildType_plain (by simp)] at run
      cases run

theorem TypeRun.shape_ne {type : Term} (run : TypeRun context phrase type)
    (noName : phrase.construct.isIdent = false) (ref : VarRef) : type.shape ≠ .variable ref := by
  cases run with
  | ident => cases noName
  | _ => rintro ⟨⟩

/-! ## Values -/

theorem expectU64_eq_ok {place : U64Place} {u : Unit} (run : expectU64 place value context = .ok (u, after)) :
    Term.isU64? value.type? = true := by
  unfold expectU64 at run
  split at run
  · next isU64 => exact isU64
  · obtain ⟨_, _, _, run⟩ := bind_eq_ok_iff.mp run
    cases run

/-- A call is its callee, and a note to judge it later. -/
theorem callOf_eq_ok {span : Span} {callee call : Term} (run : callOf span callee context = .ok (call, after)) :
    after.program = context.program ∧ ∃ ref type?, callee.shape = .variable ref ∧
      call = ⟨.call callee [], type?, span⟩ := by
  unfold callOf at run
  cases shape : callee.shape with
  | «variable» ref =>
      rw [shape] at run
      obtain ⟨type?, _, judged, run⟩ := bind_eq_ok_iff.mp run
      have same := reads_callType? _ _ _ _ _ _ judged
      subst same
      obtain ⟨var, _, read, run⟩ := bind_eq_ok_iff.mp run
      have same := reads_readVar _ _ _ _ read
      subst same
      split at run
      · obtain ⟨_, _, deferred, run⟩ := bind_eq_ok_iff.mp run
        cases deferred
        cases run
        exact ⟨rfl, ref, type?, rfl, rfl⟩
      · cases run
        exact ⟨rfl, ref, type?, rfl, rfl⟩
  | _ =>
      rw [shape] at run
      cases run

/-- A call is built from a callee that is a variable. -/
theorem buildCall_eq_ok {span : Span} {args : Phrase} {callee : Build Term} {call : Term}
    (run : buildCall span args callee context = .ok (call, after)) :
    paramItems args = [] ∧ ∃ calleeTerm middle ref type?, callee context = .ok (calleeTerm, middle) ∧
      calleeTerm.shape = .variable ref ∧ call = ⟨.call calleeTerm [], type?, span⟩ ∧
      after.program = middle.program := by
  rw [buildCall_eq] at run
  split at run
  · next noArgs =>
    obtain ⟨calleeTerm, middle, built, run⟩ := bind_eq_ok_iff.mp run
    obtain ⟨program, ref, type?, isVariable, isCall⟩ := callOf_eq_ok run
    exact ⟨List.isEmpty_iff.mp noArgs, calleeTerm, middle, ref, type?, built, isVariable, isCall, program⟩
  · cases run

/-- The ways in which a value is built. -/
inductive ValueRun (context : BuildContext) : Phrase → Term → BuildContext → Prop
  | int {n : UInt64} {span : Span} : ValueRun context ⟨.int n, span⟩ (.intAt n span) context
  | ident {name : String} {span : Span} {ref : VarRef} {var : Variable} :
      resolve name span context = .ok (ref, context) → slotIn? context.program.tables ref = some var →
      ValueRun context ⟨.ident name, span⟩ ⟨.variable ref, var.type?, span⟩ context
  | type {phrase : Phrase} {type : Term} : phrase.construct.isIdent = false →
      TypeRun context phrase type → ValueRun context phrase type context
  | function {params result body : Phrase} {span : Span} {value : Term} {after : BuildContext} :
      buildFunction span params result (fun locals => buildBody locals body) context = .ok (value, after) →
      ValueRun context ⟨.function params result body, span⟩ value after
  | sum {left right : Phrase} {span : Span} {a b : Term} {middle after : BuildContext} :
      buildValue left context = .ok (a, middle) → buildValue right middle = .ok (b, after) →
      Term.isU64? a.type? = true → Term.isU64? b.type? = true →
      ValueRun context ⟨.sum left right, span⟩ (.typed (.sum a b) (.u64At span) span) after
  | call {callee args : Phrase} {span : Span} {call : Term} {after : BuildContext} :
      buildCall span args (buildValue callee) context = .ok (call, after) →
      ValueRun context ⟨.call callee args, span⟩ call after

theorem ValueRun.of_ok (run : buildValue phrase context = .ok (value, after)) :
    ValueRun context phrase value after := by
  obtain ⟨construct, span⟩ := phrase
  cases construct with
  | int n =>
      rw [buildValue] at run
      cases run
      exact .int
  | ident name =>
      rw [buildValue] at run
      obtain ⟨ref, _, resolved, run⟩ := bind_eq_ok_iff.mp run
      cases reads_resolve _ _ _ _ _ resolved
      obtain ⟨var, _, read, run⟩ := bind_eq_ok_iff.mp run
      have found := (readVar_eq_ok_iff.mp read).1
      cases reads_readVar _ _ _ _ read
      cases run
      exact .ident resolved found
  | void | u64 | functionType =>
      rw [buildValue] at run
      obtain ⟨typeRun, rfl⟩ := TypeRun.of_ok run
      exact .type rfl typeRun
  | function params result body =>
      rw [buildValue] at run
      exact .function run
  | sum left right =>
      rw [buildValue] at run
      obtain ⟨a, middle, leftRun, run⟩ := bind_eq_ok_iff.mp run
      obtain ⟨b, last, rightRun, run⟩ := bind_eq_ok_iff.mp run
      obtain ⟨_, _, checked, run⟩ := bind_eq_ok_iff.mp run
      have leftU64 := expectU64_eq_ok checked
      cases reads_expectU64 _ _ _ _ _ checked
      obtain ⟨_, _, checked, run⟩ := bind_eq_ok_iff.mp run
      have rightU64 := expectU64_eq_ok checked
      cases reads_expectU64 _ _ _ _ _ checked
      cases run
      exact .sum leftRun rightRun leftU64 rightU64
  | call callee args =>
      rw [buildValue] at run
      exact .call run
  | _ =>
      rw [buildValue_refused rfl] at run
      cases run

/-! ## Statements -/

theorem buildBareReturn_eq_ok {span : Span} {statement : Term}
    (run : buildBareReturn span context = .ok (statement, after)) :
    after = context ∧ statement = .untyped (.returnWith none) span := by
  obtain ⟨_, _, got, run⟩ := bind_eq_ok_iff.mp run
  cases got
  split at run
  · cases run
    exact ⟨rfl, rfl⟩
  · obtain ⟨_, _, _, run⟩ := bind_eq_ok_iff.mp run
    cases run

theorem buildReturn_eq_ok {span : Span} {statement : Term}
    (run : buildReturn span value context = .ok (statement, after)) :
    after = context ∧ statement = .untyped (.returnWith (some value)) span := by
  obtain ⟨_, _, got, run⟩ := bind_eq_ok_iff.mp run
  cases got
  obtain ⟨_, _, checked, run⟩ := bind_eq_ok_iff.mp run
  have same := reads_expect _ _ _ _ _ _ checked
  subst same
  cases run
  exact ⟨rfl, rfl⟩

theorem buildAssign_eq_ok {span : Span} {target : VarRef} {statement : Term}
    (run : buildAssign span target value context = .ok (statement, after)) :
    after = context ∧ statement = .untyped (.assign target value) span ∧
      ∃ var, slotIn? context.program.tables target = some var ∧
        ∀ type, var.type? = some type → type.satisfies value = .ok true := by
  obtain ⟨var, _, read, checks⟩ := bind_eq_ok_iff.mp run
  obtain ⟨found, rfl⟩ := readVar_eq_ok_iff.mp read
  cases typed : var.type? with
  | some type =>
      rw [typed] at checks
      obtain ⟨_, _, checked, gives⟩ := bind_eq_ok_iff.mp checks
      have same := reads_expect _ _ _ _ _ _ checked
      subst same
      cases gives
      refine ⟨rfl, rfl, var, found, fun other otherTyped => ?_⟩
      cases typed.symm.trans otherTyped
      exact expect_eq_ok checked
  | none =>
      rw [typed] at checks
      cases checks
      refine ⟨rfl, rfl, var, found, fun type otherTyped => ?_⟩
      cases typed.symm.trans otherTyped

/-- The ways in which a statement is built. -/
inductive StatementRun (locals : TableId) (context : BuildContext) :
    Phrase → Option Term → BuildContext → Prop
  | binding {name : String} {nameSpan span : Span} {type? : Option Phrase} {valuePhrase : Phrase}
      {typeTerm? statement? : Option Term} {value : Term} {middle after : BuildContext} :
      type?.mapM buildType context = .ok (typeTerm?, context) →
      buildValue valuePhrase context = .ok (value, middle) →
      buildLocal locals name nameSpan span typeTerm? value middle = .ok (statement?, after) →
      StatementRun locals context ⟨.binding ⟨.ident name, nameSpan⟩ type? (some valuePhrase), span⟩
        statement? after
  | print {operand : Phrase} {span : Span} {value : Term} {after : BuildContext} :
      buildValue operand context = .ok (value, after) → Term.isU64? value.type? = true →
      StatementRun locals context ⟨.printU64 operand, span⟩ (some (.untyped (.printU64 value) span)) after
  | bareReturn {span : Span} :
      StatementRun locals context ⟨.returnWith none, span⟩ (some (.untyped (.returnWith none) span)) context
  | valueReturn {operand : Phrase} {span : Span} {value : Term} {after : BuildContext} :
      buildValue operand context = .ok (value, after) →
      StatementRun locals context ⟨.returnWith (some operand), span⟩
        (some (.untyped (.returnWith (some value)) span)) after
  | assign {name : String} {nameSpan span : Span} {valuePhrase : Phrase} {target : VarRef}
      {var : Variable} {value : Term} {after : BuildContext} :
      resolve name nameSpan context = .ok (target, context) →
      buildValue valuePhrase context = .ok (value, after) →
      slotIn? after.program.tables target = some var →
      (∀ type, var.type? = some type → type.satisfies value = .ok true) →
      StatementRun locals context ⟨.assign ⟨.ident name, nameSpan⟩ valuePhrase, span⟩
        (some (.untyped (.assign target value) span)) after
  | call {callee args : Phrase} {span : Span} {call : Term} {after : BuildContext} :
      buildCall span args (buildValue callee) context = .ok (call, after) →
      StatementRun locals context ⟨.call callee args, span⟩ (some call) after

theorem StatementRun.of_ok {statement? : Option Term}
    (run : buildStatement locals phrase context = .ok (statement?, after)) :
    StatementRun locals context phrase statement? after := by
  obtain ⟨construct, span⟩ := phrase
  cases construct with
  | binding namePhrase type? value? =>
      cases value? with
      | none =>
          rw [buildStatement] at run
          obtain ⟨_, _, _, run⟩ := bind_eq_ok_iff.mp run
          cases run
      | some valuePhrase =>
          rw [buildStatement] at run
          obtain ⟨name, _, named, run⟩ := bind_eq_ok_iff.mp run
          have isIdent := (nameOf_eq_ok named).1
          cases reads_nameOf _ _ _ _ named
          obtain ⟨typeTerm?, _, typed, run⟩ := bind_eq_ok_iff.mp run
          cases reads_optionalType type? _ _ _ typed
          obtain ⟨value, middle, valueRun, run⟩ := bind_eq_ok_iff.mp run
          obtain ⟨construct, nameSpan⟩ := namePhrase
          cases isIdent
          exact .binding typed valueRun run
  | printU64 operand =>
      rw [buildStatement] at run
      obtain ⟨value, _, valueRun, run⟩ := bind_eq_ok_iff.mp run
      obtain ⟨_, _, checked, run⟩ := bind_eq_ok_iff.mp run
      have isU64 := expectU64_eq_ok checked
      cases reads_expectU64 _ _ _ _ _ checked
      cases run
      exact .print valueRun isU64
  | returnWith operand? =>
      cases operand? with
      | none =>
          rw [buildStatement] at run
          obtain ⟨_, _, returns, run⟩ := bind_eq_ok_iff.mp run
          obtain ⟨rfl, rfl⟩ := buildBareReturn_eq_ok returns
          cases run
          exact .bareReturn
      | some operand =>
          rw [buildStatement] at run
          obtain ⟨value, _, valueRun, run⟩ := bind_eq_ok_iff.mp run
          obtain ⟨_, _, returns, run⟩ := bind_eq_ok_iff.mp run
          obtain ⟨rfl, rfl⟩ := buildReturn_eq_ok returns
          cases run
          exact .valueReturn valueRun
  | assign targetPhrase valuePhrase =>
      rw [buildStatement] at run
      obtain ⟨name, _, named, run⟩ := bind_eq_ok_iff.mp run
      have isIdent := (nameOf_eq_ok named).1
      cases reads_nameOf _ _ _ _ named
      obtain ⟨target, _, resolved, run⟩ := bind_eq_ok_iff.mp run
      cases reads_resolve _ _ _ _ _ resolved
      obtain ⟨value, _, valueRun, run⟩ := bind_eq_ok_iff.mp run
      obtain ⟨_, _, assigns, run⟩ := bind_eq_ok_iff.mp run
      obtain ⟨rfl, rfl, var, found, fits⟩ := buildAssign_eq_ok assigns
      cases run
      obtain ⟨construct, nameSpan⟩ := targetPhrase
      cases isIdent
      exact .assign resolved valueRun found fits
  | call callee args =>
      rw [buildStatement] at run
      obtain ⟨_, _, callRun, run⟩ := bind_eq_ok_iff.mp run
      cases run
      exact .call callRun
  | _ =>
      rw [buildStatement_refused rfl] at run
      cases run

theorem buildStatements_eq_ok {rest : List Phrase} {body : List Term}
    (run : buildStatements locals (phrase :: rest) context = .ok (body, after)) :
    ∃ inner span first middle others, phrase = ⟨.statement inner, span⟩ ∧
      buildStatement locals inner context = .ok (first, middle) ∧
      buildStatements locals rest middle = .ok (others, after) ∧ body = first.toList ++ others := by
  obtain ⟨construct, span⟩ := phrase
  cases construct with
  | statement inner =>
      rw [buildStatements] at run
      obtain ⟨first, middle, firstRun, run⟩ := bind_eq_ok_iff.mp run
      obtain ⟨others, last, restRun, run⟩ := bind_eq_ok_iff.mp run
      cases run
      exact ⟨inner, span, first, middle, others, rfl, firstRun, restRun, rfl⟩
  | _ =>
      rw [buildStatements_refused (by simp)] at run
      cases run

theorem buildBody_eq_ok {body : List Term} (run : buildBody locals phrase context = .ok (body, after)) :
    ∃ children span, phrase = ⟨.curly children, span⟩ ∧
      buildStatements locals children context = .ok (body, after) := by
  obtain ⟨construct, span⟩ := phrase
  cases construct with
  | curly children =>
      rw [buildBody] at run
      exact ⟨children, span, rfl, run⟩
  | _ =>
      rw [buildBody_refused rfl] at run
      cases run

end Build

end Rill

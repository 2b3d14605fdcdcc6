import Rill.Build.Types

/-!
# Building values and statements

* A name is a reference that carries the type its variable has at this point.
* A function gets one table for its arguments and one for its local variables. Both are in scope for
  its result type, its argument types and its body.
* A sum needs operands of type `u64`.
* Only names can be called, and only without arguments.
* A local binding is visible from the next statement on. Its value is computed where it stands,
  unless it names a type.
* A return needs a value that satisfies the function's result type, or no value when that is `void`.
-/

namespace Rill

/-- Whether a local binding's value names a type. A reference without a type counts: nothing can be
computed from it. -/
def Term.namesType (value : Term) : Bool :=
  match value.shape with
  | .void | .u64 | .functionType .. => true
  | .variable _ => value.type?.isNone
  | _ => false

namespace Build

/-! ## Calls -/

/-- The type of a call without arguments, judged by what is known of the callee: `none` while it has
neither a type nor a value. -/
def callType? (callee : VarRef) (calleeSpan span : Span) : Build (Option Term) := do
  let var ← readVar callee
  match var.type? with
  | some ⟨.functionType [] result, _, _⟩ => return some result
  | some ⟨.functionType args _, _, _⟩ => refuse (.arityMismatch args.length 0) span
  | some type => refuse (.notCallable var.name (← typeText (some type))) calleeSpan
  | none =>
      if var.value?.isSome then refuse (.notCallable var.name "type") calleeSpan
      else return none

/-- A call of what `buildCallee` builds. -/
def buildCall (span : Span) (args : Phrase) (buildCallee : Build Term) : Build Term := do
  unless (paramItems args).isEmpty do
    refuse .callArguments args.span
  let callee ← buildCallee
  match callee.shape with
  | .variable ref =>
      let type? ← callType? ref callee.span span
      if type?.isNone && (← readVar ref).value?.isNone then
        modify fun context =>
          { context with deferred := context.deferred ++ [⟨ref, callee.span, span⟩] }
      return ⟨.call callee [], type?, span⟩
  | _ => refuse .unsupportedCallee callee.span

/-! ## Functions -/

/-- Declares one argument and gives its type. -/
def buildArgument (table : TableId) (phrase : Phrase) : Build Term := do
  let param ← readParam phrase
  let type ← buildType param.type
  let _ ← declare table
    { name := param.name, nameSpan := param.nameSpan, type? := some type, value? := none }
  return type

/-- A function literal whose statements are built by `buildBody`, given the table of its locals. -/
def buildFunction (span : Span) (params result : Phrase)
    (buildBody : TableId → Build (List Term)) : Build Term := do
  let args ← openScope
  let locals ← openScope
  let result ← buildType result
  let argTypes ← (paramItems params).mapM (buildArgument args)
  modify fun context => { context with results := result :: context.results }
  let body ← buildBody locals
  modify fun context => { context with results := context.results.tail }
  closeScope
  closeScope
  let context ← get
  let id := context.program.functions.size
  set { context with program := context.program.addFunction ⟨span, args, result, locals, body⟩ }
  return .typed (.function id) (.untyped (.functionType argTypes result) span) span

/-! ## Statements from built values -/

/-- A local binding: declares the variable, binds the value and gives the statement to execute. -/
def buildLocal (locals : TableId) (name : String) (nameSpan span : Span) (type? : Option Term)
    (value : Term) : Build (Option Term) := do
  let target ← declare locals { name, nameSpan, type?, value? := none }
  bind target value
  if value.namesType then return none
  else return some (.untyped (.define target value) span)

/-- A return without a value. -/
def buildBareReturn (span : Span) : Build Term := do
  let expected := (← get).results.head?.getD (.voidAt span)
  if expected.shape.isVoid then return .untyped (.returnWith none) span
  else refuse (.bareReturn (← typeText (some expected))) span

/-- A return with a value. -/
def buildReturn (span : Span) (value : Term) : Build Term := do
  let expected := (← get).results.head?.getD (.voidAt span)
  expect expected value .returnMismatch
  return .untyped (.returnWith (some value)) span

/-- An assignment of a built value. -/
def buildAssign (span : Span) (target : VarRef) (value : Term) : Build Term := do
  let var ← readVar target
  match var.type? with
  | some type => expect type value (.mismatch var.name)
  | none => pure ()
  return .untyped (.assign target value) span

/-! ## Phrases -/

mutual

/-- The value that a phrase stands for. -/
def buildValue : Phrase → Build Term
  | ⟨.int value, span⟩ => return .intAt value span
  | ⟨.ident name, span⟩ => do
      let ref ← resolve name span
      return ⟨.variable ref, (← readVar ref).type?, span⟩
  | ⟨.void, span⟩ => buildType ⟨.void, span⟩
  | ⟨.u64, span⟩ => buildType ⟨.u64, span⟩
  | ⟨.functionType params result, span⟩ => buildType ⟨.functionType params result, span⟩
  | ⟨.function params result body, span⟩ =>
      buildFunction span params result fun locals => buildBody locals body
  | ⟨.sum left right, span⟩ => do
      let left ← buildValue left
      let right ← buildValue right
      expectU64 .sumOperand left
      expectU64 .sumOperand right
      return .typed (.sum left right) (.u64At span) span
  | ⟨.call callee args, span⟩ => buildCall span args (buildValue callee)
  | ⟨construct, span⟩ => refuse (.notAValue construct.name) span

/-- The statements of a function body. -/
def buildBody (locals : TableId) : Phrase → Build (List Term)
  | ⟨.curly children, _⟩ => buildStatements locals children
  | ⟨construct, span⟩ => refuse (.notAStatement construct.name) span

/-- The statements of a block, in order. -/
def buildStatements (locals : TableId) : List Phrase → Build (List Term)
  | [] => return []
  | ⟨.statement inner, _⟩ :: rest => do
      let first ← buildStatement locals inner
      return first.toList ++ (← buildStatements locals rest)
  | ⟨construct, span⟩ :: _ => refuse (.notAStatement construct.name) span

/-- One statement; a binding that names a type leaves nothing to execute. -/
def buildStatement (locals : TableId) : Phrase → Build (Option Term)
  | ⟨.binding namePhrase type? (some value), span⟩ => do
      let name ← nameOf namePhrase
      let type? ← type?.mapM buildType
      let value ← buildValue value
      buildLocal locals name namePhrase.span span type? value
  | ⟨.binding namePhrase _ none, span⟩ => do
      refuse (.missingValue (← nameOf namePhrase)) span
  | ⟨.printU64 operand, span⟩ => do
      let operand ← buildValue operand
      expectU64 .printOperand operand
      return some (.untyped (.printU64 operand) span)
  | ⟨.returnWith none, span⟩ => return some (← buildBareReturn span)
  | ⟨.returnWith (some operand), span⟩ => do
      let value ← buildValue operand
      return some (← buildReturn span value)
  | ⟨.assign targetPhrase valuePhrase, span⟩ => do
      let target ← resolve (← nameOf targetPhrase) targetPhrase.span
      let value ← buildValue valuePhrase
      return some (← buildAssign span target value)
  | ⟨.call callee args, span⟩ => return some (← buildCall span args (buildValue callee))
  | ⟨construct, span⟩ => refuse (.unsupportedStatement construct.name) span

end

end Build

end Rill

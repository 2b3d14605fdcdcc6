import Rill.Build.Values
import Rill.ParseTree

/-!
# Building a program

The top level is a list of bindings that may refer to each other in any order. It is built in steps.

1. Every binding declares its name, without type and value.
2. Every binding gets the type that can be read off it: its annotation, or the type of an integer or
   function literal.
3. Every binding gets its value, in order.
4. Calls of names that were unknown when they were built are judged again.
-/

namespace Rill

namespace Build

/-- A top-level binding whose name is declared. -/
structure Pending where
  ref : VarRef
  type? : Option Phrase
  value? : Option Phrase
  span : Span

/-- Step 1 for one top-level phrase. -/
def declareGlobal (globals : TableId) (phrase : Phrase) : Build Pending :=
  match phrase.construct with
  | .statement inner =>
      match inner.construct with
      | .binding namePhrase type? value? => do
          let name ← nameOf namePhrase
          let ref ← declare globals
            { name, nameSpan := namePhrase.span, type? := none, value? := none }
          return ⟨ref, type?, value?, inner.span⟩
      | construct => refuse (.topLevelNotBinding construct.name) inner.span
  | construct => refuse (.topLevelNotBinding construct.name) phrase.span

/-- Step 2 for one binding. -/
def annotate (pending : Pending) : Build Unit := do
  let type? ← match pending.type?, pending.value? with
    | some type, _ => some <$> buildType type
    | none, some value => literalType? value
    | none, none => pure none
  modifyVar pending.ref fun var => { var with type? }

/-- Step 3 for one binding. -/
def fill (pending : Pending) : Build Unit := do
  match pending.value? with
  | some value => bind pending.ref (← buildValue value)
  | none => refuse (.missingValue (← readVar pending.ref).name) pending.span

/-- Step 4 for one call. -/
def recheck (call : DeferredCall) : Build Unit := do
  let _ ← callType? call.callee call.calleeSpan call.span

/-- All steps, for the top-level phrases of a source. -/
def topLevel (phrases : List Phrase) : Build Unit := do
  let globals := (← get).program.globals
  let pending ← phrases.mapM (declareGlobal globals)
  pending.forM annotate
  pending.forM fill
  (← get).deferred.forM recheck

end Build

/-- The program of a list of top-level phrases. -/
def buildPhrases (phrases : List Phrase) : Except (Abort BuildError) Program := do
  let start : BuildContext :=
    { program := .empty, scope := [Program.empty.globals], results := [], deferred := [] }
  return (← (Build.topLevel phrases).run start).2.program

/-- The program of a parse tree. -/
def build (tree : ParseTree) : Except (Abort BuildError) Program :=
  match tree.topLevel with
  | .ok phrases => buildPhrases phrases
  | .error fault => .error (.broken fault)

end Rill

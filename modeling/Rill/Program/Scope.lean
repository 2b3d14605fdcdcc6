import Rill.Program

/-!
# Scopes

The scope chain lists the tables that are visible at a place in a program, innermost first. A name
means its latest declaration in the innermost table that declares it.
-/

namespace Rill

/-- Visible tables, innermost first. -/
abbrev ScopeChain := List TableId

namespace ScopeChain

/-- Enters a scope. -/
def push (chain : ScopeChain) (table : TableId) : ScopeChain :=
  table :: chain

/-- Leaves the innermost scope; leaving none changes nothing. -/
def pop (chain : ScopeChain) : ScopeChain :=
  chain.tail

/-- The number of scopes entered and not left. -/
def depth (chain : ScopeChain) : Nat :=
  chain.length

/-- The variable that a name means. -/
def lookup? (program : Program) (name : String) : ScopeChain → Except Fault (Option VarRef)
  | [] => return none
  | id :: outer => do
      match (← program.table id).lookup? name with
      | some index => return some ⟨id, index⟩
      | none => lookup? program name outer

end ScopeChain

end Rill

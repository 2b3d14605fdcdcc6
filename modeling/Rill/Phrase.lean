import Rill.Construct
import Rill.Span
import Rill.Text.Decimal

/-!
# Phrases

A phrase is a piece of a program as a nested value: a construct whose parts are phrases again, and
the source it covers. It is what a parse tree says once its ids are followed.

The outline of a phrase has one line for each phrase inside it, indented by its depth.
-/

namespace Rill

/-- A construct over phrases, with its place in the source. -/
structure Phrase where
  construct : Construct Phrase
  span : Span

/-- A part is smaller than what it is a part of. -/
theorem Construct.sizeOf_part_lt {α : Type} [SizeOf α] {part : α} {construct : Construct α}
    (member : part ∈ construct.parts) : sizeOf part < sizeOf construct := by
  cases construct with
  | root children | paren children | curly children =>
      have := List.sizeOf_lt_of_mem (show part ∈ children from member)
      simp
      omega
  | ident | int | void | u64 => simp [Construct.parts] at member
  | call | functionType | sum | assign =>
      simp only [Construct.parts, List.mem_cons, List.not_mem_nil, or_false] at member
      rcases member with rfl | rfl
      all_goals
        simp only [call.sizeOf_spec, functionType.sizeOf_spec, sum.sizeOf_spec, assign.sizeOf_spec]
        omega
  | function =>
      simp only [Construct.parts, List.mem_cons, List.not_mem_nil, or_false] at member
      rcases member with rfl | rfl | rfl
      all_goals
        simp only [function.sizeOf_spec]
        omega
  | printU64 | statement | separator =>
      simp only [Construct.parts, List.mem_singleton] at member
      subst member
      simp
  | returnWith operand =>
      simp only [Construct.parts, Option.mem_toList] at member
      subst member
      simp
      omega
  | binding name type? value? =>
      simp only [Construct.parts, List.mem_cons, List.mem_append, Option.mem_toList] at member
      rcases member with rfl | rfl | rfl
      all_goals
        simp only [binding.sizeOf_spec, Option.some.sizeOf_spec]
        omega

namespace Phrase

/-- The phrases directly inside a phrase. -/
def parts (phrase : Phrase) : List Phrase :=
  phrase.construct.parts

theorem sizeOf_part_lt {part phrase : Phrase} (member : part ∈ phrase.parts) :
    sizeOf part < sizeOf phrase := by
  have := Construct.sizeOf_part_lt member
  cases phrase
  simp at this ⊢
  omega

/-- What an outline says about a phrase itself. -/
def heading (phrase : Phrase) : String :=
  match phrase.construct with
  | .ident name => "identifier `" ++ name ++ "`"
  | .int value => "integer " ++ Text.decimal value.toNat
  | .binding _ none _ => "binding (inferred)"
  | construct => construct.name

/-- The lines for a phrase at the given depth and for everything inside it. -/
def outlineAt (depth : Nat) (phrase : Phrase) : String :=
  String.join (List.replicate depth "  ") ++ phrase.heading ++ " @" ++
    Text.decimal phrase.span.start ++ ".." ++ Text.decimal phrase.span.stop ++ "\n" ++
    String.join (phrase.parts.attach.map fun ⟨part, _⟩ => part.outlineAt (depth + 1))
termination_by sizeOf phrase
decreasing_by exact sizeOf_part_lt ‹_›

/-- The outline of a phrase. -/
def outline (phrase : Phrase) : String :=
  phrase.outlineAt 0

end Phrase

end Rill

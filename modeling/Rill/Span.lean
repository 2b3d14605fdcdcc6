import Rill.Text.Bytes

/-!
# Spans

A span is a half-open range of bytes `start..stop` in a source text. Spans written by hand may be
out of order or lie outside the text; every operation has an answer for them.
-/

namespace Rill

/-- The bytes from `start` up to `stop`. -/
structure Span where
  start : Nat
  stop : Nat
deriving DecidableEq, Repr, Inhabited

namespace Span

/-- The smallest span that covers both. -/
def join (a b : Span) : Span :=
  ⟨min a.start b.start, max a.stop b.stop⟩

/-- The number of bytes covered; a span out of order covers none. -/
def length (s : Span) : Nat :=
  s.stop - s.start

/-- Whether no byte is covered. -/
def isEmpty (s : Span) : Bool :=
  s.length == 0

/-- The covered text, when the span lies in `source` and cuts no character. -/
def text? (s : Span) (source : String) : Option String :=
  (Text.sliceBytes s.start s.stop source.toList).map String.ofList

end Span

end Rill

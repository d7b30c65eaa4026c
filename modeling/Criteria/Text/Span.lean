/-!
# Spans

A `Span` is the half-open piece of a text between two character offsets.
-/

namespace Criteria

/-- The characters from `start` up to, and without, `stop`. -/
structure Span where
  start : Int
  stop : Int
  deriving DecidableEq, Repr

namespace Span

/-- The smallest span around both of two. -/
def cover (a b : Span) : Span := ⟨min a.start b.start, max a.stop b.stop⟩

/-- The smallest span around those of two that are known. -/
def cover? : Option Span → Option Span → Option Span
  | none, b => b
  | a, none => a
  | some a, some b => some (cover a b)

end Span

end Criteria

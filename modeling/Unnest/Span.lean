/-!
# Source positions

A span is where a construct starts in the source text, together with its length.
Nothing but messages depends on it: two analyses of the same program written on
different lines differ in their spans and in nothing else.

Line `0` is the position of what was never written, such as the bindings every
program starts with; it is the only line a message does not print as a number.
-/

namespace Unnest

/-- Where a construct starts, and how many bytes it takes. -/
structure Span where
  line : Nat
  col : Nat
  len : Nat
  deriving DecidableEq, Repr, Inhabited

namespace Span

/-- The position of what has no place in the source. -/
def unknown : Span := ⟨0, 0, 0⟩

/-- The empty span at the start of a line. -/
def ofLine (line : Nat) : Span := ⟨line, 1, 0⟩

/-- A span points at nothing exactly when its line is `0`. -/
def isUnknown (s : Span) : Bool := s.line == 0

/-- The position as messages print it; the length is never shown. -/
def describe (s : Span) : String :=
  if s.isUnknown then "<unknown>" else s!"line {s.line}:{s.col}"

@[simp] theorem isUnknown_unknown : unknown.isUnknown = true := rfl

@[simp] theorem isUnknown_ofLine (n : Nat) : (ofLine n).isUnknown = (n == 0) := rfl

end Span

end Unnest

/-!
# Spans and places

A span is a half-open range of byte offsets into a source text. A place is a numbered source line
together with the span of its text.
-/

set_option autoImplicit false

namespace Drawscript

/-- The byte offsets `start, start + 1, ..., stop - 1`. -/
structure Span where
  start : Nat
  stop : Nat
deriving Repr, DecidableEq

namespace Span

/-- The number of bytes covered. -/
def length (span : Span) : Nat :=
  span.stop - span.start

/-- The span covers no byte. -/
def isEmpty (span : Span) : Bool :=
  span.start == span.stop

/-- The two ends with dots between them. -/
def display (span : Span) : String :=
  s!"{span.start}..{span.stop}"

end Span

/-- Where a statement or a diagnostic belongs: a line, numbered from one, and the span of its text. -/
structure Place where
  line : Nat
  span : Span
deriving Repr, DecidableEq

end Drawscript

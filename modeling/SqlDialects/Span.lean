/-!
# Spans of source text
-/

namespace SqlDialects

/-- The UTF-8 bytes from `start` up to `stop`, the latter excluded. -/
structure Span where
  start : Nat
  stop : Nat
  deriving DecidableEq

/-- The empty span at an offset. -/
def Span.at (offset : Nat) : Span :=
  ⟨offset, offset⟩

/-- How messages say where a span lies. -/
def Span.describe (s : Span) : String :=
  s!"{s.start}..{s.stop}"

end SqlDialects

/-! # Positions in the source text -/

namespace Classwright

/-- Where a piece of source text starts and how long it is. Line 0 marks what was never written down. -/
structure Span where
  line : UInt32 := 0
  col : UInt32 := 0
  len : UInt32 := 0
deriving DecidableEq, Repr, Inhabited

namespace Span

/-- A position without extent. -/
def point (line col : UInt32) : Span := ⟨line, col, 0⟩

def isSynthetic (s : Span) : Bool := s.line == 0

/-- The span from `s` on that covers `t` too. Across lines only the lengths are added up. -/
def cover (s t : Span) : Span :=
  if s.line ≠ t.line then ⟨s.line, s.col, s.len + t.len⟩
  else
    let start := min s.col t.col
    let stop := max (s.col + s.len) (t.col + t.len)
    ⟨s.line, start, stop - start⟩

/-- The position as messages show it. -/
def text (s : Span) : String := s!"{s.line}:{s.col}"

end Span

end Classwright

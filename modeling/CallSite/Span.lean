/-!
# Spans

A stretch of source text by byte offsets, with the line and column of its start. Both are words of
32 bits.
-/

namespace CallSite

structure Span where
  start : Nat
  stop : Nat
  line : UInt32 := 0
  column : UInt32 := 0
deriving DecidableEq, Repr

namespace Span

/-- The span of nodes that no source text was read for. -/
def none : Span := { start := 0, stop := 0 }

/-- The line and column reached after as many whole characters as `left` bytes hold. Columns count
bytes. -/
def position : (left line column : Nat) → List Char → Nat × Nat
  | _, line, column, [] => (line, column)
  | left, line, column, c :: cs =>
    if left < c.utf8Size then (line, column)
    else if c = '\n' then position (left - c.utf8Size) (line + 1) 1 cs
    else position (left - c.utf8Size) line (column + c.utf8Size) cs

/-- The span with the line and column of its start in `source`. A start past the end counts as the
end, and one inside a character as the start of that character. -/
def locatedIn (span : Span) (source : String) : Span :=
  let (line, column) := position span.start 1 1 source.toList
  { span with line := .ofNat line, column := .ofNat column }

end Span

end CallSite

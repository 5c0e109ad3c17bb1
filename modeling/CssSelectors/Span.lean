/-!
# Source spans

Where a piece of text stands, counted in code points from the start of the text,
and the range of characters that messages name.
-/

namespace CssSelectors

/-- The code points from offset `start` up to, and without, offset `stop`. -/
structure Span where
  start : Nat
  stop : Nat
deriving DecidableEq, Repr

namespace Span

/-- The first and last character of a span, counted from one. An empty span names
the character it stands after, and the first one at the start of the text. -/
def displayRange (span : Span) : Nat × Nat :=
  if span.start < span.stop then (span.start + 1, span.stop)
  else if span.start = 0 then (1, 1)
  else (span.start, span.start)

theorem displayRange_of_lt {span : Span} (h : span.start < span.stop) :
    span.displayRange = (span.start + 1, span.stop) :=
  if_pos h

theorem one_le_displayRange_fst (span : Span) : 1 ≤ span.displayRange.1 := by
  unfold displayRange
  split
  · exact Nat.le_add_left 1 _
  · split
    · exact Nat.le_refl 1
    · exact Nat.pos_of_ne_zero ‹_›

theorem displayRange_fst_le_snd (span : Span) :
    span.displayRange.1 ≤ span.displayRange.2 := by
  unfold displayRange
  split
  · exact ‹span.start < span.stop›
  · split <;> exact Nat.le_refl _

end Span

end CssSelectors

/-!
# Reading options

Which selectors are accepted, and how deeply they may be nested.
-/

namespace CssSelectors

inductive Dialect
  /-- Selectors as CSS defines them. -/
  | standard
  /-- With path-like combinators, attributes and functions beside them. -/
  | extended
deriving DecidableEq, Repr

structure Options where
  dialect : Dialect := .standard
  /-- How many levels of function arguments may lie in one another. -/
  maxDepth : Nat := 32
deriving DecidableEq, Repr

end CssSelectors

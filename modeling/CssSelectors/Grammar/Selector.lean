import CssSelectors.Grammar.Attribute

/-!
# Selector lists

Compound selectors, the combinators between them, and lists of such chains. How the
arguments of a function are read is left open here.
-/

namespace CssSelectors

/-- A dialect, and how the arguments of a functional pseudo-class are read. -/
structure Grammar where
  dialect : Dialect
  arguments : Token → Production Arguments

namespace Grammar

open Production

def operator (kind : CombinatorKind) (symbol : List Char) : Production Combinator := do
  skip
  let tokens ← spelled symbol
  skip
  return ⟨kind, tokens⟩

/-- Whitespace, with comments mixed in. A comment alone separates nothing. -/
def descendantCombinator : Production Combinator := do
  let tokens ← insignificant
  if tokens.any Token.isWhitespace then return ⟨.descendant, tokens⟩
  else fail

def standardCombinator : Production Combinator :=
  firstOf [
    operator .child CombinatorKind.child.symbol,
    operator .nextSibling CombinatorKind.nextSibling.symbol,
    operator .subsequentSibling CombinatorKind.subsequentSibling.symbol,
    operator .column CombinatorKind.column.symbol,
    descendantCombinator]

def combinator : Dialect → Production Combinator
  | .standard => standardCombinator
  | .extended =>
    firstOf [
      operator .descendant ['/', '/'],
      operator .child ['/'],
      standardCombinator]

def pseudoClass (g : Grammar) : Production PseudoClass := do
  let _ ← token Token.isColon
  firstOf [
    .plain <$> token Token.isIdent,
    do
      let function ← token Token.isFunction
      let arguments ← g.arguments function
      return .function function arguments]

/-- A pseudo-class behind a further colon, and the pseudo-classes that follow it. -/
def pseudoElement (g : Grammar) : Production PseudoElement := do
  let _ ← token Token.isColon
  let element ← pseudoClass g
  let pseudoClasses ← many (pseudoClass g)
  return ⟨element, pseudoClasses⟩

def classSelector : Production Token := do
  let _ ← token (Token.isDelim '.')
  token Token.isIdent

def subclass (g : Grammar) : Production Subclass :=
  firstOf [
    .id <$> token Token.isHash,
    .className <$> classSelector,
    .attribute <$> attributeSelector g.dialect,
    .pseudoClass <$> pseudoClass g]

def compound (g : Grammar) : Production Compound := do
  let typeSelector ← optional (typeSelector g.dialect)
  let subclasses ← many (subclass g)
  let pseudoElements ← many (pseudoElement g)
  match Compound.ofParts? typeSelector subclasses pseudoElements with
  | some compound => return compound
  | none => fail

def link (g : Grammar) : Production (Combinator × Compound) := do
  let combinator ← combinator g.dialect
  let compound ← compound g
  return (combinator, compound)

def complexSelector (g : Grammar) : Production Complex := do
  let first ← compound g
  let links ← many (link g)
  return .ofLinks first links

def relativeSelector (g : Grammar) : Production Selector := do
  let combinator ← optional (combinator g.dialect)
  let chain ← complexSelector g
  return .relative combinator chain

def selector (g : Grammar) : Production Selector :=
  firstOf [.complex <$> complexSelector g, relativeSelector g]

def selectorList (g : Grammar) : Production (List Selector) :=
  commaSeparated (selector g)

end Grammar

end CssSelectors

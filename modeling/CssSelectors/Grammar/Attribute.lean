import CssSelectors.Grammar.Options
import CssSelectors.Grammar.Production
import CssSelectors.Selector.Basic

/-!
# Names and attributes

Qualified names, type selectors, and the selectors in brackets.
-/

namespace CssSelectors

namespace Grammar

open Production

def nsPrefix : Production NsPrefix := do
  let value ← optional (firstOf [token Token.isIdent, token (Token.isDelim '*')])
  let _ ← token (Token.isDelim '|')
  return ⟨value⟩

def qualifiedName : Production QualifiedName :=
  firstOf [
    do
      let ns ← nsPrefix
      let name ← token Token.isIdent
      return ⟨some ns, name⟩,
    do
      let name ← token Token.isIdent
      return ⟨none, name⟩]

/-- An asterisk or a name. The asterisk comes first, since a name would take the namespace
before it for the whole selector. -/
def standardType : Production TypeSelector :=
  firstOf [
    do
      let ns ← optional nsPrefix
      let asterisk ← token (Token.isDelim '*')
      return .universal ns asterisk,
    .name <$> qualifiedName]

/-- The functions that may stand where a type selector does. -/
def structuralFunctions : List String := ["text", "comment", "self"]

def isStructuralFunction (t : Token) : Bool :=
  t.functionName?.any fun name => structuralFunctions.contains name

def typeSelector : Dialect → Production TypeSelector
  | .standard => standardType
  | .extended =>
    firstOf [
      .atKeyword <$> token Token.isAtKeyword,
      .xpath <$> token isStructuralFunction,
      standardType]

def matcher (kind : MatcherKind) : Production AttributeMatcher := do
  let tokens ← spelled kind.symbol
  return ⟨kind, tokens⟩

def standardMatcher : Production AttributeMatcher :=
  firstOf [
    matcher .equal,
    matcher .includeWord,
    matcher .dashMatch,
    matcher .startWith,
    matcher .endWith,
    matcher .include]

def attributeMatcher : Dialect → Production AttributeMatcher
  | .standard => standardMatcher
  | .extended => firstOf [matcher .notEqual, standardMatcher]

def attributeModifier : Production AttributeModifier :=
  firstOf [
    do
      let token ← word "i"
      return ⟨.caseInsensitive, token⟩,
    do
      let token ← word "s"
      return ⟨.caseSensitive, token⟩]

def attributeTest (dialect : Dialect) : Production AttributeTest := do
  let matcher ← attributeMatcher dialect
  skip
  let value ← firstOf [token Token.isString, token Token.isIdent, token Token.isNumber]
  skip
  let modifier ← optional attributeModifier
  skip
  let _ ← token Token.isRightBracket
  return ⟨matcher, value, modifier⟩

/-- The rest of an attribute selector behind the name: the closing bracket, or a comparison
before it. -/
def attributeTail (dialect : Dialect) : Production (Option AttributeTest) := do
  match ← optional (token Token.isRightBracket) with
  | some _ => return none
  | none => some <$> attributeTest dialect

def standardAttribute (dialect : Dialect) : Production AttributeSelector := do
  let _ ← token Token.isLeftBracket
  skip
  let name ← qualifiedName
  skip
  let test ← attributeTail dialect
  return ⟨.qualified name, test⟩

def bracketedSubject (accept : Token → Bool) : Production Token := do
  let _ ← token Token.isLeftBracket
  skip
  let subject ← token accept
  skip
  return subject

def isPosition : Token → Bool
  | .atom (.number numeric) _ => numeric.integer?.isSome && !numeric.signed
  | _ => false

def attributeSelector : Dialect → Production AttributeSelector
  | .standard => standardAttribute .standard
  | .extended =>
    firstOf [
      standardAttribute .extended,
      do
        let name ← bracketedSubject Token.isAtKeyword
        let test ← attributeTail .extended
        return ⟨.atKeyword name, test⟩,
      do
        let index ← bracketedSubject isPosition
        let _ ← token Token.isRightBracket
        return ⟨.position index, none⟩,
      do
        let function ← bracketedSubject Token.isFunction
        let test ← attributeTail .extended
        return ⟨.xpath function, test⟩]

end Grammar

end CssSelectors

import CssSelectors.Token.Basic

/-!
# Selectors

The tree that a selector list is read into. Names and values stay the tokens they
were read from, so that every part of a selector still knows where it stands.
-/

namespace CssSelectors

inductive CombinatorKind
  | child
  | descendant
  | nextSibling
  | subsequentSibling
  | column
deriving DecidableEq, Repr

structure Combinator where
  kind : CombinatorKind
  tokens : List Token
deriving Repr

inductive MatcherKind
  | equal
  | includeWord
  | dashMatch
  | startWith
  | endWith
  | include
  | notEqual
deriving DecidableEq, Repr

structure AttributeMatcher where
  kind : MatcherKind
  tokens : List Token
deriving Repr

inductive ModifierKind
  | caseInsensitive
  | caseSensitive
deriving DecidableEq, Repr

structure AttributeModifier where
  kind : ModifierKind
  token : Token
deriving Repr

/-- What stands before the bar of a qualified name: an ident, an asterisk or nothing. -/
structure NsPrefix where
  value : Option Token
deriving Repr

structure QualifiedName where
  ns : Option NsPrefix
  name : Token
deriving Repr

inductive TypeSelector
  | name (name : QualifiedName)
  | universal (ns : Option NsPrefix) (token : Token)
  | atKeyword (token : Token)
  | xpath (function : Token)
deriving Repr

inductive AttributeName
  | qualified (name : QualifiedName)
  | atKeyword (token : Token)
  | position (token : Token)
  | xpath (function : Token)
deriving Repr

structure AttributeTest where
  matcher : AttributeMatcher
  value : Token
  modifier : Option AttributeModifier
deriving Repr

structure AttributeSelector where
  name : AttributeName
  test : Option AttributeTest
deriving Repr

/-- Every `a`-th element from the `b`-th on, and the tokens that say so. -/
structure AnPlusB where
  values : List Token
  a : Int
  b : Int
deriving Repr

mutual

/-- One item of a selector list. A relative selector begins with a combinator. -/
inductive Selector
  | complex (chain : Complex)
  | relative (combinator : Option Combinator) (chain : Complex)

inductive Complex
  | last (left : Compound)
  | link (left : Compound) (combinator : Combinator) (right : Complex)

structure Compound where
  typeSelector : Option TypeSelector
  subclasses : List Subclass
  pseudoElements : List PseudoElement

inductive Subclass
  | id (hash : Token)
  | className (name : Token)
  | attribute (selector : AttributeSelector)
  | pseudoClass (selector : PseudoClass)

structure PseudoElement where
  element : PseudoClass
  pseudoClasses : List PseudoClass

inductive PseudoClass
  | plain (name : Token)
  | function (token : Token) (arguments : Arguments)

inductive Arguments
  | empty
  | anPlusB (value : AnPlusB)
  | selectors (list : List Selector)
  | raw (tokens : List Token)

end

namespace CombinatorKind

def name : CombinatorKind → String
  | .child => "child"
  | .descendant => "descendant"
  | .nextSibling => "next-sibling"
  | .subsequentSibling => "subsequent-sibling"
  | .column => "column"

def symbol : CombinatorKind → List Char
  | .child => ['>']
  | .descendant => []
  | .nextSibling => ['+']
  | .subsequentSibling => ['~']
  | .column => ['|', '|']

end CombinatorKind

namespace MatcherKind

def name : MatcherKind → String
  | .equal => "equal"
  | .includeWord => "include-word"
  | .dashMatch => "dash-match"
  | .startWith => "start-with"
  | .endWith => "end-with"
  | .include => "include"
  | .notEqual => "not-equal"

def symbol : MatcherKind → List Char
  | .equal => ['=']
  | .includeWord => ['~', '=']
  | .dashMatch => ['|', '=']
  | .startWith => ['^', '=']
  | .endWith => ['$', '=']
  | .include => ['*', '=']
  | .notEqual => ['!', '=']

end MatcherKind

def ModifierKind.name : ModifierKind → String
  | .caseInsensitive => "case-insensitive"
  | .caseSensitive => "case-sensitive"

namespace Complex

def ofLinks (first : Compound) : List (Combinator × Compound) → Complex
  | [] => .last first
  | (combinator, next) :: links => .link first combinator (ofLinks next links)

def compounds : Complex → List Compound
  | .last left => [left]
  | .link left _ right => left :: right.compounds

def combinators : Complex → List Combinator
  | .last _ => []
  | .link _ combinator right => combinator :: right.combinators

def combinator? : Complex → Option Combinator
  | .last _ => none
  | .link _ combinator _ => some combinator

end Complex

/-- A compound of the given parts, of which at least one has to be there. -/
def Compound.ofParts? (typeSelector : Option TypeSelector) (subclasses : List Subclass)
    (pseudoElements : List PseudoElement) : Option Compound :=
  if typeSelector.isNone && subclasses.isEmpty && pseudoElements.isEmpty then none
  else some ⟨typeSelector, subclasses, pseudoElements⟩

end CssSelectors

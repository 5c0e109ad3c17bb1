import CssSelectors.Grammar.Attribute
import CssSelectors.Proofs.Writing
import CssSelectors.Selector.AnPlusB

/-!
# Well-formed selectors

Which tokens the parts of a selector may hold in a dialect, and the functional
pseudo-classes of a selector list at every level of arguments.
-/

namespace CssSelectors

open Production (Spelled)

def Dialect.operators : Dialect → List (CombinatorKind × List Char)
  | .standard =>
    [(.child, ['>']), (.nextSibling, ['+']), (.subsequentSibling, ['~']), (.column, ['|', '|'])]
  | .extended =>
    [(.descendant, ['/', '/']), (.child, ['/']),
      (.child, ['>']), (.nextSibling, ['+']), (.subsequentSibling, ['~']), (.column, ['|', '|'])]

namespace Combinator

def IsOperator (dialect : Dialect) (combinator : Combinator) : Prop :=
  ∃ symbol, (combinator.kind, symbol) ∈ dialect.operators ∧ Spelled symbol combinator.tokens

def IsBlank (combinator : Combinator) : Prop :=
  combinator.kind = .descendant ∧ (∀ t ∈ combinator.tokens, t.isInsignificant = true) ∧
    ∃ t ∈ combinator.tokens, t.isWhitespace = true

def WellFormed (dialect : Dialect) (combinator : Combinator) : Prop :=
  combinator.IsOperator dialect ∨ combinator.IsBlank

end Combinator

def NsPrefix.WellFormed (ns : NsPrefix) : Prop :=
  ∀ t ∈ ns.value, t.isIdent = true ∨ t.isDelim '*' = true

def QualifiedName.WellFormed (name : QualifiedName) : Prop :=
  (∀ ns ∈ name.ns, ns.WellFormed) ∧ name.name.isIdent = true

def TypeSelector.WellFormed (dialect : Dialect) : TypeSelector → Prop
  | .name qualified => qualified.WellFormed
  | .universal ns asterisk => (∀ p ∈ ns, p.WellFormed) ∧ asterisk.isDelim '*' = true
  | .atKeyword token => dialect = .extended ∧ token.isAtKeyword = true
  | .xpath function => dialect = .extended ∧ Grammar.isStructuralFunction function = true

def AttributeMatcher.WellFormed (dialect : Dialect) (matcher : AttributeMatcher) : Prop :=
  Spelled matcher.kind.symbol matcher.tokens ∧ (matcher.kind = .notEqual → dialect = .extended)

def AttributeModifier.WellFormed : AttributeModifier → Prop
  | ⟨.caseInsensitive, token⟩ => token.ident?.any (equalsIgnoringCase · "i") = true
  | ⟨.caseSensitive, token⟩ => token.ident?.any (equalsIgnoringCase · "s") = true

def AttributeTest.WellFormed (dialect : Dialect) (test : AttributeTest) : Prop :=
  test.matcher.WellFormed dialect ∧
    (test.value.isString = true ∨ test.value.isIdent = true ∨ test.value.isNumber = true) ∧
      ∀ modifier ∈ test.modifier, modifier.WellFormed

def AttributeName.WellFormed (dialect : Dialect) : AttributeName → Prop
  | .qualified name => name.WellFormed
  | .atKeyword token => dialect = .extended ∧ token.isAtKeyword = true
  | .position token => dialect = .extended ∧ Grammar.isPosition token = true
  | .xpath function => dialect = .extended ∧ function.isFunction = true

/-- A position, as in `[2]`, is not compared with anything. -/
def AttributeName.isPosition : AttributeName → Bool
  | .position _ => true
  | _ => false

/-- Name and test are well formed, each for itself. -/
def AttributeSelector.Documented (dialect : Dialect) (selector : AttributeSelector) : Prop :=
  selector.name.WellFormed dialect ∧ ∀ test ∈ selector.test, test.WellFormed dialect

/-- Moreover a position, which no comparison is read behind, has no test. -/
def AttributeSelector.WellFormed (dialect : Dialect) (selector : AttributeSelector) : Prop :=
  selector.name.WellFormed dialect ∧ (∀ test ∈ selector.test, test.WellFormed dialect) ∧
    (selector.name.isPosition = true → selector.test = none)

def PseudoClass.WellFormed : PseudoClass → Prop
  | .plain name => name.isIdent = true
  | .function token _ => token.isFunction = true

def PseudoElement.WellFormed (element : PseudoElement) : Prop :=
  element.element.WellFormed ∧ ∀ selector ∈ element.pseudoClasses, selector.WellFormed

def Subclass.WellFormedBy (good : AttributeSelector → Prop) : Subclass → Prop
  | .id hash => hash.isHash = true
  | .className name => name.isIdent = true
  | .attribute selector => good selector
  | .pseudoClass selector => selector.WellFormed

/-- Every part is well formed, attribute selectors as `good` says, and there is a part. -/
structure Compound.WellFormedBy (dialect : Dialect) (good : AttributeSelector → Prop)
    (compound : Compound) : Prop where
  typeSelector : ∀ selector ∈ compound.typeSelector, selector.WellFormed dialect
  subclasses : ∀ subclass ∈ compound.subclasses, subclass.WellFormedBy good
  pseudoElements : ∀ element ∈ compound.pseudoElements, element.WellFormed
  nonempty : compound.typeSelector ≠ none ∨ compound.subclasses ≠ [] ∨
    compound.pseudoElements ≠ []

def Complex.WellFormedBy (dialect : Dialect) (good : AttributeSelector → Prop) :
    Complex → Prop
  | .last left => left.WellFormedBy dialect good
  | .link left combinator right =>
    left.WellFormedBy dialect good ∧ combinator.WellFormed dialect ∧
      right.WellFormedBy dialect good

/-- A relative selector begins with a combinator that delimiters spell. -/
def Selector.WellFormedBy (dialect : Dialect) (good : AttributeSelector → Prop) :
    Selector → Prop
  | .complex chain => chain.WellFormedBy dialect good
  | .relative combinator chain =>
    (∃ c, combinator = some c ∧ c.IsOperator dialect) ∧ chain.WellFormedBy dialect good

abbrev Subclass.WellFormed (dialect : Dialect) (subclass : Subclass) : Prop :=
  subclass.WellFormedBy (AttributeSelector.WellFormed dialect)

abbrev Compound.WellFormed (dialect : Dialect) (compound : Compound) : Prop :=
  compound.WellFormedBy dialect (AttributeSelector.WellFormed dialect)

abbrev Complex.WellFormed (dialect : Dialect) (chain : Complex) : Prop :=
  chain.WellFormedBy dialect (AttributeSelector.WellFormed dialect)

abbrev Selector.WellFormed (dialect : Dialect) (selector : Selector) : Prop :=
  selector.WellFormedBy dialect (AttributeSelector.WellFormed dialect)

/-- Every part is well formed for itself, and so a position may also be compared. -/
abbrev Selector.Documented (dialect : Dialect) (selector : Selector) : Prop :=
  selector.WellFormedBy dialect (AttributeSelector.Documented dialect)

/-- An+B has the value of its tokens, and tokens that are kept as they stand have no blank text
at either end. -/
def Arguments.WellFormed (dialect : Dialect) : Arguments → Prop
  | .empty => True
  | .anPlusB value => AnPlusB.derive value.values = some (value.a, value.b)
  | .selectors list => list ≠ [] ∧ ∀ selector ∈ list, selector.WellFormed dialect
  | .raw tokens =>
    tokens ≠ [] ∧ (∀ t ∈ tokens.head?, t.isInsignificant = false) ∧
      ∀ t ∈ tokens.getLast?, t.isInsignificant = false

/-! ## Attribute selectors -/

def Subclass.attributes : Subclass → List AttributeSelector
  | .attribute selector => [selector]
  | _ => []

def Compound.attributes (compound : Compound) : List AttributeSelector :=
  compound.subclasses.flatMap Subclass.attributes

def Complex.attributes (chain : Complex) : List AttributeSelector :=
  chain.compounds.flatMap Compound.attributes

def Selector.attributes : Selector → List AttributeSelector
  | .complex chain => chain.attributes
  | .relative _ chain => chain.attributes

section

variable {dialect : Dialect} {good good' : AttributeSelector → Prop}

theorem Subclass.WellFormedBy.mono {subclass : Subclass} (h : subclass.WellFormedBy good)
    (himp : ∀ a ∈ subclass.attributes, good a → good' a) :
    subclass.WellFormedBy good' := by
  match subclass with
  | .attribute selector => exact himp selector (List.mem_singleton_self selector) h
  | .id _ => exact h
  | .className _ => exact h
  | .pseudoClass _ => exact h

theorem Compound.WellFormedBy.mono {compound : Compound}
    (h : compound.WellFormedBy dialect good)
    (himp : ∀ a ∈ compound.attributes, good a → good' a) :
    compound.WellFormedBy dialect good' where
  typeSelector := h.typeSelector
  subclasses := fun subclass hsubclass => (h.subclasses subclass hsubclass).mono fun a ha =>
    himp a (List.mem_flatMap_of_mem hsubclass ha)
  pseudoElements := h.pseudoElements
  nonempty := h.nonempty

theorem Complex.WellFormedBy.mono {chain : Complex} (h : chain.WellFormedBy dialect good)
    (himp : ∀ a ∈ chain.attributes, good a → good' a) :
    chain.WellFormedBy dialect good' := by
  induction chain using Complex.compounds.induct with
  | case1 left =>
      exact Compound.WellFormedBy.mono h fun a ha => himp a (List.mem_append_left _ ha)
  | case2 left combinator right ih =>
      obtain ⟨hleft, hcombinator, hright⟩ := h
      exact ⟨hleft.mono fun a ha => himp a (List.mem_append_left _ ha), hcombinator,
        ih hright fun a ha => himp a (List.mem_append_right _ ha)⟩

theorem Selector.WellFormedBy.mono {selector : Selector}
    (h : selector.WellFormedBy dialect good)
    (himp : ∀ a ∈ selector.attributes, good a → good' a) :
    selector.WellFormedBy dialect good' := by
  cases selector with
  | complex chain => exact Complex.WellFormedBy.mono h himp
  | relative combinator chain => exact ⟨h.1, h.2.mono himp⟩

end

/-! ## Functional pseudo-classes -/

def PseudoClass.calls : PseudoClass → List (Token × Arguments)
  | .plain _ => []
  | .function token arguments => [(token, arguments)]

def PseudoElement.calls (element : PseudoElement) : List (Token × Arguments) :=
  element.element.calls ++ element.pseudoClasses.flatMap PseudoClass.calls

def Subclass.calls : Subclass → List (Token × Arguments)
  | .pseudoClass selector => selector.calls
  | _ => []

def Compound.calls (compound : Compound) : List (Token × Arguments) :=
  compound.subclasses.flatMap Subclass.calls ++
    compound.pseudoElements.flatMap PseudoElement.calls

def Complex.calls (chain : Complex) : List (Token × Arguments) :=
  chain.compounds.flatMap Compound.calls

def Selector.calls : Selector → List (Token × Arguments)
  | .complex chain => chain.calls
  | .relative _ chain => chain.calls

/-- The functions of a selector list that no arguments of another enclose. -/
def Selector.callsOfList (selectors : List Selector) : List (Token × Arguments) :=
  selectors.flatMap Selector.calls

section

variable {dialect : Dialect} {call : Token × Arguments}

theorem PseudoClass.isFunction_of_mem_calls {selector : PseudoClass} (h : selector.WellFormed)
    (hcall : call ∈ selector.calls) : call.1.isFunction = true := by
  cases selector with
  | plain name => cases hcall
  | function token arguments =>
      obtain rfl := List.mem_singleton.1 hcall
      exact h

theorem PseudoElement.isFunction_of_mem_calls {element : PseudoElement} (h : element.WellFormed)
    (hcall : call ∈ element.calls) : call.1.isFunction = true := by
  rcases List.mem_append.1 hcall with hcall | hcall
  · exact PseudoClass.isFunction_of_mem_calls h.1 hcall
  · obtain ⟨selector, hselector, hcall⟩ := List.mem_flatMap.1 hcall
    exact PseudoClass.isFunction_of_mem_calls (h.2 selector hselector) hcall

theorem Compound.isFunction_of_mem_calls {compound : Compound} (h : compound.WellFormed dialect)
    (hcall : call ∈ compound.calls) : call.1.isFunction = true := by
  rcases List.mem_append.1 hcall with hcall | hcall
  · obtain ⟨subclass, hsubclass, hcall⟩ := List.mem_flatMap.1 hcall
    have hwell := h.subclasses subclass hsubclass
    match subclass with
    | .pseudoClass selector => exact PseudoClass.isFunction_of_mem_calls hwell hcall
    | .id _ => cases hcall
    | .className _ => cases hcall
    | .attribute _ => cases hcall
  · obtain ⟨element, helement, hcall⟩ := List.mem_flatMap.1 hcall
    exact PseudoElement.isFunction_of_mem_calls (h.pseudoElements element helement) hcall

theorem Complex.wellFormed_of_mem_compounds {chain : Complex} (h : chain.WellFormed dialect) :
    ∀ compound ∈ chain.compounds, compound.WellFormed dialect := by
  induction chain using Complex.compounds.induct with
  | case1 left =>
      intro compound hcompound
      obtain rfl := List.mem_singleton.1 hcompound
      exact h
  | case2 left combinator right ih =>
      obtain ⟨hleft, -, hright⟩ := h
      exact List.forall_mem_cons.2 ⟨hleft, ih hright⟩

theorem Selector.isFunction_of_mem_calls {selector : Selector} (h : selector.WellFormed dialect)
    (hcall : call ∈ selector.calls) : call.1.isFunction = true := by
  obtain ⟨chain, hchain, hcall⟩ : ∃ chain : Complex, chain.WellFormed dialect ∧
      call ∈ chain.calls := by
    cases selector with
    | complex chain => exact ⟨chain, h, hcall⟩
    | relative combinator chain => exact ⟨chain, h.2, hcall⟩
  obtain ⟨compound, hcompound, hcall⟩ := List.mem_flatMap.1 hcall
  have hwell := Complex.wellFormed_of_mem_compounds hchain compound hcompound
  exact Compound.isFunction_of_mem_calls hwell hcall

end

/-- A functional pseudo-class of a selector list inside the arguments of `depth` others. -/
inductive CallAt : List Selector → Nat → Token → Arguments → Prop
  | here {selectors : List Selector} {function : Token} {arguments : Arguments}
      (h : (function, arguments) ∈ Selector.callsOfList selectors) :
      CallAt selectors 0 function arguments
  | inside {selectors inner : List Selector} {outer function : Token} {arguments : Arguments}
      {depth : Nat} (h : (outer, .selectors inner) ∈ Selector.callsOfList selectors)
      (hinner : CallAt inner depth function arguments) :
      CallAt selectors (depth + 1) function arguments

end CssSelectors

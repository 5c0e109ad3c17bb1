import CssSelectors.Selector.Basic

/-!
# Selector trees

A uniform view of the parts of a selector as nodes with children, and the walk over
a node and all below it, parents first.
-/

namespace CssSelectors

inductive Node
  | complexSelector (chain : Complex)
  | relativeSelector (combinator : Option Combinator) (chain : Complex)
  | compoundSelector (compound : Compound)
  | typeSelector (selector : TypeSelector)
  | qualifiedName (name : QualifiedName)
  | nsPrefix (ns : NsPrefix)
  | idSelector (hash : Token)
  | classSelector (name : Token)
  | attributeSelector (selector : AttributeSelector)
  | attributeTest (test : AttributeTest)
  | combinator (combinator : Combinator)
  | attributeMatcher (matcher : AttributeMatcher)
  | attributeModifier (modifier : AttributeModifier)
  | pseudoClassSelector (name : Token)
  | pseudoElementSelector (element : PseudoClass)
  | pseudoClassFunction (token : Token) (arguments : Arguments)
  | xpathFunction (function : Token)
  | anPlusB (value : AnPlusB)

def Selector.node : Selector → Node
  | .complex chain => .complexSelector chain
  | .relative combinator chain => .relativeSelector combinator chain

def PseudoClass.node : PseudoClass → Node
  | .plain name => .pseudoClassSelector name
  | .function token arguments => .pseudoClassFunction token arguments

def Subclass.node : Subclass → Node
  | .id hash => .idSelector hash
  | .className name => .classSelector name
  | .attribute selector => .attributeSelector selector
  | .pseudoClass selector => selector.node

namespace Node

def kindName : Node → String
  | .complexSelector _ => "ComplexSelector"
  | .relativeSelector _ _ => "RelativeSelector"
  | .compoundSelector _ => "CompoundSelector"
  | .typeSelector _ => "TypeSelector"
  | .qualifiedName _ => "WqName"
  | .nsPrefix _ => "NsPrefix"
  | .idSelector _ => "IdSelector"
  | .classSelector _ => "ClassSelector"
  | .attributeSelector _ => "AttributeSelector"
  | .attributeTest _ => "AttributeSelectorMatcher"
  | .combinator _ => "Combinator"
  | .attributeMatcher _ => "AttrMatcher"
  | .attributeModifier _ => "AttrModifier"
  | .pseudoClassSelector _ => "PseudoClassSelector"
  | .pseudoElementSelector _ => "PseudoElementSelector"
  | .pseudoClassFunction _ _ => "PseudoClassFunction"
  | .xpathFunction _ => "XPathFunction"
  | .anPlusB _ => "ANPlusB"

def ofPseudoElement (group : PseudoElement) : List Node :=
  .pseudoElementSelector group.element :: group.pseudoClasses.map PseudoClass.node

/-- The parts of a node that are nodes themselves, in the order they are written. -/
def children : Node → List Node
  | .complexSelector (.last left) => [.compoundSelector left]
  | .complexSelector (.link left joint right) =>
    [.compoundSelector left, .combinator joint, .complexSelector right]
  | .relativeSelector joint chain => joint.toList.map .combinator ++ [.complexSelector chain]
  | .compoundSelector compound =>
    compound.typeSelector.toList.map .typeSelector ++ compound.subclasses.map Subclass.node ++
      compound.pseudoElements.flatMap ofPseudoElement
  | .typeSelector (.name name) => [.qualifiedName name]
  | .typeSelector (.universal ns _) => ns.toList.map .nsPrefix
  | .typeSelector (.atKeyword _) => []
  | .typeSelector (.xpath function) => [.xpathFunction function]
  | .qualifiedName ⟨ns, _⟩ => ns.toList.map .nsPrefix
  | .attributeSelector ⟨.qualified name, test⟩ =>
    .qualifiedName name :: test.toList.map .attributeTest
  | .attributeSelector ⟨.xpath function, test⟩ =>
    .xpathFunction function :: test.toList.map .attributeTest
  | .attributeSelector ⟨.atKeyword _, test⟩ => test.toList.map .attributeTest
  | .attributeSelector ⟨.position _, test⟩ => test.toList.map .attributeTest
  | .attributeTest ⟨matcher, _, modifier⟩ =>
    .attributeMatcher matcher :: modifier.toList.map .attributeModifier
  | .pseudoElementSelector element => [element.node]
  | .pseudoClassFunction _ (.anPlusB value) => [.anPlusB value]
  | .pseudoClassFunction _ (.selectors list) => list.map Selector.node
  | .pseudoClassFunction _ .empty => []
  | .pseudoClassFunction _ (.raw _) => []
  | .nsPrefix _ => []
  | .idSelector _ => []
  | .classSelector _ => []
  | .combinator _ => []
  | .attributeMatcher _ => []
  | .attributeModifier _ => []
  | .pseudoClassSelector _ => []
  | .xpathFunction _ => []
  | .anPlusB _ => []

theorem sizeOf_node_selector (selector : Selector) : sizeOf selector.node = sizeOf selector := by
  cases selector <;> simp [Selector.node]

theorem sizeOf_node_pseudoClass (selector : PseudoClass) :
    sizeOf selector.node = sizeOf selector := by
  cases selector <;> simp [PseudoClass.node]

theorem sizeOf_node_subclass_le (selector : Subclass) :
    sizeOf selector.node ≤ sizeOf selector := by
  cases selector <;> simp [Subclass.node, sizeOf_node_pseudoClass]

theorem sizeOf_lt_of_mem_ofPseudoElement {group : PseudoElement} {child : Node}
    (h : child ∈ ofPseudoElement group) : sizeOf child ≤ sizeOf group := by
  obtain ⟨element, pseudoClasses⟩ := group
  simp only [ofPseudoElement, List.mem_cons, List.mem_map] at h
  rcases h with rfl | ⟨selector, hmem, rfl⟩
  · simp
  · have := List.sizeOf_lt_of_mem hmem
    rw [sizeOf_node_pseudoClass]
    simp only [PseudoElement.mk.sizeOf_spec]
    omega

theorem sizeOf_lt_of_mem_children {node child : Node} (h : child ∈ node.children) :
    sizeOf child < sizeOf node := by
  unfold children at h
  split at h
  case h_3 joint chain => cases joint <;> grind
  case h_4 compound =>
    obtain ⟨typeSelector, subclasses, pseudoElements⟩ := compound
    simp only [List.mem_append, List.mem_map, Option.mem_toList, List.mem_flatMap] at h
    rcases h with (⟨t, ht, rfl⟩ | ⟨s, hs, rfl⟩) | ⟨g, hg, hchild⟩
    · subst ht; simp; omega
    · have h1 := sizeOf_node_subclass_le s
      have h2 := List.sizeOf_lt_of_mem hs
      simp; omega
    · have h1 := sizeOf_lt_of_mem_ofPseudoElement hchild
      have h2 := List.sizeOf_lt_of_mem hg
      simp; omega
  case h_17 list =>
    obtain ⟨s, hs, rfl⟩ := List.mem_map.1 h
    have := List.sizeOf_lt_of_mem hs
    rw [sizeOf_node_selector]
    simp; omega
  case h_15 element =>
    rw [List.mem_singleton] at h
    subst h
    rw [sizeOf_node_pseudoClass]
    simp
  all_goals grind

/-- A node and all nodes below it with their depths, parents before their children. -/
def outline (depth : Nat) (node : Node) : List (Nat × Node) :=
  (depth, node) :: node.children.attach.flatMap fun child => outline (depth + 1) child.1
termination_by node
decreasing_by exact sizeOf_lt_of_mem_children child.2

def walk (node : Node) : List Node :=
  (node.outline 0).map (·.2)

end Node

end CssSelectors

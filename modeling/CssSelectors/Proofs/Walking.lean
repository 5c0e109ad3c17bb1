import CssSelectors.Selector.Node
import Mathlib.Algebra.Order.Group.Multiset
import Mathlib.Tactic.Abel

/-!
# Walking a selector

The nodes of a selector can be listed without asking any node for its children: by recursion on
the tree, each part before what its fields hold, and the fields from left to right. Walking a
node passes exactly these nodes in this order.
-/

namespace CssSelectors

/-! ## Nodes field by field -/

def NsPrefix.preorder (ns : NsPrefix) : List Node :=
  [.nsPrefix ns]

def QualifiedName.preorder (name : QualifiedName) : List Node :=
  .qualifiedName name :: name.ns.toList.flatMap NsPrefix.preorder

def TypeSelector.preorder (selector : TypeSelector) : List Node :=
  .typeSelector selector ::
    match selector with
    | .name qualified => qualified.preorder
    | .universal ns _ => ns.toList.flatMap NsPrefix.preorder
    | .atKeyword _ => []
    | .xpath function => [.xpathFunction function]

def AttributeTest.preorder (test : AttributeTest) : List Node :=
  .attributeTest test :: .attributeMatcher test.matcher ::
    test.modifier.toList.map .attributeModifier

/-- What an attribute is named by is no node of its own. -/
def AttributeName.preorder : AttributeName → List Node
  | .qualified name => name.preorder
  | .atKeyword _ => []
  | .position _ => []
  | .xpath function => [.xpathFunction function]

def AttributeSelector.preorder (selector : AttributeSelector) : List Node :=
  .attributeSelector selector ::
    (selector.name.preorder ++ selector.test.toList.flatMap AttributeTest.preorder)

mutual

def Selector.preorder : Selector → List Node
  | .complex chain => chain.preorder
  | .relative combinator chain =>
    .relativeSelector combinator chain :: (combinator.toList.map .combinator ++ chain.preorder)

def Complex.preorder : Complex → List Node
  | .last left => .complexSelector (.last left) :: left.preorder
  | .link left combinator right =>
    .complexSelector (.link left combinator right) ::
      (left.preorder ++ .combinator combinator :: right.preorder)

def Compound.preorder : Compound → List Node
  | ⟨typeSelector, subclasses, pseudoElements⟩ =>
    .compoundSelector ⟨typeSelector, subclasses, pseudoElements⟩ ::
      (typeSelector.toList.flatMap TypeSelector.preorder ++ Subclass.preorderAll subclasses ++
        PseudoElement.preorderAll pseudoElements)

def Subclass.preorderAll : List Subclass → List Node
  | [] => []
  | subclass :: subclasses => subclass.preorder ++ Subclass.preorderAll subclasses

def Subclass.preorder : Subclass → List Node
  | .id hash => [.idSelector hash]
  | .className name => [.classSelector name]
  | .attribute selector => selector.preorder
  | .pseudoClass selector => selector.preorder

/-- A pseudo-element is a node around its name; the pseudo-classes stand behind it. -/
def PseudoElement.preorderAll : List PseudoElement → List Node
  | [] => []
  | ⟨element, pseudoClasses⟩ :: groups =>
    .pseudoElementSelector element :: element.preorder ++ PseudoClass.preorderAll pseudoClasses ++
      PseudoElement.preorderAll groups

def PseudoClass.preorderAll : List PseudoClass → List Node
  | [] => []
  | selector :: selectors => selector.preorder ++ PseudoClass.preorderAll selectors

def PseudoClass.preorder : PseudoClass → List Node
  | .plain name => [.pseudoClassSelector name]
  | .function token arguments => .pseudoClassFunction token arguments :: arguments.preorder

def Arguments.preorder : Arguments → List Node
  | .empty => []
  | .anPlusB value => [.anPlusB value]
  | .selectors list => Selector.preorderAll list
  | .raw _ => []

def Selector.preorderAll : List Selector → List Node
  | [] => []
  | selector :: selectors => selector.preorder ++ Selector.preorderAll selectors

end

/-- The node and all nodes in its fields, parents before what they hold. -/
def Node.preorder : Node → List Node
  | .complexSelector chain => chain.preorder
  | .relativeSelector joint chain => (Selector.relative joint chain).preorder
  | .compoundSelector compound => compound.preorder
  | .typeSelector selector => selector.preorder
  | .qualifiedName name => name.preorder
  | .nsPrefix ns => ns.preorder
  | .idSelector hash => [.idSelector hash]
  | .classSelector name => [.classSelector name]
  | .attributeSelector selector => selector.preorder
  | .attributeTest test => test.preorder
  | .combinator joint => [.combinator joint]
  | .attributeMatcher matcher => [.attributeMatcher matcher]
  | .attributeModifier modifier => [.attributeModifier modifier]
  | .pseudoClassSelector name => [.pseudoClassSelector name]
  | .pseudoElementSelector element => .pseudoElementSelector element :: element.preorder
  | .pseudoClassFunction token arguments => .pseudoClassFunction token arguments :: arguments.preorder
  | .xpathFunction function => [.xpathFunction function]
  | .anPlusB value => [.anPlusB value]

/-! ## Wrappers that are no nodes -/

theorem Selector.preorder_node (selector : Selector) :
    selector.node.preorder = selector.preorder := by
  cases selector <;> rfl

theorem PseudoClass.preorder_node (selector : PseudoClass) :
    selector.node.preorder = selector.preorder := by
  cases selector <;> rfl

theorem Subclass.preorder_node (subclass : Subclass) :
    subclass.node.preorder = subclass.preorder := by
  cases subclass with
  | pseudoClass selector => exact selector.preorder_node
  | _ => rfl

/-- What lists the items of a list one behind the other lists the nodes they stand for. -/
theorem Node.eq_flatMap_preorder {α : Type} {all : List α → List Node} {node : α → Node}
    (hnil : all [] = []) (hcons : ∀ a as, all (a :: as) = (node a).preorder ++ all as)
    (as : List α) : all as = (as.map node).flatMap preorder := by
  induction as with
  | nil => exact hnil
  | cons a as ih => rw [hcons, ih, List.map_cons, List.flatMap_cons]

theorem Selector.preorderAll_eq (selectors : List Selector) :
    preorderAll selectors = (selectors.map node).flatMap Node.preorder :=
  Node.eq_flatMap_preorder rfl (fun selector _ => by rw [preorderAll, preorder_node]) selectors

theorem PseudoClass.preorderAll_eq (selectors : List PseudoClass) :
    preorderAll selectors = (selectors.map node).flatMap Node.preorder :=
  Node.eq_flatMap_preorder rfl (fun selector _ => by rw [preorderAll, preorder_node]) selectors

theorem Subclass.preorderAll_eq (subclasses : List Subclass) :
    preorderAll subclasses = (subclasses.map node).flatMap Node.preorder :=
  Node.eq_flatMap_preorder rfl (fun subclass _ => by rw [preorderAll, preorder_node]) subclasses

theorem PseudoElement.preorderAll_eq (groups : List PseudoElement) :
    preorderAll groups = (groups.flatMap Node.ofPseudoElement).flatMap Node.preorder := by
  induction groups with
  | nil => rfl
  | cons group groups ih =>
      obtain ⟨element, pseudoClasses⟩ := group
      rw [preorderAll, ih, PseudoClass.preorderAll_eq, List.flatMap_cons, List.flatMap_append]
      rfl

namespace Node

/-! ## Nodes and their children -/

theorem preorder_eq (node : Node) : node.preorder = node :: node.children.flatMap preorder := by
  cases node with
  | complexSelector chain =>
      cases chain with
      | last left => rw [children, List.flatMap_singleton, preorder, Complex.preorder, preorder]
      | link left joint right => simp [preorder, Complex.preorder, children]
  | relativeSelector joint chain =>
      rw [children, List.flatMap_append, List.flatMap_map, List.flatMap_singleton]
      simp only [preorder, Selector.preorder, List.map_eq_flatMap]
  | compoundSelector compound =>
      obtain ⟨type, subclasses, groups⟩ := compound
      rw [children, List.flatMap_append, List.flatMap_append, List.flatMap_map, preorder,
        Compound.preorder, Subclass.preorderAll_eq, PseudoElement.preorderAll_eq]
      rfl
  | typeSelector selector =>
      cases selector <;> simp [preorder, TypeSelector.preorder, children, List.flatMap_map]
  | qualifiedName name => simp [preorder, QualifiedName.preorder, children, List.flatMap_map]
  | attributeSelector selector =>
      obtain ⟨name, test⟩ := selector
      cases name <;>
        simp [preorder, AttributeSelector.preorder, AttributeName.preorder, children,
          List.flatMap_map]
  | attributeTest test =>
      rw [children, List.flatMap_cons, List.flatMap_map]
      simp only [preorder, AttributeTest.preorder, List.map_eq_flatMap, List.singleton_append]
  | pseudoElementSelector element =>
      rw [children, List.flatMap_singleton, PseudoClass.preorder_node, preorder]
  | pseudoClassFunction token arguments =>
      cases arguments with
      | selectors list =>
          rw [children, ← Selector.preorderAll_eq, preorder, Arguments.preorder]
      | _ => simp [preorder, Arguments.preorder, children]
  | _ => rfl

theorem outline_eq (depth : Nat) (node : Node) :
    node.outline depth = (depth, node) :: node.children.flatMap (outline (depth + 1)) := by
  rw [outline, List.flatMap_subtype fun _ _ => rfl, List.unattach_attach]

theorem map_snd_outline (depth : Nat) (node : Node) :
    (node.outline depth).map (·.2) = node.preorder := by
  induction depth, node using outline.induct with
  | case1 depth node ih =>
      have hchildren : (node.children.flatMap (outline (depth + 1))).map (·.2) =
          node.children.flatMap preorder := by
        rw [List.map_flatMap]
        exact List.flatMap_congr fun child hchild => ih ⟨child, hchild⟩
      rw [outline_eq, List.map_cons, hchildren, ← preorder_eq]

end Node

/-! ## Chains -/

/-- The chain and what is left of it behind each of its combinators. -/
def Complex.suffixes : Complex → List Complex
  | .last left => [.last left]
  | .link left combinator right => .link left combinator right :: right.suffixes

theorem Complex.length_combinators (chain : Complex) :
    chain.combinators.length + 1 = chain.compounds.length := by
  induction chain using Complex.compounds.induct with
  | case1 left => rfl
  | case2 left combinator right ih => exact congrArg (· + 1) ih

/-- Of its own, a chain has the rest of it at every compound, the compounds and the combinators
between them. All else is below one of the compounds. -/
theorem Complex.preorder_perm (chain : Complex) :
    chain.preorder.Perm
      (chain.suffixes.map .complexSelector ++ chain.compounds.map .compoundSelector ++
        chain.combinators.map .combinator ++
          chain.compounds.flatMap fun compound =>
            (Node.compoundSelector compound).children.flatMap Node.preorder) := by
  have hleft (left : Compound) : left.preorder = .compoundSelector left ::
      (Node.compoundSelector left).children.flatMap Node.preorder :=
    Node.preorder_eq (.compoundSelector left)
  induction chain using Complex.compounds.induct with
  | case1 left =>
      rw [preorder, hleft, suffixes, compounds, combinators, List.flatMap_singleton]
      exact .refl _
  | case2 left combinator right ih =>
      rw [preorder, hleft, suffixes, compounds, combinators, List.flatMap_cons]
      -- the same parts on both sides, in another order
      rw [← Multiset.coe_eq_coe] at ih ⊢
      simp only [List.map_cons, ← Multiset.coe_add, ← Multiset.cons_coe,
        ← Multiset.singleton_add] at ih ⊢
      rw [ih]
      abel

/-- A walk passes every node in the fields of a node once, parents first and fields from left to
right. A chain has of its own one node for each compound and one less for the combinators, and
tokens that are kept as they stand are no nodes. -/
theorem walk_eq_preorder :
    (∀ node : Node, node.walk = node.preorder) ∧
    (∀ chain : Complex,
      (Node.complexSelector chain).walk.Perm
        (chain.suffixes.map .complexSelector ++ chain.compounds.map .compoundSelector ++
          chain.combinators.map .combinator ++
            chain.compounds.flatMap fun compound =>
              (Node.compoundSelector compound).children.flatMap Node.walk) ∧
      chain.combinators.length + 1 = chain.compounds.length) ∧
    ∀ token tokens, (Node.pseudoClassFunction token (.raw tokens)).walk =
      [.pseudoClassFunction token (.raw tokens)] := by
  have hwalk : Node.walk = Node.preorder := funext fun node => Node.map_snd_outline 0 node
  rw [hwalk]
  refine ⟨fun _ => rfl, fun chain => ⟨?_, chain.length_combinators⟩, fun token tokens => ?_⟩
  · exact chain.preorder_perm
  · rw [Node.preorder, Arguments.preorder]

end CssSelectors

import CssSelectors.Json.Token
import CssSelectors.Selector.Basic

/-!
# Selectors as JSON

Every part of a selector is an object with its fields in a fixed order, and where a
part has several forms, an object with one field named for the form.
-/

namespace CssSelectors

private def tokensToJson (tokens : List Token) : Json :=
  .arr (Token.listToJson tokens)

def CombinatorKind.label : CombinatorKind → String
  | .child => "Child"
  | .descendant => "Descendant"
  | .nextSibling => "NextSibling"
  | .subsequentSibling => "SubsequentSibling"
  | .column => "Column"

def MatcherKind.label : MatcherKind → String
  | .equal => "Equal"
  | .includeWord => "IncludeWord"
  | .dashMatch => "DashMatch"
  | .startWith => "StartWith"
  | .endWith => "EndWith"
  | .include => "Include"
  | .notEqual => "NotEqual"

def ModifierKind.label : ModifierKind → String
  | .caseInsensitive => "CaseInsensitive"
  | .caseSensitive => "CaseSensitive"

def Combinator.toJson (combinator : Combinator) : Json :=
  .obj [("kind", .str combinator.kind.label), ("tokens", tokensToJson combinator.tokens)]

def AttributeMatcher.toJson (matcher : AttributeMatcher) : Json :=
  .obj [("kind", .str matcher.kind.label), ("tokens", tokensToJson matcher.tokens)]

def AttributeModifier.toJson (modifier : AttributeModifier) : Json :=
  .obj [("kind", .str modifier.kind.label), ("token", modifier.token.toJson)]

def NsPrefix.toJson (ns : NsPrefix) : Json :=
  .obj [("value", .ofOption Token.toJson ns.value)]

def QualifiedName.toJson (name : QualifiedName) : Json :=
  .obj [("prefix", .ofOption NsPrefix.toJson name.ns), ("name", name.name.toJson)]

private def functionToJson (function : Token) : Json :=
  .obj [("value", function.toJson)]

def TypeSelector.toJson : TypeSelector → Json
  | .name qualified => .tagged "Name" qualified.toJson
  | .universal ns token =>
    .tagged "Universal"
      (.obj [("prefix", .ofOption NsPrefix.toJson ns), ("token", token.toJson)])
  | .atKeyword token => .tagged "AtKeyword" token.toJson
  | .xpath function => .tagged "XPath" (functionToJson function)

def AttributeName.toJson : AttributeName → Json
  | .qualified name => .tagged "Qualified" name.toJson
  | .atKeyword token => .tagged "AtKeyword" token.toJson
  | .position token => .tagged "Position" token.toJson
  | .xpath function => .tagged "XPath" (functionToJson function)

def AttributeTest.toJson (test : AttributeTest) : Json :=
  .obj [
    ("matcher", test.matcher.toJson),
    ("value", test.value.toJson),
    ("modifier", .ofOption AttributeModifier.toJson test.modifier)]

def AttributeSelector.toJson (selector : AttributeSelector) : Json :=
  .obj [
    ("name", selector.name.toJson),
    ("matcher", .ofOption AttributeTest.toJson selector.test)]

def AnPlusB.toJson (value : AnPlusB) : Json :=
  .obj [("values", tokensToJson value.values), ("a", .int value.a), ("b", .int value.b)]

mutual

def Selector.toJson : Selector → Json
  | .complex chain => .tagged "Complex" chain.toJson
  | .relative combinator chain =>
    .tagged "Relative"
      (.obj [
        ("combinator", .ofOption Combinator.toJson combinator),
        ("complex_selector", chain.toJson)])

def Complex.toJson : Complex → Json
  | .last left => .obj [("left", left.toJson), ("right", .null)]
  | .link left combinator right =>
    .obj [("left", left.toJson), ("right", .arr [combinator.toJson, right.toJson])]

def Compound.toJson : Compound → Json
  | ⟨typeSelector, subclasses, pseudoElements⟩ =>
    .obj [
      ("type_selector", .ofOption TypeSelector.toJson typeSelector),
      ("subclasses", .arr (Subclass.listToJson subclasses)),
      ("pseudo_elements", .arr (PseudoElement.listToJson pseudoElements))]

def Subclass.listToJson : List Subclass → List Json
  | [] => []
  | subclass :: subclasses => subclass.toJson :: Subclass.listToJson subclasses

def Subclass.toJson : Subclass → Json
  | .id hash => .tagged "Id" (.obj [("value", hash.toJson)])
  | .className name => .tagged "Class" (.obj [("value", name.toJson)])
  | .attribute selector => .tagged "Attribute" selector.toJson
  | .pseudoClass selector => .tagged "PseudoClass" selector.toJson

def PseudoElement.listToJson : List PseudoElement → List Json
  | [] => []
  | ⟨element, pseudoClasses⟩ :: groups =>
    .obj [
      ("element", .obj [("value", element.toJson)]),
      ("pseudo_classes", .arr (PseudoClass.listToJson pseudoClasses))] ::
      PseudoElement.listToJson groups

def PseudoClass.listToJson : List PseudoClass → List Json
  | [] => []
  | selector :: selectors => selector.toJson :: PseudoClass.listToJson selectors

def PseudoClass.toJson : PseudoClass → Json
  | .plain name => .tagged "Selector" (.obj [("value", name.toJson)])
  | .function token arguments =>
    .tagged "Function" (.obj [("name", token.toJson), ("arguments", arguments.toJson)])

def Arguments.toJson : Arguments → Json
  | .empty => .null
  | .anPlusB value => .tagged "AnPlusB" value.toJson
  | .selectors list => .tagged "Selectors" (.arr (Selector.listToJson list))
  | .raw tokens => .tagged "Raw" (tokensToJson tokens)

def Selector.listToJson : List Selector → List Json
  | [] => []
  | selector :: selectors => selector.toJson :: Selector.listToJson selectors

end

end CssSelectors

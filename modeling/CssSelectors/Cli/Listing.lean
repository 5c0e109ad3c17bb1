import CssSelectors.Selector.Node
import CssSelectors.Text.Quoted
import CssSelectors.Token.Outline
import CssSelectors.Token.Printer

/-!
# Listings

Selector trees and tokens with one line for each node or token, two blanks deeper
than the line of the node or function around it.
-/

namespace CssSelectors

namespace Listing

def indent (depth : Nat) : String :=
  String.ofList (List.replicate (2 * depth) ' ')

def detail : Node → String
  | .typeSelector (.universal _ _) => " *"
  | .typeSelector (.atKeyword token) => " " ++ token.text
  | .qualifiedName name => " " ++ name.name.text
  | .nsPrefix ns => " " ++ (ns.value.map Token.text).getD "" ++ "|"
  | .idSelector hash => " " ++ hash.text
  | .classSelector name => " ." ++ name.text
  | .attributeSelector ⟨.atKeyword token, _⟩ => " " ++ token.text
  | .attributeSelector ⟨.position token, _⟩ => " position " ++ token.text
  | .attributeTest test => " " ++ test.value.text
  | .combinator combinator => " " ++ combinator.kind.name
  | .attributeMatcher matcher =>
    " " ++ matcher.kind.name ++ " (" ++ String.ofList matcher.kind.symbol ++ ")"
  | .attributeModifier modifier => " " ++ modifier.kind.name
  | .pseudoClassSelector name => " :" ++ name.text
  | .pseudoClassFunction token (.raw tokens) =>
    " :" ++ token.functionName?.getD "" ++ "() raw " ++ Quoted.encode (Token.textOfList tokens)
  | .pseudoClassFunction token _ => " :" ++ token.functionName?.getD "" ++ "()"
  | .xpathFunction function => " " ++ function.text
  | .anPlusB value => " a=" ++ toString value.a ++ " b=" ++ toString value.b
  | _ => ""

def label (node : Node) : String :=
  node.kindName ++ detail node

def nodeLine (entry : Nat × Node) : String :=
  indent entry.1 ++ label entry.2 ++ "\n"

def tree (list : List Selector) : String :=
  String.join ((list.flatMap (·.node.outline 0)).map nodeLine)

def tokenLine (depth : Nat) (token : Token) : String :=
  let (first, last) := token.span.displayRange
  indent depth ++ toString first ++ "-" ++ toString last ++ " " ++ token.typeName ++ " " ++
    token.describe ++ "\n"

def tokens (list : List Token) : String :=
  String.join ((Token.outlineOfList 0 list).map fun (depth, token) => tokenLine depth token)

end Listing

end CssSelectors

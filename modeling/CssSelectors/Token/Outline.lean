import CssSelectors.Token.Basic

/-!
# Tokens at every depth

Tokens together with the tokens in their arguments, functions first.
-/

namespace CssSelectors

namespace Token

mutual

def outline (depth : Nat) : Token → List (Nat × Token)
  | .atom a span => [(depth, .atom a span)]
  | .function name arguments span =>
    (depth, .function name arguments span) :: outlineOfList (depth + 1) arguments

def outlineOfList (depth : Nat) : List Token → List (Nat × Token)
  | [] => []
  | token :: tokens => token.outline depth ++ outlineOfList depth tokens

end

end Token

end CssSelectors

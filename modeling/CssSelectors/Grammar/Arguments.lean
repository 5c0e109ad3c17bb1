import CssSelectors.Grammar.AnPlusB
import CssSelectors.Grammar.Selector

/-!
# Function arguments

The arguments of a functional pseudo-class are read on their own, one level deeper: as
An+B, else as a selector list, else they are kept as tokens. The number of levels is
limited, and nothing can be read of what lies deeper.
-/

namespace CssSelectors

def Token.trim (tokens : List Token) : List Token :=
  ((tokens.dropWhile isInsignificant).reverse.dropWhile isInsignificant).reverse

namespace Grammar

open Production

def wholeList (g : Grammar) : Production (List Selector) := do
  skip
  selectorList g

/-- What nonempty arguments of the function `name` say, given the grammar one level deeper.
Nothing of what was looked at in them counts outside. -/
def readNested (inner : Grammar) (name : String) (tokens : List Token) :
    Production Arguments := fun rest =>
  match (anPlusB tokens).outcome with
  | .matched value _ => ⟨.matched (.anPlusB value) rest, none, []⟩
  | _ =>
    let reading := wholeList inner tokens
    let raw : Reading Arguments :=
      ⟨.matched (.raw tokens) rest, none, reading.keptRaw ++ [name]⟩
    match reading.outcome with
    | .matched list leftover =>
      if Token.atEnd leftover then ⟨.matched (.selectors list) rest, none, reading.keptRaw⟩
      else raw
    | .noMatch _ => raw
    | .tooDeep => ⟨.tooDeep, none, reading.keptRaw⟩

/-- Reads the arguments of a function that may hold `levels` further levels of arguments.
Parentheses with nothing between them take no level. -/
def readArguments (dialect : Dialect) (levels : Nat) (function : Token) :
    Production Arguments :=
  match Token.trim (function.arguments?.getD []) with
  | [] => pure .empty
  | t :: ts =>
    match levels with
    | 0 => fun _ => ⟨.tooDeep, none, []⟩
    | levels + 1 =>
      readNested ⟨dialect, readArguments dialect levels⟩ (function.functionName?.getD "")
        (t :: ts)

def ofLevels (dialect : Dialect) (levels : Nat) : Grammar :=
  ⟨dialect, readArguments dialect levels⟩

end Grammar

end CssSelectors

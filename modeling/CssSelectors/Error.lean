import CssSelectors.Token.Printer

/-!
# Errors

Why a text is not read as a selector list.
-/

namespace CssSelectors

inductive SelectorError
  /-- The token with this description does not fit; its first and last character count
  from one. -/
  | unexpected (found : String) (first last : Nat)
  /-- Function arguments are nested more deeply than this. -/
  | nestingTooDeep (limit : Nat)
deriving DecidableEq, Repr

namespace SelectorError

def ofToken (t : Token) : SelectorError :=
  .unexpected t.describe t.span.displayRange.1 t.span.displayRange.2

def message : SelectorError → String
  | .unexpected found first last =>
    "unexpected " ++ found ++ " at characters " ++ toString first ++ "-" ++ toString last
  | .nestingTooDeep limit =>
    "selector nesting exceeds the limit of " ++ toString limit ++ " levels"

/-- The characters that an error points at, if it points at some. -/
def range? : SelectorError → Option (Nat × Nat)
  | .unexpected _ first last => some (first, last)
  | .nestingTooDeep _ => none

end SelectorError

end CssSelectors

import CssSelectors.Grammar.Production
import CssSelectors.Selector.AnPlusB

/-!
# The grammar of An+B

The productions of An+B in the order they are tried. A production counts only if
nothing but whitespace and comments follows, and no blank may stand between a plus
sign and the name behind it.
-/

namespace CssSelectors

namespace Grammar

open Production AnPlusB

def integerToken (signed : Option Bool) : Production Token :=
  token fun
    | .atom (.number numeric) _ =>
      numeric.integer?.isSome && signed.all (numeric.signed == ·)
    | _ => false

def dimensionToken (accept : String → Bool) : Production Token :=
  token fun
    | .atom (.dimension numeric unit) _ => numeric.integer?.isSome && accept unit
    | _ => false

def identToken (accept : String → Bool) : Production Token :=
  token fun t => t.ident?.any accept

/-- An accepted name, directly behind a plus sign if there is one. -/
def plusThenIdent (accept : String → Bool) : Production (List Token) := do
  let plus ← optional (token (Token.isDelim '+'))
  let name ← identToken accept
  return plus.toList ++ [name]

def isN (text : String) : Bool := equalsIgnoringCase text "n"

def isDashN (text : String) : Bool := equalsIgnoringCase text "-n"

def isNDash (text : String) : Bool := equalsIgnoringCase text "n-"

def isDashNDash (text : String) : Bool := equalsIgnoringCase text "-n-"

def isNDashDigits (text : String) : Bool :=
  (dashDigits? text).any (·.1 = 1)

def isDashNDashDigits (text : String) : Bool :=
  (dashDigits? text).any (·.1 = -1)

def oneToken (p : Production Token) : Production (List Token) := do
  let t ← p
  return [t]

def nStep : Production (List Token) :=
  firstOf [
    oneToken (dimensionToken isN),
    plusThenIdent isN,
    oneToken (identToken isDashN)]

/-- A step that ends in a hyphen: `2n-`, `+n-`, `n-` or `-n-`. -/
def nDashStep : Production (List Token) :=
  firstOf [
    oneToken (dimensionToken isNDash),
    plusThenIdent isNDash,
    oneToken (identToken isDashNDash)]

def nSigned : Production (List Token) := do
  let step ← nStep
  skip
  let offset ← integerToken (some true)
  return step ++ [offset]

def nDashSignless : Production (List Token) := do
  let step ← nDashStep
  skip
  let offset ← integerToken (some false)
  return step ++ [offset]

def nSignSignless (sign : Char) : Production (List Token) := do
  let step ← nStep
  skip
  let delim ← token (Token.isDelim sign)
  skip
  let offset ← integerToken (some false)
  return step ++ [delim, offset]

/-- The productions of An+B in the order they are tried. -/
def anPlusBProductions : List (Production (List Token)) :=
  [ oneToken (word "odd"),
    oneToken (word "even"),
    oneToken (integerToken none),
    oneToken (dimensionToken isN),
    plusThenIdent isN,
    oneToken (identToken isDashN),
    oneToken (dimensionToken isNDashDigits),
    plusThenIdent isNDashDigits,
    oneToken (identToken isDashNDashDigits),
    nSigned,
    nDashSignless,
    nSignSignless '+',
    nSignSignless '-' ]

def toEnd (p : Production (List Token)) : Production (List Token) := do
  let values ← p
  endOfInput
  return values

def anPlusB : Production AnPlusB := do
  let values ← firstOf (anPlusBProductions.map toEnd)
  match AnPlusB.ofTokens? values with
  | some value => return value
  | none => fail

end Grammar

end CssSelectors

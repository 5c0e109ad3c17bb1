import CssSelectors.Lexeme.Numeral
import CssSelectors.Selector.Basic

/-!
# The value of An+B

The step and the offset that tokens such as `2n + 1`, `-n-3` or `odd` stand for,
decided by the shape of the tokens without whitespace and comments.
-/

namespace CssSelectors

namespace AnPlusB

open CodePoint

/-- The part that a token can play in An+B. -/
inductive Part
  | ident (name : String)
  | plus
  | minus
  | integer (value : Int) (signed : Bool)
  | dimension (value : Int) (unit : String)
deriving DecidableEq, Repr

def Part.ofToken? : Token → Option Part
  | .atom (.ident name) _ => some (.ident name)
  | .atom (.delim '+') _ => some .plus
  | .atom (.delim '-') _ => some .minus
  | .atom (.number numeric) _ => numeric.integer?.map (.integer · numeric.signed)
  | .atom (.dimension numeric unit) _ => numeric.integer?.map (.dimension · unit)
  | _ => none

def parts? (tokens : List Token) : Option (List Part) :=
  (tokens.filter fun t => !t.isInsignificant && !t.isEof).mapM Part.ofToken?

/-- The negative of a 64-bit number, in 64 bits: the least one has no other negative than itself. -/
def negate (i : Int) : Int :=
  (-i).bmod (Nat.pow 2 64)

theorem negate_eq_neg {i : Int} (h : Numeral.fitsWord (-i) = true) : negate i = -i := by
  obtain ⟨hle, hlt⟩ := Numeral.fitsWord_iff.1 h
  have hword : Nat.pow 2 64 = 18446744073709551616 := rfl
  rw [negate, hword]
  apply Int.bmod_eq_of_le <;> omega

def digits? (text : List Char) : Option Int :=
  if !text.isEmpty && text.all Char.isDigit && Numeral.fitsWord (decimalValue text) then
    some (decimalValue text)
  else none

/-- Splits `n-5` into `1` and `5`, and `-n-5` into `-1` and `5`. -/
def dashDigits? (name : String) : Option (Int × Int) :=
  match name.toList with
  | '-' :: n :: '-' :: digits => if n.toLower = 'n' then (digits? digits).map (-1, ·) else none
  | n :: '-' :: digits => if n.toLower = 'n' then (digits? digits).map (1, ·) else none
  | _ => none

/-- The step that a spelling of `n` followed by `suffix` contributes. -/
def coefficient? (suffix : String) : List Part → Option Int
  | [.dimension value unit] => if equalsIgnoringCase unit ("n" ++ suffix) then some value else none
  | [.plus, .ident name] => if equalsIgnoringCase name ("n" ++ suffix) then some 1 else none
  | [.ident name] =>
    if equalsIgnoringCase name ("n" ++ suffix) then some 1
    else if equalsIgnoringCase name ("-n" ++ suffix) then some (-1)
    else none
  | _ => none

def odd? : List Part → Option (Int × Int)
  | [.ident name] => if equalsIgnoringCase name "odd" then some (2, 1) else none
  | _ => none

def even? : List Part → Option (Int × Int)
  | [.ident name] => if equalsIgnoringCase name "even" then some (2, 0) else none
  | _ => none

def offsetAlone? : List Part → Option (Int × Int)
  | [.integer value _] => some (0, value)
  | _ => none

def stepAlone? (parts : List Part) : Option (Int × Int) :=
  (coefficient? "" parts).map (·, 0)

/-- An offset written into the name behind the step, as in `2n-5`, `+n-5` or `-n-5`. -/
def fused? : List Part → Option (Int × Int)
  | [.dimension value unit] =>
    match dashDigits? unit with
    | some (1, b) => some (value, negate b)
    | _ => none
  | [.plus, .ident name] =>
    match dashDigits? name with
    | some (1, b) => some (1, negate b)
    | _ => none
  | [.ident name] => (dashDigits? name).map fun (a, b) => (a, negate b)
  | _ => none

def signedOffset? (parts : List Part) : Option (Int × Int) :=
  match parts.getLast? with
  | some (.integer value true) => (coefficient? "" parts.dropLast).map (·, value)
  | _ => none

def dashedOffset? (parts : List Part) : Option (Int × Int) :=
  match parts.getLast? with
  | some (.integer value false) => (coefficient? "-" parts.dropLast).map (·, negate value)
  | _ => none

def separateOffset? (parts : List Part) : Option (Int × Int) :=
  match parts.dropLast.getLast?, parts.getLast? with
  | some .plus, some (.integer value false) =>
    (coefficient? "" parts.dropLast.dropLast).map (·, value)
  | some .minus, some (.integer value false) =>
    (coefficient? "" parts.dropLast.dropLast).map (·, negate value)
  | _, _ => none

/-- The shapes of An+B; a sequence of parts is read by the first one that it has. -/
def shapes : List (List Part → Option (Int × Int)) :=
  [odd?, even?, offsetAlone?, stepAlone?, fused?, signedOffset?, dashedOffset?, separateOffset?]

def derive (tokens : List Token) : Option (Int × Int) :=
  (parts? tokens).bind fun parts => shapes.findSome? (· parts)

def ofTokens? (tokens : List Token) : Option AnPlusB :=
  (derive tokens).map fun (a, b) => ⟨tokens, a, b⟩

end AnPlusB

end CssSelectors

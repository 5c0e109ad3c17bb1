import CssSelectors.Number.Binary64
import CssSelectors.Span

/-!
# Tokens

The tokens of CSS text. A token either is atomic or is a function, which holds the
tokens of its arguments. Comments are tokens like all others, and the end of the
text is one too.
-/

namespace CssSelectors

/-- Whether the text behind a number sign is a name. -/
inductive HashKind
  | id
  | unrestricted
deriving DecidableEq, Repr

/-- Whether a numeral has neither point nor exponent. -/
inductive NumericKind
  | integer
  | number
deriving DecidableEq, Repr

/-- The number in a numeric token: its value, the whole number it writes if it has a
64-bit one, its kind, and whether it begins with a sign. -/
structure Numeric where
  value : Binary64
  intValue : Option Int
  kind : NumericKind
  signed : Bool
deriving DecidableEq, Repr

inductive Atom
  | ident (value : String)
  | atKeyword (value : String)
  | hash (value : String) (kind : HashKind)
  | string (value : String)
  | badString
  | url (value : String)
  | badUrl
  | delim (c : Char)
  | number (numeric : Numeric)
  | percentage (numeric : Numeric)
  | dimension (numeric : Numeric) (unit : String)
  | whitespace
  | comment (text : String)
  | cdo
  | cdc
  | colon
  | semicolon
  | comma
  | leftBracket
  | rightBracket
  | leftParen
  | rightParen
  | leftBrace
  | rightBrace
  | eof
deriving DecidableEq, Repr

inductive Token
  | atom (atom : Atom) (span : Span)
  | function (name : String) (arguments : List Token) (span : Span)
deriving Repr

def Atom.typeName : Atom → String
  | .ident _ => "Ident"
  | .atKeyword _ => "AtKeyword"
  | .hash _ _ => "Hash"
  | .string _ => "String"
  | .badString => "BadString"
  | .url _ => "Url"
  | .badUrl => "BadUrl"
  | .delim _ => "Delim"
  | .number _ => "Number"
  | .percentage _ => "Percentage"
  | .dimension _ _ => "Dimension"
  | .whitespace => "Whitespace"
  | .comment _ => "Comment"
  | .cdo => "CDO"
  | .cdc => "CDC"
  | .colon => "Colon"
  | .semicolon => "Semicolon"
  | .comma => "Comma"
  | .leftBracket => "LeftBracket"
  | .rightBracket => "RightBracket"
  | .leftParen => "LeftParen"
  | .rightParen => "RightParen"
  | .leftBrace => "LeftBrace"
  | .rightBrace => "RightBrace"
  | .eof => "EOF"

namespace Numeric

def ofInt (value : Int) (signed : Bool) : Numeric :=
  { value := .ofInt value
    intValue := some value
    kind := .integer
    signed := signed }

def integer? (numeric : Numeric) : Option Int :=
  match numeric.kind with
  | .integer => numeric.intValue
  | .number => none

end Numeric

namespace Token

def span : Token → Span
  | .atom _ span => span
  | .function _ _ span => span

def typeName : Token → String
  | .atom a _ => a.typeName
  | .function _ _ _ => "Function"

def isEof : Token → Bool
  | .atom .eof _ => true
  | _ => false

def isWhitespace : Token → Bool
  | .atom .whitespace _ => true
  | _ => false

/-- Whitespace and comments, which selectors may have between their parts. -/
def isInsignificant : Token → Bool
  | .atom .whitespace _ => true
  | .atom (.comment _) _ => true
  | _ => false

def isDelim (c : Char) : Token → Bool
  | .atom (.delim d) _ => d = c
  | _ => false

def isComma : Token → Bool
  | .atom .comma _ => true
  | _ => false

def isColon : Token → Bool
  | .atom .colon _ => true
  | _ => false

def isLeftBracket : Token → Bool
  | .atom .leftBracket _ => true
  | _ => false

def isRightBracket : Token → Bool
  | .atom .rightBracket _ => true
  | _ => false

def isIdent : Token → Bool
  | .atom (.ident _) _ => true
  | _ => false

def isAtKeyword : Token → Bool
  | .atom (.atKeyword _) _ => true
  | _ => false

def isHash : Token → Bool
  | .atom (.hash _ _) _ => true
  | _ => false

def isString : Token → Bool
  | .atom (.string _) _ => true
  | _ => false

def isNumber : Token → Bool
  | .atom (.number _) _ => true
  | _ => false

def isFunction : Token → Bool
  | .function _ _ _ => true
  | _ => false

def ident? : Token → Option String
  | .atom (.ident value) _ => some value
  | _ => none

def functionName? : Token → Option String
  | .function name _ _ => some name
  | _ => none

def arguments? : Token → Option (List Token)
  | .function _ arguments _ => some arguments
  | _ => none

def numeric? : Token → Option Numeric
  | .atom (.number numeric) _ => some numeric
  | .atom (.percentage numeric) _ => some numeric
  | .atom (.dimension numeric _) _ => some numeric
  | _ => none

end Token

end CssSelectors

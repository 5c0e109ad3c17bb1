import CssSelectors.Number.Layout
import CssSelectors.Token.Basic

/-!
# Token text

A token as text, as the value it carries, and as error messages speak of it.
-/

namespace CssSelectors

/-- The whole number if there is one, else the value, after a plus sign if the numeral
is signed and at least zero. -/
def Numeric.text (numeric : Numeric) : String :=
  (if numeric.signed && numeric.value.isNonnegative then "+" else "") ++
    match numeric.intValue with
    | some i => toString i
    | none => numeric.value.text .plain

def Atom.text : Atom → String
  | .ident value => value
  | .atKeyword value => "@" ++ value
  | .hash value _ => "#" ++ value
  | .string value => "\"" ++ value ++ "\""
  | .badString => "<bad-string>"
  | .url value => "url(" ++ value ++ ")"
  | .badUrl => "<bad-url>"
  | .delim c => c.toString
  | .number numeric => numeric.text
  | .percentage numeric => numeric.text ++ "%"
  | .dimension numeric unit => numeric.text ++ unit
  | .whitespace => " "
  | .comment text => "/*" ++ text ++ "*/"
  | .cdo => "<!--"
  | .cdc => "-->"
  | .colon => ":"
  | .semicolon => ";"
  | .comma => ","
  | .leftBracket => "["
  | .rightBracket => "]"
  | .leftParen => "("
  | .rightParen => ")"
  | .leftBrace => "\x7b"
  | .rightBrace => "\x7d"
  | .eof => ""

namespace Token

mutual

def text : Token → String
  | .atom a _ => a.text
  | .function name arguments _ => name ++ "(" ++ textOfList arguments ++ ")"

def textOfList : List Token → String
  | [] => ""
  | token :: tokens => token.text ++ textOfList tokens

end

/-- What a reader of selectors takes a token to say: the value of an ident, string,
at-keyword or hash, the name of a function, and the text of all else. -/
def value : Token → String
  | .atom (.ident value) _ => value
  | .atom (.string value) _ => value
  | .atom (.atKeyword value) _ => value
  | .atom (.hash value _) _ => value
  | .function name _ _ => name
  | .atom a _ => a.text

def describe : Token → String
  | .atom .eof _ => "end of input"
  | .atom .whitespace _ => "whitespace"
  | token => "\"" ++ token.text ++ "\""

end Token

end CssSelectors

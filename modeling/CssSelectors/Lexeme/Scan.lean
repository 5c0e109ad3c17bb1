import CssSelectors.Lexeme.Ident
import CssSelectors.Lexeme.Numeral
import CssSelectors.Lexeme.Url

/-!
# Lexemes

The pieces that text falls into, left to right. A function is here only its name and
the parenthesis behind it; what its arguments are is decided later. Every piece is
decided by the text from its start, and every piece has at least one code point.
-/

namespace CssSelectors

/-- A piece of text: an atom, or the name and opening parenthesis of a function. -/
inductive Lexeme
  | atom (atom : Atom)
  | function (name : String)
deriving DecidableEq, Repr

namespace Lexeme

open CodePoint

def scanString (quote : Char) (text : List Char) : Lexeme × List Char :=
  match quoted quote text with
  | (some value, rest) => (.atom (.string (String.ofList value)), rest)
  | (none, rest) => (.atom .badString, rest)

def scanUrl (text : List Char) : Lexeme × List Char :=
  match url text with
  | (some value, rest) => (.atom (.url (String.ofList value)), rest)
  | (none, rest) => (.atom .badUrl, rest)

def scanNumeric (text : List Char) : Lexeme × List Char :=
  let (numeral, rest) := Numeral.read text
  if startsIdent rest then
    let (unit, rest) := ident rest
    (.atom (.dimension numeral.numeric (String.ofList unit)), rest)
  else
    match rest with
    | '%' :: rest => (.atom (.percentage numeral.numeric), rest)
    | rest => (.atom (.number numeral.numeric), rest)

/-- A name, a function, or an address that is not quoted. -/
def scanIdentLike (text : List Char) : Lexeme × List Char :=
  let (chars, rest) := ident text
  let name := String.ofList chars
  match rest with
  | '(' :: rest =>
    if equalsIgnoringCase name "url" && !opensQuoted rest then scanUrl rest
    else (.function name, rest)
  | rest => (.atom (.ident name), rest)

def scanHash (text : List Char) : Lexeme × List Char :=
  if text.head?.any isIdent || startsEscape text then
    let (value, rest) := ident text
    let kind := if startsIdent text then .id else .unrestricted
    (.atom (.hash (String.ofList value) kind), rest)
  else (.atom (.delim '#'), text)

def scanAtKeyword (text : List Char) : Lexeme × List Char :=
  if startsIdent text then
    let (value, rest) := ident text
    (.atom (.atKeyword (String.ofList value)), rest)
  else (.atom (.delim '@'), text)

def scanHyphen (text : List Char) : Lexeme × List Char :=
  if Numeral.starts ('-' :: text) then scanNumeric ('-' :: text)
  else
    match text with
    | '-' :: '>' :: rest => (.atom .cdc, rest)
    | text =>
      if startsIdent ('-' :: text) then scanIdentLike ('-' :: text)
      else (.atom (.delim '-'), text)

def scanLessThan : List Char → Lexeme × List Char
  | '!' :: '-' :: '-' :: rest => (.atom .cdo, rest)
  | text => (.atom (.delim '<'), text)

def scanSlash : List Char → Lexeme × List Char
  | '*' :: text =>
    let (body, rest) := comment text
    (.atom (.comment (String.ofList body)), rest)
  | text => (.atom (.delim '/'), text)

/-- The lexeme that begins with the code point `c`, and the text after it. -/
def scan (c : Char) (text : List Char) : Lexeme × List Char :=
  if isBlank c then (.atom .whitespace, text.dropWhile isBlank)
  else if c.isDigit then scanNumeric (c :: text)
  else if isIdentStart c then scanIdentLike (c :: text)
  else
    match c with
    | '"' => scanString '"' text
    | '\'' => scanString '\'' text
    | '#' => scanHash text
    | '(' => (.atom .leftParen, text)
    | ')' => (.atom .rightParen, text)
    | ',' => (.atom .comma, text)
    | '-' => scanHyphen text
    | '/' => scanSlash text
    | ':' => (.atom .colon, text)
    | ';' => (.atom .semicolon, text)
    | '<' => scanLessThan text
    | '@' => scanAtKeyword text
    | '[' => (.atom .leftBracket, text)
    | ']' => (.atom .rightBracket, text)
    | '\x7b' => (.atom .leftBrace, text)
    | '\x7d' => (.atom .rightBrace, text)
    | '\\' =>
      if startsEscape ('\\' :: text) then scanIdentLike ('\\' :: text)
      else (.atom (.delim '\\'), text)
    | '+' =>
      if Numeral.starts ('+' :: text) then scanNumeric ('+' :: text)
      else (.atom (.delim '+'), text)
    | '.' =>
      if Numeral.starts ('.' :: text) then scanNumeric ('.' :: text)
      else (.atom (.delim '.'), text)
    | c => (.atom (.delim c), text)

end Lexeme

end CssSelectors

import CssSelectors.Lexeme.Scan
import CssSelectors.Token.Basic

/-!
# Nesting

Lexemes become tokens when every function takes the tokens up to its closing
parenthesis. Plain parentheses stay tokens, and only their number decides which
parenthesis closes a function. The end of the text closes every function still open.
-/

namespace CssSelectors

structure PlacedLexeme where
  lexeme : Lexeme
  span : Span
deriving DecidableEq, Repr

/-- A function whose closing parenthesis is still to come. -/
structure OpenFunction where
  name : String
  start : Nat
  /-- Plain parentheses that are open among the arguments. -/
  parens : Nat
  /-- The arguments so far, the last one first. -/
  arguments : List Token

/-- The functions that are open, the innermost first, and the finished tokens outside of
all of them, the last one first. -/
structure Nesting where
  opened : List OpenFunction
  finished : List Token

namespace Nesting

def empty : Nesting := ⟨[], []⟩

def push (token : Token) : Nesting → Nesting
  | ⟨[], finished⟩ => ⟨[], token :: finished⟩
  | ⟨f :: fs, finished⟩ => ⟨{ f with arguments := token :: f.arguments } :: fs, finished⟩

def finishFunction (f : OpenFunction) (stop : Nat) : Token :=
  .function f.name f.arguments.reverse ⟨f.start, stop⟩

/-- A closing parenthesis ends the innermost open function unless a plain one is open. -/
def closeParen (span : Span) : Nesting → Nesting
  | ⟨[], finished⟩ => push (.atom .rightParen span) ⟨[], finished⟩
  | ⟨f :: fs, finished⟩ =>
    if f.parens = 0 then push (finishFunction f span.stop) ⟨fs, finished⟩
    else push (.atom .rightParen span) ⟨{ f with parens := f.parens - 1 } :: fs, finished⟩

def openParen (span : Span) : Nesting → Nesting
  | ⟨[], finished⟩ => push (.atom .leftParen span) ⟨[], finished⟩
  | ⟨f :: fs, finished⟩ =>
    push (.atom .leftParen span) ⟨{ f with parens := f.parens + 1 } :: fs, finished⟩

def step (nesting : Nesting) (placed : PlacedLexeme) : Nesting :=
  match placed.lexeme with
  | .function name =>
    { nesting with opened := ⟨name, placed.span.start, 0, []⟩ :: nesting.opened }
  | .atom .leftParen => nesting.openParen placed.span
  | .atom .rightParen => nesting.closeParen placed.span
  | .atom a => nesting.push (.atom a placed.span)

/-- Finishes all open functions at `stop`, the innermost first, each one as the last
argument of the one around it. What is left is the outermost of them. -/
def closeAll (stop : Nat) : List OpenFunction → Option Token → Option Token
  | [], inner => inner
  | f :: fs, inner =>
    closeAll stop fs
      (some (finishFunction { f with arguments := inner.toList ++ f.arguments } stop))

def tokens (stop : Nat) (nesting : Nesting) : List Token :=
  ((closeAll stop nesting.opened none).toList ++ nesting.finished).reverse

end Nesting

def Token.nest (stop : Nat) (lexemes : List PlacedLexeme) : List Token :=
  (lexemes.foldl Nesting.step .empty).tokens stop

end CssSelectors

import CssSelectors.Error
import CssSelectors.Grammar.Arguments
import CssSelectors.Tokenizer

/-!
# Reading selector lists

Selector lists are read from tokens up to the end of the input. Where they do not form
one, the error blames the first token behind a list that is complete, or else the
furthest token that any production looked at.
-/

namespace CssSelectors

namespace Token

def endOf (tokens : List Token) : Token :=
  let stop := (tokens.getLast?.map (·.span.stop)).getD 0
  .atom .eof ⟨stop, stop⟩

def headOrEnd (whole tokens : List Token) : Token :=
  tokens.head?.getD (endOf whole)

/-- The token to blame where no production matches before `stuck`: the furthest one that
was looked at, or the one at hand if none further was. -/
def culprit (whole stuck : List Token) (unread : Option Nat) : Token :=
  match unread with
  | some n =>
    if n < stuck.length then headOrEnd whole (whole.drop (whole.length - n - 1))
    else headOrEnd whole stuck
  | none => headOrEnd whole stuck

end Token

/-- A selector list or the reason why there is none, and the names of the functions whose
arguments were kept as tokens on the way. -/
structure Parsed where
  result : Except SelectorError (List Selector)
  keptRaw : List String

def readTokens (options : Options) (tokens : List Token) : Parsed :=
  let reading := (Grammar.ofLevels options.dialect options.maxDepth).wholeList tokens
  { result := match reading.outcome with
      | .matched list rest =>
        if Token.atEnd rest then .ok list
        else .error (.ofToken (Token.headOrEnd tokens (rest.dropWhile Token.isInsignificant)))
      | .noMatch stuck => .error (.ofToken (Token.culprit tokens stuck reading.unread))
      | .tooDeep => .error (.nestingTooDeep options.maxDepth)
    keptRaw := reading.keptRaw }

def parseTokens (options : Options) (tokens : List Token) :
    Except SelectorError (List Selector) :=
  (readTokens options tokens).result

def parse (options : Options) (text : String) : Except SelectorError (List Selector) :=
  parseTokens options (tokenize text)

end CssSelectors

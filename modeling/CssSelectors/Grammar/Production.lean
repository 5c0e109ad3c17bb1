import CssSelectors.Text.CodePoint
import CssSelectors.Token.Basic

/-!
# Productions

A production reads a part of a selector from the front of a token list. Choice is
ordered: an alternative is tried only where all before it do not match, and one that
has matched is never given up. Two things outlast the alternatives that were given
up: how far into the tokens any of them looked, and which functions had their
arguments kept as tokens.
-/

namespace CssSelectors

variable {α β : Type}

inductive Outcome (α : Type)
  /-- A part was read, and these tokens follow it. -/
  | matched (value : α) (rest : List Token)
  /-- The step that did not match stood before these tokens. -/
  | noMatch (stuck : List Token)
  /-- Functions are nested more deeply than allowed, which ends all reading. -/
  | tooDeep

/-- What running a production on some tokens yields. -/
structure Reading (α : Type) where
  outcome : Outcome α
  /-- The number of tokens behind the furthest token that was looked at, if any was. -/
  unread : Option Nat
  /-- The names of the functions whose arguments were kept as tokens, in order. -/
  keptRaw : List String

/-- A way of reading a value from the front of a token list. -/
def Production (α : Type) : Type := List Token → Reading α

namespace Reading

def least : Option Nat → Option Nat → Option Nat
  | none, n => n
  | some m, none => some m
  | some m, some n => some (min m n)

def map (f : α → β) (reading : Reading α) : Reading β :=
  { outcome := match reading.outcome with
      | .matched a rest => .matched (f a) rest
      | .noMatch stuck => .noMatch stuck
      | .tooDeep => .tooDeep
    unread := reading.unread
    keptRaw := reading.keptRaw }

def after (reading : Reading α) (earlier : Reading β) : Reading α :=
  { outcome := reading.outcome
    unread := least earlier.unread reading.unread
    keptRaw := earlier.keptRaw ++ reading.keptRaw }

end Reading

namespace Production

protected def pure (a : α) : Production α := fun tokens =>
  ⟨.matched a tokens, none, []⟩

protected def bind (p : Production α) (f : α → Production β) : Production β := fun tokens =>
  let reading := p tokens
  match reading.outcome with
  | .matched a rest => (f a rest).after reading
  | .noMatch stuck => ⟨.noMatch stuck, reading.unread, reading.keptRaw⟩
  | .tooDeep => ⟨.tooDeep, reading.unread, reading.keptRaw⟩

protected def map (f : α → β) (p : Production α) : Production β := fun tokens =>
  (p tokens).map f

instance : Monad Production where
  map := Production.map
  pure := Production.pure
  bind := Production.bind

def fail : Production α := fun tokens =>
  ⟨.noMatch tokens, none, []⟩

/-- Reads with `p`, or with `q` from the same place if `p` does not match. -/
def orElse (p q : Production α) : Production α := fun tokens =>
  let reading := p tokens
  match reading.outcome with
  | .noMatch _ => (q tokens).after reading
  | _ => reading

def firstOf : List (Production α) → Production α
  | [] => fail
  | p :: ps => orElse p (firstOf ps)

def optional (p : Production α) : Production (Option α) :=
  orElse (some <$> p) (pure none)

/-- Repeats a step until it yields no item. A step that yields one without reading a token
ends the repetition too, so that it always ends. -/
def iterate (step : Production (Option α)) : Production (List α) := fun tokens =>
  let reading := step tokens
  match reading.outcome with
  | .matched (some a) rest =>
    if rest.length < tokens.length then
      ((iterate step rest).map (a :: ·)).after reading
    else ⟨.matched [a] rest, reading.unread, reading.keptRaw⟩
  | .matched none rest => ⟨.matched [] rest, reading.unread, reading.keptRaw⟩
  | .noMatch stuck => ⟨.noMatch stuck, reading.unread, reading.keptRaw⟩
  | .tooDeep => ⟨.tooDeep, reading.unread, reading.keptRaw⟩
termination_by tokens => tokens.length

def many (p : Production α) : Production (List α) :=
  iterate (optional p)

def token (accept : Token → Bool) : Production Token
  | [] => ⟨.noMatch [], none, []⟩
  | t :: rest =>
    { outcome := if accept t then .matched t rest else .noMatch (t :: rest)
      unread := some rest.length
      keptRaw := [] }

def insignificant : Production (List Token) := fun tokens =>
  let taken := tokens.takeWhile Token.isInsignificant
  let rest := tokens.dropWhile Token.isInsignificant
  ⟨.matched taken rest, if taken.isEmpty then none else some rest.length, []⟩

def skip : Production Unit := do
  let _ ← insignificant

def spelled : List Char → Production (List Token)
  | [] => pure []
  | c :: cs => do
    let first ← token (Token.isDelim c)
    let others ← spelled cs
    return first :: others

def word (text : String) : Production Token :=
  token fun t => t.ident?.any (equalsIgnoringCase · text)

/-- Reads items with commas between them. A comma has to be followed by an item, and
whitespace and comments may surround it. -/
def commaSeparated (item : Production α) : Production (List α) := do
  let first ← item
  let others ← iterate do
    match ← optional (do skip; token Token.isComma) with
    | none => return none
    | some _ => do
      skip
      some <$> item
  return first :: others

end Production

/-- Whether only whitespace and comments are left before the end of the input, which is the
end of the list or the first end-of-text token. -/
def Token.atEnd (tokens : List Token) : Bool :=
  match tokens.dropWhile Token.isInsignificant with
  | [] => true
  | t :: _ => t.isEof

def Production.endOfInput : Production Unit := do
  skip
  fun tokens => ⟨if Token.atEnd tokens then .matched () tokens else .noMatch tokens, none, []⟩

end CssSelectors

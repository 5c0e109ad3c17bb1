import CssSelectors.Parse
import CssSelectors.Proofs.Nested

/-!
# Reading with a cursor

A production says what is read from the tokens that are left, and leaves the tokens behind it. A
parser keeps all of its tokens with a place in them instead. It goes on from one production to the
next with the place moved, and puts the place back only where it gives a production up. Here every
way of combining productions is carried out on a parser, and what that does to the parser is what
the production reads.
-/

namespace CssSelectors

variable {α β : Type}

/-- Tokens that are being read, how far they are read, and what the reading does not change. -/
structure Parser where
  tokens : List Token
  position : Nat
  /-- The furthest place that a token was taken from, whether it was kept or given up. -/
  furthest : Option Nat
  dialect : Dialect
  options : Options
  /-- The number of functions around the tokens. -/
  depth : Nat

/-- Why there is no value: a production does not match, or all reading is over. -/
inductive Failure
  | noMatch
  | fatal (error : SelectorError)

namespace Parser

def rest (s : Parser) : List Token :=
  s.tokens.drop s.position

def peek (s : Parser) : Option Token :=
  s.tokens[s.position]?

def next (s : Parser) : Option Token × Parser :=
  match s.peek with
  | none => (none, s)
  | some t =>
    (some t,
      { s with
        position := s.position + 1
        furthest := some (max (s.furthest.getD s.position) s.position) })

/-- Takes whitespace and comments as long as they are next. -/
def takeInsignificant (s : Parser) : List Token × Parser :=
  match _h : s.peek with
  | none => ([], s)
  | some t =>
    if t.isInsignificant then
      let (taken, s') := s.next.2.takeInsignificant
      (t :: taken, s')
    else ([], s)
termination_by s.tokens.length - s.position
decreasing_by
  have hpeek := ‹s.peek = some t›
  have hlt : s.position < s.tokens.length := (List.getElem?_eq_some_iff.1 hpeek).1
  rw [next, hpeek]
  dsimp only
  omega

/-- Whether only whitespace and comments are left, which are taken. -/
def atEnd (s : Parser) : Bool × Parser :=
  let s' := s.takeInsignificant.2
  (s'.peek.all Token.isEof, s')

def levels (s : Parser) : Nat :=
  s.options.maxDepth - s.depth

def grammar (s : Parser) : Grammar :=
  .ofLevels s.dialect s.levels

/-- A parser for the tokens inside of a function. -/
def inside (s : Parser) (tokens : List Token) : Parser :=
  { s with tokens := tokens, position := 0, furthest := none }

def enter (s : Parser) : Except SelectorError Parser :=
  if s.options.maxDepth ≤ s.depth then .error (.nestingTooDeep s.options.maxDepth)
  else .ok { s with depth := s.depth + 1 }

end Parser

/-- What is done with a parser. It answers with a value or a failure, and leaves the parser in
another state either way. -/
def Action (α : Type) : Type := Parser → Except Failure α × Parser

namespace Action

protected def pure (a : α) : Action α := fun s => (.ok a, s)

def fail : Action α := fun s => (.error .noMatch, s)

protected def bind (m : Action α) (k : α → Action β) : Action β := fun s =>
  match m s with
  | (.ok a, s') => k a s'
  | (.error failure, s') => (.error failure, s')

protected def map (f : α → β) (m : Action α) : Action β := fun s =>
  ((m s).1.map f, (m s).2)

/-- Takes the next token, and does not match if it is not one that is accepted. -/
def consumeIf (accept : Token → Bool) : Action Token := fun s =>
  match s.next with
  | (some t, s') => (if accept t then .ok t else .error .noMatch, s')
  | (none, s') => (.error .noMatch, s')

def takeInsignificant : Action (List Token) := fun s =>
  (.ok s.takeInsignificant.1, s.takeInsignificant.2)

def expectEnd : Action Unit := fun s =>
  (if s.atEnd.1 then .ok () else .error .noMatch, s.atEnd.2)

/-- Puts the place back where the body does not match. -/
def maybe (body : Action α) : Action (Option α) := fun s =>
  match body s with
  | (.ok a, s') => (.ok (some a), s')
  | (.error .noMatch, s') => (.ok none, { s' with position := s.position })
  | (.error (.fatal error), s') => (.error (.fatal error), s')

/-- Tries the first action, and the second one from the same place if it does not match. -/
def orElse (first second : Action α) : Action α :=
  first.maybe.bind fun
    | some a => .pure a
    | none => second

/-- Carries the body out on the tokens inside of a function, which it has to use up. There is no
value if it does not, but where functions are nested too deeply, that is passed on. -/
def inside (tokens : List Token) (body : Action α) (s : Parser) :
    Except SelectorError (Option α) :=
  match (s.inside tokens).enter with
  | .error error => .error error
  | .ok inner =>
    match body inner.takeInsignificant.2 with
    | (.ok a, inner') => .ok (if inner'.atEnd.1 then some a else none)
    | (.error .noMatch, _) => .ok none
    | (.error (.fatal (.unexpected _ _ _)), _) => .ok none
    | (.error (.fatal (.nestingTooDeep limit)), _) => .error (.nestingTooDeep limit)

/-- Reads the arguments of a function as An+B, else as a list, else keeps them as tokens. -/
def functionArguments (value : Action AnPlusB) (list : Action (List Selector))
    (function : Token) : Action Arguments := fun s =>
  let tokens := Grammar.argumentTokens function
  if tokens.isEmpty then (.ok .empty, s)
  else
    match inside tokens value s with
    | .error error => (.error (.fatal error), s)
    | .ok (some value) => (.ok (.anPlusB value), s)
    | .ok none =>
      match inside tokens list s with
      | .error error => (.error (.fatal error), s)
      | .ok (some list) => (.ok (.selectors list), s)
      | .ok none => (.ok (.raw tokens), s)

end Action

/-- What a loop comes to that goes on as long as its rounds give items. -/
inductive Loop (round : Action (Option α)) : Parser → Except Failure (List α) × Parser → Prop
  | stops {s s' : Parser} (h : round s = (.ok none, s')) : Loop round s (.ok [], s')
  | fails {s s' : Parser} {failure : Failure} (h : round s = (.error failure, s')) :
      Loop round s (.error failure, s')
  | again {s s' : Parser} {a : α} {r : Except Failure (List α) × Parser}
      (h : round s = (.ok (some a), s')) (others : Loop round s' r) :
      Loop round s (r.1.map (a :: ·), r.2)

/-- The parser is in the text or at its end, and as many levels are left to it. -/
structure Parser.Fits (s : Parser) (dialect : Dialect) (levels : Nat) : Prop where
  dialect : s.dialect = dialect
  levels : s.levels = levels
  inside : s.position ≤ s.tokens.length

open Production in
/-- The action carries out the production, step by step, where the given number of levels is
left. -/
inductive Acts (dialect : Dialect) :
    Nat → {α : Type} → Production α → Action α → Prop
  | pure {levels : Nat} {α : Type} (a : α) : Acts dialect levels (pure a) (.pure a)
  | fail {levels : Nat} {α : Type} : Acts dialect levels (fail : Production α) .fail
  | token {levels : Nat} (accept : Token → Bool) :
      Acts dialect levels (token accept) (.consumeIf accept)
  | insignificant {levels : Nat} : Acts dialect levels insignificant .takeInsignificant
  | endOfInput {levels : Nat} : Acts dialect levels endOfInput .expectEnd
  | bind {levels : Nat} {α β : Type} {p : Production α} {m : Action α} {f : α → Production β}
      {k : α → Action β} (hp : Acts dialect levels p m)
      (hf : ∀ a, Acts dialect levels (f a) (k a)) : Acts dialect levels (p >>= f) (m.bind k)
  | map {levels : Nat} {α β : Type} {p : Production α} {m : Action α} (f : α → β)
      (hp : Acts dialect levels p m) : Acts dialect levels (f <$> p) (m.map f)
  | orElse {levels : Nat} {α : Type} {p q : Production α} {m m' : Action α}
      (hp : Acts dialect levels p m) (hq : Acts dialect levels q m') :
      Acts dialect levels (orElse p q) (m.orElse m')
  | iterate {levels : Nat} {α : Type} {step : Production (Option α)} {round : Action (Option α)}
      {m : Action (List α)} (hstep : Acts dialect levels step round)
      (hloop : ∀ s, s.Fits dialect levels → Loop round s (m s)) :
      Acts dialect levels (iterate step) m
  | tooDeep {value : Action AnPlusB} {list : Action (List Selector)} (function : Token) :
      Acts dialect 0 (Grammar.readArguments dialect 0 function)
        (.functionArguments value list function)
  | arguments {levels : Nat} {value : Action AnPlusB} {list : Action (List Selector)}
      (function : Token) (hvalue : Acts dialect levels Grammar.anPlusB value)
      (hlist : Acts dialect levels (Grammar.ofLevels dialect levels).selectorList list) :
      Acts dialect (levels + 1) (Grammar.readArguments dialect (levels + 1) function)
        (.functionArguments value list function)

/-! ## Moving on -/

namespace Parser

variable {s : Parser} {t : Token} {ts : List Token}

/-- The parser at another place, after it has looked at tokens of which the furthest one has so
many behind it. -/
def movedTo (s : Parser) (position : Nat) (unread : Option Nat) : Parser :=
  { s with
    position := position
    furthest := max s.furthest (unread.map (s.tokens.length - 1 - ·)) }

@[simp] theorem movedTo_self (s : Parser) : s.movedTo s.position none = s := by
  simp [movedTo]

@[simp] theorem movedTo_movedTo (s : Parser) (position position' : Nat)
    (unread unread' : Option Nat) :
    (s.movedTo position unread).movedTo position' unread' =
      s.movedTo position' (Reading.least unread unread') := by
  have hmax : max (max s.furthest (unread.map (s.tokens.length - 1 - ·)))
      (unread'.map (s.tokens.length - 1 - ·)) =
        max s.furthest ((Reading.least unread unread').map (s.tokens.length - 1 - ·)) := by
    cases s.furthest <;> cases unread <;> cases unread' <;>
      simp [Reading.least] <;> omega
  simp only [movedTo, hmax]

theorem position_add_length_rest (h : s.position ≤ s.tokens.length) :
    s.position + s.rest.length = s.tokens.length := by
  rw [rest, List.length_drop]
  omega

theorem peek_eq_head? (s : Parser) : s.peek = s.rest.head? :=
  List.head?_drop.symm

theorem next_of_nil (h : s.rest = []) : s.next = (none, s) := by
  rw [next, peek_eq_head?, h]
  rfl

theorem lt_of_rest_eq_cons (h : s.rest = t :: ts) :
    s.position + 1 + ts.length = s.tokens.length := by
  have hlength := congrArg List.length h
  rw [rest, List.length_drop, List.length_cons] at hlength
  omega

theorem rest_movedTo_succ (h : s.rest = t :: ts) (unread : Option Nat) :
    (s.movedTo (s.position + 1) unread).rest = ts := by
  change s.tokens.drop (s.position + 1) = ts
  rw [← List.drop_drop, show s.tokens.drop s.position = t :: ts from h]
  rfl

theorem next_of_cons (h : s.rest = t :: ts) :
    s.next = (some t, s.movedTo (s.position + 1) (some ts.length)) := by
  have hplace : s.tokens.length - 1 - ts.length = s.position := by
    have := lt_of_rest_eq_cons h
    omega
  rw [next, peek_eq_head?, h, movedTo, Option.map_some, hplace]
  cases s.furthest <;> simp

theorem takeInsignificant_of_not (h : ∀ t ∈ s.rest.head?, t.isInsignificant = false) :
    s.takeInsignificant = ([], s) := by
  rw [takeInsignificant]
  split
  · rfl
  · next t ht => rw [h t (s.peek_eq_head? ▸ ht), if_neg (by simp)]

theorem takeInsignificant_of_cons (h : s.rest = t :: ts) (ht : t.isInsignificant = true) :
    s.takeInsignificant =
      (t :: (s.movedTo (s.position + 1) (some ts.length)).takeInsignificant.1,
        (s.movedTo (s.position + 1) (some ts.length)).takeInsignificant.2) := by
  have hpeek : s.peek = some t := by rw [peek_eq_head?, h]; rfl
  rw [takeInsignificant]
  split
  · next hnone => rw [hpeek] at hnone; cases hnone
  · next t' ht' =>
    obtain rfl : t = t' := Option.some.inj (hpeek.symm.trans ht')
    rw [if_pos ht, next_of_cons h]

theorem takeInsignificant_eq (s : Parser) :
    s.takeInsignificant =
      (s.rest.takeWhile Token.isInsignificant,
        s.movedTo (s.position + (s.rest.takeWhile Token.isInsignificant).length)
          (Production.insignificant s.rest).unread) := by
  induction hrest : s.rest generalizing s with
  | nil =>
      rw [takeInsignificant_of_not (by simp [hrest])]
      simp [Production.insignificant]
  | cons t ts ih =>
      cases ht : t.isInsignificant with
      | false =>
          rw [takeInsignificant_of_not (by simp [hrest, ht])]
          simp [Production.insignificant, ht]
      | true =>
          have hunread : Reading.least (some ts.length) (Production.insignificant ts).unread =
              (Production.insignificant (t :: ts)).unread := by
            have hle := (List.dropWhile_suffix (l := ts) Token.isInsignificant).length_le
            cases hblank : ts.takeWhile Token.isInsignificant with
            | nil =>
                have hdrop := List.takeWhile_append_dropWhile (p := Token.isInsignificant) (l := ts)
                rw [hblank, List.nil_append] at hdrop
                simp [Production.insignificant, ht, hblank, hdrop, Reading.least]
            | cons => simp [Production.insignificant, ht, hblank, Reading.least, hle]
          have htail := ih _ (rest_movedTo_succ hrest (some ts.length))
          rw [takeInsignificant_of_cons hrest ht, htail, movedTo_movedTo, hunread]
          simp [ht, movedTo]
          omega

theorem rest_takeInsignificant (s : Parser) :
    s.takeInsignificant.2.rest = s.rest.dropWhile Token.isInsignificant := by
  have hdrop : (s.rest.takeWhile Token.isInsignificant ++
      s.rest.dropWhile Token.isInsignificant).drop
        (s.rest.takeWhile Token.isInsignificant).length =
          s.rest.dropWhile Token.isInsignificant := List.drop_left
  rw [List.takeWhile_append_dropWhile] at hdrop
  rw [takeInsignificant_eq, ← hdrop, rest, rest, List.drop_drop]
  rfl

/-- Whether the parser is at the end of the input is told from the tokens that are left. -/
theorem atEnd_eq (s : Parser) : s.atEnd.1 = Token.atEnd s.rest := by
  rw [atEnd, peek_eq_head?, rest_takeInsignificant, Token.atEnd]
  cases s.rest.dropWhile Token.isInsignificant <;> rfl

end Parser

/-! ## Actions do what productions read -/

inductive Answers (limit : Nat) : Except Failure α × Parser → Outcome α → Prop
  | matched {a : α} {s : Parser} : Answers limit (.ok a, s) (.matched a s.rest)
  | noMatch {s : Parser} {stuck : List Token} :
      Answers limit (.error .noMatch, s) (.noMatch stuck)
  | tooDeep {s : Parser} :
      Answers limit (.error (.fatal (.nestingTooDeep limit)), s) .tooDeep

/-- What was done with a parser has come to what is read of the tokens that are left, and the
parser has looked as far as the reading. -/
structure Agrees (reading : Reading α) (s : Parser) (r : Except Failure α × Parser) : Prop where
  moves : r.2 = s.movedTo r.2.position reading.unread
  ahead : s.position ≤ r.2.position
  inside : r.2.position ≤ s.tokens.length
  answers : Answers s.options.maxDepth r reading.outcome

/-- On every parser the action comes to what the production reads. -/
def Follows (dialect : Dialect) (levels : Nat) (p : Production α) (m : Action α) : Prop :=
  ∀ s : Parser, s.Fits dialect levels → Agrees (p s.rest) s (m s)

namespace Agrees

open Production

variable {dialect : Dialect} {levels : Nat} {p q : Production α} {f : α → Production β}
  {m m' : Action α} {k : α → Action β} {s s' : Parser} {reading : Reading α}
  {r : Except Failure α × Parser} {a : α}

/-! ### The state -/

theorem tokens (h : Agrees reading s r) : r.2.tokens = s.tokens := by
  rw [h.moves]
  rfl

theorem dialect_eq (h : Agrees reading s r) : r.2.dialect = s.dialect := by
  rw [h.moves]
  rfl

theorem options (h : Agrees reading s r) : r.2.options = s.options := by
  rw [h.moves]
  rfl

theorem depth (h : Agrees reading s r) : r.2.depth = s.depth := by
  rw [h.moves]
  rfl

theorem fits (h : Agrees reading s r) (hs : s.Fits dialect levels) : r.2.Fits dialect levels where
  dialect := h.dialect_eq.trans hs.dialect
  levels := by
    rw [Parser.levels, h.options, h.depth]
    exact hs.levels
  inside := by
    rw [h.tokens]
    exact h.inside

/-! ### The answer -/

theorem matches_of_ok (h : Agrees (p s.rest) s r) (ha : r.1 = .ok a) :
    p.Matches s.rest a r.2.rest := by
  obtain ⟨answer, s'⟩ := r
  obtain rfl : answer = .ok a := ha
  have hanswers := h.answers
  unfold Production.Matches
  generalize (p s.rest).outcome = outcome at hanswers
  cases hanswers
  rfl

theorem ok_of_matches {rest : List Token} (h : Agrees (p s.rest) s r)
    (ha : p.Matches s.rest a rest) : r.1 = .ok a ∧ r.2.rest = rest := by
  obtain ⟨answer, s'⟩ := r
  have hanswers := h.answers
  rw [show (p s.rest).outcome = .matched a rest from ha] at hanswers
  cases hanswers
  exact ⟨rfl, rfl⟩

/-! ### Readings one after another -/

theorem after {earlier : Reading β} {b : β} (h : Agrees earlier s (.ok b, s'))
    (h' : Agrees reading s' r) : Agrees (reading.after earlier) s r where
  moves :=
    calc
      r.2 = s'.movedTo r.2.position reading.unread := h'.moves
      _ = (s.movedTo s'.position earlier.unread).movedTo r.2.position reading.unread := by
        rw [← show s' = _ from h.moves]
      _ = s.movedTo r.2.position (reading.after earlier).unread := Parser.movedTo_movedTo ..
  ahead := Nat.le_trans h.ahead h'.ahead
  inside := by
    have htokens : s'.tokens = s.tokens := h.tokens
    rw [← htokens]
    exact h'.inside
  answers := by
    have hoptions : s'.options = s.options := h.options
    rw [← hoptions]
    exact h'.answers

theorem of_outcome {outcome : Outcome β} {r : Except Failure β × Parser} {answer : Except Failure α}
    (h : Agrees reading s (answer, r.2)) (houtcome : Answers s.options.maxDepth r outcome) :
    Agrees ⟨outcome, reading.unread, reading.keptRaw⟩ s r where
  moves := h.moves
  ahead := h.ahead
  inside := h.inside
  answers := houtcome

theorem pure (hs : s.position ≤ s.tokens.length) (a : α) :
    Agrees ((pure a : Production α) s.rest) s (Action.pure a s) where
  moves := s.movedTo_self.symm
  ahead := Nat.le_refl _
  inside := hs
  answers := .matched

theorem fail (hs : s.position ≤ s.tokens.length) :
    Agrees ((fail : Production α) s.rest) s (Action.fail s) where
  moves := s.movedTo_self.symm
  ahead := Nat.le_refl _
  inside := hs
  answers := .noMatch

theorem token (hs : s.position ≤ s.tokens.length) (accept : Token → Bool) :
    Agrees (token accept s.rest) s (Action.consumeIf accept s) := by
  unfold Action.consumeIf
  cases hrest : s.rest with
  | nil =>
      rw [Parser.next_of_nil hrest]
      exact ⟨s.movedTo_self.symm, Nat.le_refl _, hs, .noMatch⟩
  | cons t ts =>
      have hlt := Parser.lt_of_rest_eq_cons hrest
      have hle : s.position + 1 ≤ s.tokens.length := by omega
      rw [Parser.next_of_cons hrest, Production.token]
      dsimp only
      cases accept t with
      | false => exact ⟨rfl, Nat.le_succ _, hle, .noMatch⟩
      | true =>
          refine ⟨rfl, Nat.le_succ _, hle, ?_⟩
          have hanswers : Answers s.options.maxDepth
              (.ok t, s.movedTo (s.position + 1) (some ts.length))
              (.matched t (s.movedTo (s.position + 1) (some ts.length)).rest) := .matched
          rwa [Parser.rest_movedTo_succ hrest] at hanswers

theorem insignificant (hs : s.position ≤ s.tokens.length) :
    Agrees (insignificant s.rest) s (Action.takeInsignificant s) := by
  have hblank := (List.takeWhile_prefix (l := s.rest) Token.isInsignificant).length_le
  have hlength := Parser.position_add_length_rest hs
  unfold Action.takeInsignificant
  rw [Parser.takeInsignificant_eq]
  refine ⟨rfl, Nat.le_add_right _ _, ?_, ?_⟩
  · change s.position + _ ≤ s.tokens.length
    omega
  · have hanswers : Answers s.options.maxDepth (Action.takeInsignificant s)
        (.matched s.takeInsignificant.1 s.takeInsignificant.2.rest) := .matched
    rwa [Parser.rest_takeInsignificant, Action.takeInsignificant, Parser.takeInsignificant_eq]
      at hanswers

theorem bind (hm : Agrees (p s.rest) s (m s))
    (hk : ∀ a s', m s = (.ok a, s') → Agrees (f a s'.rest) s' (k a s')) :
    Agrees ((p >>= f) s.rest) s (m.bind k s) := by
  unfold Action.bind
  rcases hr : m s with ⟨answer, s'⟩
  rw [hr] at hm
  have hanswers := hm.answers
  generalize houtcome : (p s.rest).outcome = outcome at hanswers
  cases hanswers with
  | @matched a =>
      rw [bind_eq_of_matched houtcome]
      exact hm.after (hk a s' hr)
  | noMatch =>
      rw [bind_eq_of_noMatch houtcome]
      exact hm.of_outcome .noMatch
  | tooDeep =>
      rw [bind_eq_of_tooDeep houtcome]
      exact hm.of_outcome .tooDeep

theorem map (h : Agrees reading s r) (f : α → β) : Agrees (reading.map f) s (r.1.map f, r.2) where
  moves := h.moves
  ahead := h.ahead
  inside := h.inside
  answers := by
    rcases r with ⟨answer, s'⟩
    have hanswers := h.answers
    unfold Reading.map
    generalize reading.outcome = outcome at hanswers
    cases hanswers with
    | matched => exact .matched
    | noMatch => exact .noMatch
    | tooDeep => exact .tooDeep

theorem movedTo_back (h : Agrees reading s (.error .noMatch, s'))
    (hs : s.position ≤ s.tokens.length) (b : β) :
    Agrees ⟨.matched b s.rest, reading.unread, reading.keptRaw⟩ s
      (.ok b, { s' with position := s.position }) where
  moves := by
    have hmoves : s' = _ := h.moves
    rw [hmoves]
    rfl
  ahead := Nat.le_refl _
  inside := hs
  answers := by
    have hrest : ({ s' with position := s.position } : Parser).rest = s.rest :=
      congrArg (List.drop s.position) h.tokens
    have hanswers : Answers s.options.maxDepth (.ok b, { s' with position := s.position })
        (.matched b ({ s' with position := s.position } : Parser).rest) := .matched
    rwa [hrest] at hanswers

theorem orElse (hm : Agrees (p s.rest) s (m s)) (hs : s.Fits dialect levels)
    (hq : Follows dialect levels q m') :
    Agrees (orElse p q s.rest) s (m.orElse m' s) := by
  unfold Action.orElse Action.bind Action.maybe
  rcases hr : m s with ⟨answer, s'⟩
  rw [hr] at hm
  have hanswers := hm.answers
  generalize houtcome : (p s.rest).outcome = outcome at hanswers
  cases hanswers with
  | matched =>
      rw [orElse_eq_of_not_refuses (Matches.not_refuses houtcome)]
      exact hm
  | noMatch =>
      rw [orElse_eq_of_noMatch houtcome]
      have hback := hm.movedTo_back hs.inside (none : Option α)
      have hrest : ({ s' with position := s.position } : Parser).rest = s.rest :=
        congrArg (List.drop s.position) hm.tokens
      have hboth := hback.after (hq _ (hback.fits hs))
      rw [hrest] at hboth
      exact hboth
  | tooDeep =>
      have hrefuses : ¬ p.Refuses s.rest := by
        rintro ⟨stuck, hstuck⟩
        rw [houtcome] at hstuck
        cases hstuck
      rw [orElse_eq_of_not_refuses hrefuses]
      exact hm

theorem endHere (hs : s.position ≤ s.tokens.length) :
    Agrees (Grammar.endHere s.rest) s (if s.atEnd.1 then .ok () else .error .noMatch, s) := by
  refine ⟨s.movedTo_self.symm, Nat.le_refl _, hs, ?_⟩
  rw [Parser.atEnd_eq, Grammar.endHere]
  split
  · exact .matched
  · exact .noMatch

theorem endOfInput (hs : s.position ≤ s.tokens.length) :
    Agrees (endOfInput s.rest) s (Action.expectEnd s) := by
  have hskip : Agrees (skip s.rest) s (.ok (), s.atEnd.2) := by
    rw [show skip = (fun _ => ()) <$> Production.insignificant from bind_pure_eq_map _ _]
    exact (insignificant hs).map fun _ => ()
  have hrest : s.atEnd.2.rest = s.rest.dropWhile Token.isInsignificant := s.rest_takeInsignificant
  have hend : s.atEnd.2.atEnd.1 = s.atEnd.1 := by
    rw [Parser.atEnd_eq, Parser.atEnd_eq, hrest, Grammar.atEnd_dropWhile]
  have hmatches : skip.Matches s.rest () s.atEnd.2.rest := matches_skip_iff.2 hrest
  have hinside : s.atEnd.2.position ≤ s.atEnd.2.tokens.length := by
    rw [hskip.tokens]
    exact hskip.inside
  rw [Grammar.endOfInput_eq, bind_eq_of_matched hmatches, Action.expectEnd, ← hend]
  exact hskip.after (endHere hinside)

/-! ### Loops -/

section Loops

variable {step : Production (Option α)} {round : Action (Option α)}
  {r : Except Failure (List α) × Parser}

theorem not_loop_of_stalled (hround : Follows dialect levels step round) (h : Loop round s r)
    (hs : s.Fits dialect levels) : ¬ step.Matches s.rest (some a) s.rest := by
  induction h with
  | stops h =>
      intro hstalled
      obtain ⟨hok, -⟩ := (hround _ hs).ok_of_matches hstalled
      rw [h] at hok
      cases hok
  | fails h =>
      intro hstalled
      obtain ⟨hok, -⟩ := (hround _ hs).ok_of_matches hstalled
      rw [h] at hok
      cases hok
  | @again s s' b r h others ih =>
      intro hstalled
      have hagrees := hround _ hs
      obtain ⟨-, hrest⟩ := hagrees.ok_of_matches hstalled
      rw [h] at hagrees hrest
      apply ih (hagrees.fits hs)
      rwa [show s'.rest = s.rest from hrest]

theorem loop (hround : Follows dialect levels step round) (h : Loop round s r)
    (hs : s.Fits dialect levels) : Agrees (iterate step s.rest) s r := by
  induction h with
  | stops h =>
      have hagrees := hround _ hs
      rw [h] at hagrees
      rw [iterate_eq_of_none (hagrees.matches_of_ok rfl)]
      exact hagrees.of_outcome .matched
  | fails h =>
      have hagrees := hround _ hs
      rw [h] at hagrees
      have hanswers := hagrees.answers
      generalize houtcome : (step _).outcome = outcome at hanswers
      cases hanswers with
      | noMatch =>
          rw [iterate_eq_of_noMatch houtcome]
          exact hagrees.of_outcome .noMatch
      | tooDeep =>
          rw [iterate_eq_of_tooDeep houtcome]
          exact hagrees.of_outcome .tooDeep
  | @again s s' b r h others ih =>
      have hagrees := hround _ hs
      rw [h] at hagrees
      have hfits : s'.Fits dialect levels := hagrees.fits hs
      have houtcome : step.Matches s.rest (some b) s'.rest := hagrees.matches_of_ok rfl
      by_cases hlt : s'.rest.length < s.rest.length
      · rw [iterate_eq_of_lt houtcome hlt]
        exact hagrees.after ((ih hfits).map _)
      · have hahead : s.position ≤ s'.position := hagrees.ahead
        have hrest : s'.rest = s.rest := by
          have hlength := Parser.position_add_length_rest hs.inside
          have hlength' := Parser.position_add_length_rest hfits.inside
          have htokens : s'.tokens = s.tokens := hagrees.tokens
          rw [htokens] at hlength'
          have hposition : s'.position = s.position := by omega
          rw [Parser.rest, Parser.rest, htokens, hposition]
        have hstalled : step.Matches s'.rest (some b) s'.rest := by
          rw [hrest] at houtcome ⊢
          exact houtcome
        exact absurd hstalled (not_loop_of_stalled hround others hfits)

theorem exists_loop (hround : Follows dialect levels step round) (hstep : Shortens step)
    (hs : s.Fits dialect levels) : ∃ r, Loop round s r := by
  induction hn : s.rest.length using Nat.strongRecOn generalizing s with
  | ind n ih =>
      have hagrees := hround s hs
      rcases hr : round s with ⟨answer, s'⟩
      rw [hr] at hagrees
      rcases answer with failure | item | a
      · exact ⟨_, .fails hr⟩
      · exact ⟨_, .stops hr⟩
      · have hlt := hstep _ _ _ (hagrees.matches_of_ok rfl)
        obtain ⟨r, others⟩ := ih _ (hn ▸ hlt) (hagrees.fits hs) rfl
        exact ⟨_, .again hr others⟩

end Loops

/-! ### Arguments -/

section Arguments

open Grammar

variable {ts : List Token} {function : Token} {value : Action AnPlusB}
  {list : Action (List Selector)}

theorem atEnd_of_matches_anPlusB {value : AnPlusB} {rest : List Token}
    (h : anPlusB.Matches ts value rest) : Token.atEnd rest = true := by
  simp only [anPlusB, matches_bind_iff] at h
  obtain ⟨values, middle, hvalues, hvalue⟩ := h
  obtain ⟨_, hq, hmatches⟩ := hvalues.exists_mem_firstOf
  obtain ⟨p, -, rfl⟩ := List.mem_map.1 hq
  simp only [toEnd, matches_bind_iff, matches_pure_iff, matches_endOfInput_iff] at hmatches
  obtain ⟨_, _, -, _, _, ⟨hend, rfl⟩, rfl, rfl⟩ := hmatches
  rw [← atEnd_dropWhile] at hend
  split at hvalue
  · obtain ⟨-, rfl⟩ := matches_pure_iff.1 hvalue
    exact hend
  · exact absurd hvalue not_matches_fail

theorem not_overflows_anPlusB : ¬ anPlusB.Overflows ts := by
  intro h
  rcases overflows_bind_iff.1 h with h | ⟨values, middle, -, h⟩
  · obtain ⟨_, hq, h⟩ := h.exists_mem_firstOf
    obtain ⟨p, hp, rfl⟩ := List.mem_map.1 hq
    exact not_overflows_toEnd hp h
  · split at h
    · exact not_overflows_pure h
    · exact not_overflows_fail h

theorem outcome_wholeList_of_solid (g : Grammar) (h : Solid ts) :
    (wholeList g ts).outcome = (selectorList g ts).outcome := by
  have hskip : skip.Matches ts () ts := matches_skip_iff.2 h.symm
  rw [wholeList, outcome_bind, show _ = _ from hskip]

theorem inside_of_le (body : Action α) (h : s.options.maxDepth ≤ s.depth) :
    Action.inside ts body s = .error (.nestingTooDeep s.options.maxDepth) := by
  have henter : (s.inside ts).enter = .error (.nestingTooDeep s.options.maxDepth) := if_pos h
  rw [Action.inside, henter]

theorem inside_eq {body : Action α} (hbody : Follows dialect levels p body)
    (hs : s.Fits dialect (levels + 1)) (hsolid : Solid ts) :
    Action.inside ts body s =
      match (p ts).outcome with
      | .matched a rest => .ok (if Token.atEnd rest then some a else none)
      | .noMatch _ => .ok none
      | .tooDeep => .error (.nestingTooDeep s.options.maxDepth) := by
  have hlevels : s.options.maxDepth - s.depth = levels + 1 := hs.levels
  let inner : Parser := { s.inside ts with depth := s.depth + 1 }
  have hlt : ¬ s.options.maxDepth ≤ s.depth := by omega
  have henter : (s.inside ts).enter = .ok inner := if_neg hlt
  have hskip : inner.takeInsignificant.2 = inner := by
    rw [Parser.takeInsignificant_of_not]
    intro t ht
    change t ∈ ts.head? at ht
    cases ts with
    | nil => cases ht
    | cons u us =>
        obtain rfl : u = t := Option.some.inj ht
        exact solid_cons_iff.1 hsolid
  have hfits : inner.Fits dialect levels :=
    ⟨hs.dialect, show s.options.maxDepth - (s.depth + 1) = levels by omega, Nat.zero_le _⟩
  have hagrees := hbody inner hfits
  have hanswers : Answers s.options.maxDepth (body inner) (p ts).outcome := hagrees.answers
  rw [Action.inside, henter]
  dsimp only
  rw [hskip]
  generalize body inner = r at hanswers
  generalize (p ts).outcome = outcome at hanswers
  cases hanswers with
  | matched =>
      dsimp only
      rw [Parser.atEnd_eq]
  | noMatch => rfl
  | tooDeep => rfl

theorem functionArguments_zero (hs : s.Fits dialect 0) :
    Agrees (readArguments dialect 0 function s.rest) s
      (Action.functionArguments value list function s) := by
  have hlevels : s.options.maxDepth - s.depth = 0 := hs.levels
  rw [Action.functionArguments]
  by_cases hnil : argumentTokens function = []
  · rw [readArguments_of_nil hnil, hnil]
    exact pure hs.inside Arguments.empty
  · rw [readArguments_zero hnil, inside_of_le _ (by omega), if_neg (by simpa using hnil)]
    exact ⟨s.movedTo_self.symm, Nat.le_refl _, hs.inside, .tooDeep⟩

theorem functionArguments (hs : s.Fits dialect (levels + 1))
    (hvalue : Follows dialect levels anPlusB value)
    (hlist : Follows dialect levels (ofLevels dialect levels).selectorList list) :
    Agrees (readArguments dialect (levels + 1) function s.rest) s
      (Action.functionArguments value list function s) := by
  rw [Action.functionArguments]
  by_cases hnil : argumentTokens function = []
  · rw [readArguments_of_nil hnil, hnil]
    exact pure hs.inside Arguments.empty
  have hsolid : Solid (argumentTokens function) := Token.solid_trim _
  have hstays {outcome : Outcome Arguments} {answer : Except Failure Arguments}
      (kept : List String) (h : Answers s.options.maxDepth (answer, s) outcome) :
      Agrees ⟨outcome, none, kept⟩ s (answer, s) :=
    ⟨s.movedTo_self.symm, Nat.le_refl _, hs.inside, h⟩
  rw [readArguments_succ hnil, if_neg (by simpa using hnil), inside_eq hvalue hs hsolid,
    inside_eq hlist hs hsolid, ← outcome_wholeList_of_solid _ hsolid]
  unfold readNested
  cases ha : (anPlusB (argumentTokens function)).outcome with
  | matched value rest =>
      dsimp only
      rw [atEnd_of_matches_anPlusB ha]
      exact hstays _ .matched
  | tooDeep => exact absurd ha not_overflows_anPlusB
  | noMatch stuck =>
      dsimp only
      cases hl : (wholeList (ofLevels dialect levels) (argumentTokens function)).outcome with
      | matched list rest =>
          dsimp only
          by_cases hend : Token.atEnd rest = true
          · rw [if_pos hend, if_pos hend]
            exact hstays _ .matched
          · rw [if_neg hend, if_neg hend]
            exact hstays _ .matched
      | noMatch stuck => exact hstays _ .matched
      | tooDeep => exact hstays _ .tooDeep

end Arguments

end Agrees

theorem Acts.follows {dialect : Dialect} {levels : Nat} {p : Production α} {m : Action α}
    (h : Acts dialect levels p m) : Follows dialect levels p m := by
  induction h with
  | pure a => exact fun s hs => .pure hs.inside a
  | fail => exact fun s hs => .fail hs.inside
  | token accept => exact fun s hs => .token hs.inside accept
  | insignificant => exact fun s hs => .insignificant hs.inside
  | endOfInput => exact fun s hs => .endOfInput hs.inside
  | bind _ _ ihp ihf =>
      intro s hs
      refine .bind (ihp s hs) fun a s' hr => ihf a s' ?_
      have hfits := (ihp s hs).fits hs
      rwa [hr] at hfits
  | map f _ ih => exact fun s hs => (ih s hs).map f
  | orElse _ _ ihp ihq => exact fun s hs => .orElse (ihp s hs) hs ihq
  | iterate _ hloop ih => exact fun s hs => .loop ih (hloop s hs) hs
  | tooDeep function => exact fun s hs => .functionArguments_zero hs
  | arguments function _ _ ihvalue ihlist =>
      exact fun s hs => .functionArguments hs ihvalue ihlist

end CssSelectors

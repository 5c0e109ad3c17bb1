import CssSelectors.Proofs.Tokens.Slices
import Mathlib.Algebra.Ring.Int.Defs

/-!
# Where functions close

A function closes at the first parenthesis that no plain one among its arguments is open for.
Where there is none it runs to the end of the text, and then so does every function around it.
-/

namespace CssSelectors

namespace Token

/-- What a token adds to the number of plain parentheses that are open. -/
def weight : Token → Int
  | .atom .leftParen _ => 1
  | .atom .rightParen _ => -1
  | _ => 0

def balance (tokens : List Token) : Int :=
  (tokens.map weight).sum

/-- The last code point of a function is a closing parenthesis that stands in no argument. -/
def EndsInOwnParen (text : List Char) (arguments : List Token) (span : Span) : Prop :=
  text[span.stop - 1]? = some ')' ∧
    ∀ t ∈ arguments, ¬(t.span.start ≤ span.stop - 1 ∧ span.stop - 1 < t.span.stop)

/-- A function that nothing but the end of the text ends. -/
def RunsOut (text : List Char) (arguments : List Token) (span : Span) : Prop :=
  span.stop = text.length ∧ ¬ EndsInOwnParen text arguments span

/-- The token is an argument, or stands at some depth in one. -/
def StandsIn (arguments : List Token) (t : Token) : Prop :=
  ∃ level, Level arguments level ∧ t ∈ level

variable {front tokens : List Token} {depth depth' : Nat}

theorem balance_cons (t : Token) (tokens : List Token) :
    balance (t :: tokens) = weight t + balance tokens := by
  rw [balance, List.map_cons, List.sum_cons, balance]

theorem weight_eq_zero {t : Token} (hleft : ∀ span, t ≠ .atom .leftParen span)
    (hright : ∀ span, t ≠ .atom .rightParen span) : t.weight = 0 := by
  unfold weight
  split
  · next span => exact absurd rfl (hleft span)
  · next span => exact absurd rfl (hright span)
  · rfl

theorem add_balance_of_parens (h : parens depth tokens = some depth') :
    depth + balance tokens = depth' := by
  fun_induction parens depth tokens with
  | case1 depth =>
      obtain rfl := Option.some.inj h
      simp [balance]
  | case2 depth span tokens ih =>
      have hrest := ih h
      rw [balance_cons, weight]
      push_cast at hrest
      omega
  | case3 => cases h
  | case4 depth span tokens ih =>
      have hrest := ih h
      rw [balance_cons, weight]
      push_cast
      omega
  | case5 depth t tokens hleft hzero hsucc ih =>
      have hright : ∀ span, t ≠ .atom .rightParen span := fun span heq => by
        cases depth with
        | zero => exact hzero span rfl heq
        | succ depth => exact hsucc depth span rfl heq
      have hrest := ih h
      rw [balance_cons, weight_eq_zero (fun span heq => hleft span heq) hright]
      omega

/-- Where no parenthesis closes one that is not open, none does in the first of the tokens. -/
theorem balance_nonneg_of_prefix (h : (parens 0 tokens).isSome = true) (hfront : front <+: tokens) :
    0 ≤ balance front := by
  obtain ⟨back, rfl⟩ := hfront
  obtain ⟨depth, hdepth⟩ := Option.isSome_iff_exists.1 h
  rw [parens_append] at hdepth
  obtain ⟨middle, hmiddle, -⟩ := Option.bind_eq_some_iff.1 hdepth
  have hbalance := add_balance_of_parens hmiddle
  omega

end Token

theorem Tiles.exists_covering {text : List Char} {start stop i : Nat} {tokens : List Token}
    (h : Tiles text start stop tokens) (hstart : start ≤ i) (hstop : i < stop) :
    ∃ t ∈ tokens, t.span.start ≤ i ∧ i < t.span.stop := by
  induction tokens generalizing start with
  | nil =>
      obtain rfl : start = stop := h
      omega
  | cons t tokens ih =>
      obtain ⟨hfirst, -, hrest⟩ := h
      by_cases hi : i < t.span.stop
      · exact ⟨t, List.mem_cons_self, by omega, hi⟩
      · obtain ⟨u, hu, hcovers⟩ := ih hrest (by omega)
        exact ⟨u, List.mem_cons_of_mem t hu, hcovers⟩

namespace Occupies

variable {text : List Char} {start stop : Nat} {tokens level arguments : List Token} {name : String}
  {span : Span}

/-- A function ends in its own parenthesis, with no plain one open before it, or it runs out. -/
theorem exists_close (h : Occupies text start stop tokens)
    (hmem : .function name arguments span ∈ tokens) :
    ∃ inside close, Occupies text inside close arguments ∧
      (Token.EndsInOwnParen text arguments span ∧ close < text.length ∧
          Token.parens 0 arguments = some 0 ∨
        Token.RunsOut text arguments span ∧ (Token.parens 0 arguments).isSome = true) := by
  obtain ⟨paren, close, -, hopen, harguments, hclose⟩ := h.exists_call hmem
  refine ⟨paren + 1, close, harguments, ?_⟩
  obtain ⟨hparen, hspan, hzero⟩ | ⟨rfl, hspan, hsome⟩ := hclose
  · refine .inl ⟨⟨?_, fun t ht hcovers => ?_⟩, (List.getElem?_eq_some_iff.1 hparen).1, hzero⟩
    · rwa [hspan, Nat.add_sub_cancel]
    · have hle := (harguments.tiles.span_le t ht).2
      omega
  · refine .inr ⟨⟨hspan, fun ⟨hparen, hfree⟩ => ?_⟩, hsome⟩
    rw [hspan] at hparen hfree
    -- The last code point stands in the last argument or opens the function.
    obtain hlt | heq := Nat.lt_or_eq_of_le harguments.tiles.start_le_stop
    · obtain ⟨t, ht, hcovers⟩ :=
        harguments.tiles.exists_covering (i := text.length - 1) (by omega) (by omega)
      exact hfree t ht hcovers
    · rw [← heq, Nat.add_sub_cancel, hopen] at hparen
      cases hparen

theorem exists_of_level (h : Occupies text start stop tokens) (hlevel : Token.Level tokens level) :
    ∃ start' stop', Occupies text start' stop' level ∧ stop' ≤ stop := by
  induction hlevel with
  | outermost => exact ⟨start, stop, h, Nat.le_refl stop⟩
  | arguments _ mem ih =>
      obtain ⟨start', stop', hlevel, hle⟩ := ih
      obtain ⟨paren, close, -, -, harguments, hclose⟩ := hlevel.exists_call mem
      have hspan := (hlevel.tiles.span_le _ mem).2
      refine ⟨paren + 1, close, harguments, ?_⟩
      dsimp only [Token.span] at hspan
      omega

theorem runsOut_of_standsIn {inner : List Token} {span' : Span} {name' : String}
    (h : Occupies text start stop tokens) (hmem : .function name arguments span ∈ tokens)
    (hinside : Token.StandsIn arguments (.function name' inner span'))
    (hinner : Token.RunsOut text inner span') : Token.RunsOut text arguments span := by
  obtain ⟨inside, close, harguments, ⟨-, hclose, -⟩ | ⟨hrunsOut, -⟩⟩ := h.exists_close hmem
  · exfalso
    obtain ⟨level, hlevel, hmem'⟩ := hinside
    obtain ⟨_, stop', hlevel, hle⟩ := harguments.exists_of_level hlevel
    have hspan : span'.stop ≤ stop' := (hlevel.tiles.span_le _ hmem').2
    obtain ⟨hend, -⟩ := hinner
    omega
  · exact hrunsOut

end Occupies

theorem Token.Level.exists_occupies_of_function {text name : String}
    {level arguments : List Token} {span : Span} (h : Level (tokenize text) level)
    (hmem : .function name arguments span ∈ level) :
    ∃ start stop tokens, Occupies text.toList start stop tokens ∧
      .function name arguments span ∈ tokens := by
  obtain ⟨start, stop, tokens, hoccupies, hlevel⟩ := h.exists_occupies
  exact ⟨start, stop, tokens, hoccupies, function_mem_of_level hlevel hmem⟩

/-- A function closes at its matching parenthesis: no plain parenthesis among its arguments closes
one that is not open, and a closing parenthesis of its own finds none open. Without such a
parenthesis it runs to the end of the text, and so does every function around it. -/
theorem tokenize_functions_close (text : String) {level arguments : List Token} {name : String}
    {span : Span} (hlevel : Token.Level (tokenize text) level)
    (hmem : .function name arguments span ∈ level) :
    (∀ front, front <+: arguments → 0 ≤ Token.balance front) ∧
      (Token.EndsInOwnParen text.toList arguments span → Token.balance arguments = 0) ∧
        (¬ Token.EndsInOwnParen text.toList arguments span →
          Token.RunsOut text.toList arguments span ∧
            ∀ outer name' arguments' span', Token.Level (tokenize text) outer →
              .function name' arguments' span' ∈ outer →
                Token.StandsIn arguments' (.function name arguments span) →
                  Token.RunsOut text.toList arguments' span') := by
  obtain ⟨start, stop, tokens, hoccupies, hmem⟩ := hlevel.exists_occupies_of_function hmem
  obtain ⟨_, _, _, hclose⟩ := hoccupies.exists_close hmem
  refine ⟨fun front hfront => ?_, fun hown => ?_, fun hown => ?_⟩
  · have hsome : (Token.parens 0 arguments).isSome = true := by
      obtain ⟨-, -, hzero⟩ | ⟨-, hsome⟩ := hclose
      · rw [hzero]
        rfl
      · exact hsome
    exact Token.balance_nonneg_of_prefix hsome hfront
  · obtain ⟨-, -, hzero⟩ | ⟨⟨-, hrunsOut⟩, -⟩ := hclose
    · have hbalance := Token.add_balance_of_parens hzero
      omega
    · exact absurd hown hrunsOut
  · obtain ⟨hown', -⟩ | ⟨hrunsOut, -⟩ := hclose
    · exact absurd hown' hown
    · refine ⟨hrunsOut, fun outer name' arguments' span' houter hmem' hinside => ?_⟩
      obtain ⟨_, _, _, hoccupies', hmem'⟩ := houter.exists_occupies_of_function hmem'
      exact hoccupies'.runsOut_of_standsIn hmem' hinside hrunsOut

/-- In `f(h(())g(()` the last parenthesis stands in `g`, which nothing closes. -/
theorem tokenize_functions_close_nested :
    let text := "f(h(())g(()"
    let h : Token := .function "h" [.atom .leftParen ⟨4, 5⟩, .atom .rightParen ⟨5, 6⟩] ⟨2, 7⟩
    let g : Token := .function "g" [.atom .leftParen ⟨9, 10⟩, .atom .rightParen ⟨10, 11⟩] ⟨7, 11⟩
    tokenize text = [.function "f" [h, g] ⟨0, 11⟩, .atom .eof ⟨11, 11⟩] ∧
      Token.balance [.atom .leftParen ⟨4, 5⟩, .atom .rightParen ⟨5, 6⟩] = 0 ∧
        Token.RunsOut text.toList [h, g] ⟨0, 11⟩ := by
  intro text h g
  have htokens :
      tokenize "f(h(())g(()" = [.function "f" [h, g] ⟨0, 11⟩, .atom .eof ⟨11, 11⟩] := by
    set_option maxRecDepth 4000 in
    with_unfolding_all rfl
  have houtermost :
      Token.Level (tokenize text) [.function "f" [h, g] ⟨0, 11⟩, .atom .eof ⟨11, 11⟩] :=
    htokens ▸ .outermost
  have hlevel : Token.Level (tokenize text) [h, g] := .arguments houtermost List.mem_cons_self
  have hown : Token.EndsInOwnParen text.toList
      [.atom .leftParen ⟨4, 5⟩, .atom .rightParen ⟨5, 6⟩] ⟨2, 7⟩ :=
    ⟨by decide, by decide⟩
  have hrunsOut : ¬ Token.EndsInOwnParen text.toList
      [.atom .leftParen ⟨9, 10⟩, .atom .rightParen ⟨10, 11⟩] ⟨7, 11⟩ :=
    fun hends => hends.2 (.atom .rightParen ⟨10, 11⟩) (by simp) (by decide)
  refine ⟨htokens, ?_, ?_⟩
  · exact (tokenize_functions_close text hlevel (List.mem_cons_self : h ∈ [h, g])).2.1 hown
  · have hinside : Token.StandsIn [h, g] g := ⟨[h, g], .outermost, by simp⟩
    exact ((tokenize_functions_close text hlevel (by simp : g ∈ [h, g])).2.2 hrunsOut).2 _ "f"
      [h, g] ⟨0, 11⟩ houtermost List.mem_cons_self hinside

end CssSelectors

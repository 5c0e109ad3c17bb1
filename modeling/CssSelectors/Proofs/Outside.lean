import CssSelectors.Proofs.Carrying
import CssSelectors.Proofs.Checked
import CssSelectors.Proofs.ErrorRange
import CssSelectors.Proofs.Limits

/-!
# Outside of functions

What a function holds has no say in what is read outside of it. Tokens are read like the
same tokens with hollow functions, as far as there are levels enough for what the functions
hold: the same list comes out with its functions hollow, or the token with the same index
is blamed.
-/

namespace CssSelectors

open Production

/-! ## Hollow functions -/

/-- The token, but of a function no more than its name. -/
def Token.hollow : Token → Token
  | .function name _ _ => .function name [] ⟨0, 0⟩
  | .atom a span => .atom a span

theorem Token.faithful_hollow : Faithful hollow := by
  rintro (_ | _) <;> rfl

/-- The selector with hollow functions and nothing read of their arguments. -/
def Selector.hollow : Selector → Selector :=
  mapTokens Token.hollow fun _ => .empty

namespace Grammar

variable {dialect : Dialect} {levels : Nat} {function : Token} {tokens : List Token}

theorem argumentTokens_hollow (function : Token) : argumentTokens function.hollow = [] := by
  cases function <;> rfl

theorem carried_arguments {arguments : Arguments}
    (h : (ofLevels dialect levels).Yields function arguments) (rest : List Token) :
    ((ofLevels dialect levels).arguments function rest).Carried Token.hollow (fun _ => .empty)
      ((ofLevels dialect levels).arguments function.hollow (rest.map Token.hollow)) := by
  have hyields : (ofLevels dialect levels).Yields function.hollow .empty :=
    (yields_empty_iff (argumentTokens_hollow function)).2 rfl
  have houtcome : ((ofLevels dialect levels).arguments function rest).outcome =
      .matched arguments rest := h rest
  constructor
  · rw [houtcome]
    exact hyields (rest.map Token.hollow)
  · rw [unread_arguments, unread_arguments]

theorem carries_functionCall_hollow (dialect : Dialect) (levels : Nat) :
    Carries (fun t => ∃ arguments, (ofLevels dialect levels).Yields t arguments) Token.hollow
      (PseudoClass.mapTokens Token.hollow fun _ => .empty) (functionCall (ofLevels dialect levels))
      (functionCall (ofLevels dialect levels)) := by
  refine Token.faithful_hollow.token.bind_of_carried (fun function => ?_) ?_
  · have harguments : (readArguments dialect levels function).Heeds False :=
      heeds_readArguments levels function
    exact harguments.advances.bind fun _ => advances_pure _
  · -- the function is one of the tokens, so something is read of its arguments
    intro tokens function rest hfit hmatches
    obtain ⟨rfl, -⟩ := matches_token_iff.1 hmatches
    obtain ⟨arguments, hyields⟩ := hfit function List.mem_cons_self
    rw [bind_pure_eq_map, bind_pure_eq_map]
    exact (carried_arguments hyields rest).map fun _ => rfl

theorem carried_wholeList_hollow (h : Token.nestingOfList tokens ≤ levels) :
    (wholeList (ofLevels dialect levels) tokens).Carried Token.hollow (List.map Selector.hollow)
      (wholeList (ofLevels dialect levels) (tokens.map Token.hollow)) := by
  have hcarries := Token.faithful_hollow.wholeList (carries_functionCall_hollow dialect levels) rfl
  refine hcarries.carried tokens fun t ht => ?_
  exact exists_yields_of_nesting_le (Nat.le_trans (Token.nesting_le_nestingOfList ht) h)

end Grammar

/-! ## Carried results -/

theorem Token.culpritIndex_map (φ : Token → Token) (whole stuck : List Token)
    (unread : Option Nat) :
    culpritIndex (whole.map φ) (stuck.map φ) unread = culpritIndex whole stuck unread := by
  cases unread <;> simp only [culpritIndex, List.length_map]

section Carried

variable {options : Options} {tokens : List Token} {φ : Token → Token}
  {v : List Selector → List Selector} (hφ : Token.Faithful φ)
  (h : ((Grammar.ofLevels options.dialect options.maxDepth).wholeList tokens).Carried φ v
    ((Grammar.ofLevels options.dialect options.maxDepth).wholeList (tokens.map φ)))
include hφ h

theorem parseTokens_map_of_ok {list : List Selector} (hok : parseTokens options tokens = .ok list) :
    parseTokens options (tokens.map φ) = .ok (v list) := by
  obtain ⟨rest, hmatches, hend⟩ := parseTokens_eq_ok_iff_matches.1 hok
  refine parseTokens_eq_ok_iff_matches.2 ⟨rest.map φ, h.matched hmatches, ?_⟩
  rw [hφ.atEnd_map, hend]

theorem blamedIndex?_map : blamedIndex? options (tokens.map φ) = blamedIndex? options tokens := by
  simp only [blamedIndex?, h.outcome, h.unread]
  cases ((Grammar.ofLevels options.dialect options.maxDepth).wholeList tokens).outcome with
  | matched list rest =>
      simp only [Outcome.carry, hφ.atEnd_map, hφ.dropWhile_map, List.length_map]
  | noMatch stuck => exact congrArg some (Token.culpritIndex_map φ tokens stuck _)
  | tooDeep => rfl

end Carried

variable {options : Options} {tokens tokens' : List Token}

/-- Tokens form a list if the hollow ones do, and else the same index is blamed in both. -/
theorem hollow_cases (h : Token.nestingOfList tokens ≤ options.maxDepth) :
    (∃ list, parseTokens options tokens = .ok list ∧
      parseTokens options (tokens.map Token.hollow) = .ok (list.map Selector.hollow)) ∨
    ∃ k, blamedIndex? options tokens = some k ∧
      blamedIndex? options (tokens.map Token.hollow) = some k := by
  have hcarried : ((Grammar.ofLevels options.dialect options.maxDepth).wholeList tokens).Carried
      Token.hollow (List.map Selector.hollow) _ := Grammar.carried_wholeList_hollow h
  rcases parseTokens_cases options tokens with ⟨list, hok⟩ | hdeep | ⟨k, hk⟩
  · exact .inl ⟨list, hok, parseTokens_map_of_ok Token.faithful_hollow hcarried hok⟩
  · exact absurd hdeep (parseTokens_ne_tooDeep h options.maxDepth)
  · exact .inr ⟨k, hk, (blamedIndex?_map Token.faithful_hollow hcarried).trans hk⟩

/-- What functions hold has no say in whether the tokens outside of them form lists, in what else
those lists are, or in which index is blamed. This is with numbers that wrap around; where their
negatives are checked instead, the same comes out, or the reading ends at a number without a sign
that has no negative. -/
theorem parse_outside_functions (h : tokens.map Token.hollow = tokens'.map Token.hollow)
    (hlevels : Token.nestingOfList tokens ≤ options.maxDepth)
    (hlevels' : Token.nestingOfList tokens' ≤ options.maxDepth) :
    ((∃ list list', parseTokens options tokens = .ok list ∧
        parseTokens options tokens' = .ok list' ∧
        list.map Selector.hollow = list'.map Selector.hollow) ∨
      ∃ k, blamedIndex? options tokens = some k ∧ blamedIndex? options tokens' = some k ∧
        parseTokens options tokens = .error (.ofToken (Token.getOrEnd tokens k)) ∧
        parseTokens options tokens' = .error (.ofToken (Token.getOrEnd tokens' k))) ∧
    ∀ ts ∈ [tokens, tokens'], parseTokensChecked options ts = some (parseTokens options ts) ∨
      parseTokensChecked options ts = none ∧ ¬ Token.AllNegatable ts := by
  refine ⟨?_, fun _ _ => checks_parseTokens options (.refl _)⟩
  rcases hollow_cases hlevels with ⟨list, hok, hhollow⟩ | ⟨k, hk, hhollow⟩
  · rw [h] at hhollow
    rcases hollow_cases hlevels' with ⟨list', hok', hhollow'⟩ | ⟨k', hk', hhollow'⟩
    · rw [hhollow] at hhollow'
      exact .inl ⟨list, list', hok, hok', Except.ok.inj hhollow'⟩
    · rw [parseTokens_of_blamedIndex? hhollow'] at hhollow
      cases hhollow
  · rw [h] at hhollow
    rcases hollow_cases hlevels' with ⟨list', hok', hhollow'⟩ | ⟨k', hk', hhollow'⟩
    · rw [parseTokens_of_blamedIndex? hhollow] at hhollow'
      cases hhollow'
    · rw [hhollow] at hhollow'
      cases hhollow'
      exact .inr ⟨k, hk, hk', parseTokens_of_blamedIndex? hk, parseTokens_of_blamedIndex? hk'⟩

/-- An offset that has no negative of 64 bits changes nothing outside of its function. -/
theorem parse_outside_functions_least :
    ∃ list list',
      parseTokens ⟨.standard, 1⟩ [.atom .colon ⟨0, 1⟩,
        .function "f" [.atom (.ident "a") ⟨3, 4⟩] ⟨1, 5⟩] = .ok list ∧
      parseTokens ⟨.standard, 1⟩ [.atom .colon ⟨0, 1⟩,
        .function "f" [.atom (.ident "n-") ⟨3, 5⟩,
          .atom (.number (.ofInt (-9223372036854775808) false)) ⟨5, 6⟩] ⟨1, 7⟩] = .ok list' ∧
      list.map Selector.hollow = list'.map Selector.hollow := by
  let tokens : List Token :=
    [.atom .colon ⟨0, 1⟩, .function "f" [.atom (.ident "a") ⟨3, 4⟩] ⟨1, 5⟩]
  let tokens' : List Token :=
    [.atom .colon ⟨0, 1⟩, .function "f" [.atom (.ident "n-") ⟨3, 5⟩,
      .atom (.number (.ofInt (-9223372036854775808) false)) ⟨5, 6⟩] ⟨1, 7⟩]
  have hhollow : tokens.map Token.hollow = tokens'.map Token.hollow := rfl
  have hlevels : Token.nestingOfList tokens ≤ (⟨.standard, 1⟩ : Options).maxDepth := by decide
  have hlevels' : Token.nestingOfList tokens' ≤ (⟨.standard, 1⟩ : Options).maxDepth := by decide
  have hok : (parseTokens ⟨.standard, 1⟩ tokens).isOk = true := by with_unfolding_all rfl
  rcases (parse_outside_functions hhollow hlevels hlevels').1 with hlists | ⟨k, -, -, herror, -⟩
  · exact hlists
  · rw [herror] at hok
    cases hok

end CssSelectors

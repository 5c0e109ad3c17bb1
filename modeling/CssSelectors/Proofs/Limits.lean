import CssSelectors.Proofs.Levels
import Mathlib.Data.Nat.Find

/-!
# The limit on nesting

The limit decides whether tokens are read, never what is read from them. There is one
number of levels that tokens need: every lower limit cuts their reading off, and from
there on all limits lead to one result. Tokens need no more levels than their functions
hold, and what is read never holds more levels than the limit allows.
-/

namespace CssSelectors

open Production

variable {dialect : Dialect} {levels levels' : Nat} {tokens : List Token}

/-- Nothing is too deep for a limit that the nesting of the tokens does not exceed. -/
theorem not_overflows_of_nesting_le (h : Token.nestingOfList tokens ≤ levels) :
    ¬ (Grammar.ofLevels dialect levels).wholeList.Overflows tokens := by
  intro hover
  have hcuts : Grammar.Cuts (.ofLevels dialect levels) (.ofLevels dialect levels) :=
    Grammar.cuts_ofLevels (Nat.le_refl levels)
  obtain ⟨t, ht, hdeep⟩ :=
    (hcuts.wholeList (Grammar.sealed_ofLevels dialect levels) tokens).culprit hover
  have hnesting : t.nesting ≤ levels := Nat.le_trans (Token.nesting_le_nestingOfList ht) h
  obtain ⟨arguments, hyields⟩ :
      ∃ arguments, (Grammar.ofLevels dialect levels).Yields t arguments :=
    Grammar.exists_yields_of_nesting_le hnesting
  exact (hyields []).not_overflows (hdeep [])

theorem parseTokens_ne_tooDeep {options : Options}
    (h : Token.nestingOfList tokens ≤ options.maxDepth) (limit : Nat) :
    parseTokens options tokens ≠ .error (.nestingTooDeep limit) :=
  fun hdeep => not_overflows_of_nesting_le h (parseTokens_eq_tooDeep_iff.1 hdeep).1

theorem tooDeep_of_le (h : levels ≤ levels')
    (hdeep : parseTokens ⟨dialect, levels'⟩ tokens = .error (.nestingTooDeep levels')) :
    parseTokens ⟨dialect, levels⟩ tokens = .error (.nestingTooDeep levels) := by
  rcases parseTokens_eq_of_le h with hlower | hsame
  · exact hlower
  · rw [hdeep] at hsame
    exact parseTokens_eq_tooDeep_iff.2 ⟨(parseTokens_eq_tooDeep_iff.1 hsame).1, rfl⟩

theorem exists_levels_needed (dialect : Dialect) (tokens : List Token) :
    ∃ needed ≤ Token.nestingOfList tokens, ∀ limit,
      parseTokens ⟨dialect, limit⟩ tokens = .error (.nestingTooDeep limit) ↔ limit < needed := by
  classical
  let Suffices (limit : Nat) : Prop :=
    parseTokens ⟨dialect, limit⟩ tokens ≠ .error (.nestingTooDeep limit)
  have hnesting : Suffices (Token.nestingOfList tokens) :=
    parseTokens_ne_tooDeep (Nat.le_refl _) _
  have hexists : ∃ limit, Suffices limit := ⟨_, hnesting⟩
  refine ⟨Nat.find hexists, Nat.find_le hnesting, fun limit => ⟨fun hdeep => ?_, fun hlt => ?_⟩⟩
  · by_contra hle
    exact Nat.find_spec hexists (tooDeep_of_le (Nat.le_of_not_lt hle) hdeep)
  · exact not_not.1 (Nat.find_min hexists hlt)

/-- Of two limits, the lower one cuts the reading off or leads to the very result of the higher
one. It cuts if it is below the levels that the tokens need, which are no more than they hold. -/
theorem parse_limit_only_cuts (dialect : Dialect) (tokens : List Token) :
    (∀ limit limit', limit ≤ limit' →
      parseTokens ⟨dialect, limit⟩ tokens = .error (.nestingTooDeep limit) ∨
        parseTokens ⟨dialect, limit⟩ tokens = parseTokens ⟨dialect, limit'⟩ tokens) ∧
      ∃ needed ≤ Token.nestingOfList tokens, ∀ limit,
        parseTokens ⟨dialect, limit⟩ tokens = .error (.nestingTooDeep limit) ↔ limit < needed :=
  ⟨fun _ _ h => parseTokens_eq_of_le h, exists_levels_needed dialect tokens⟩

theorem parse_limit_only_cuts_ident :
    parseTokens ⟨.standard, 0⟩ [.atom .colon ⟨0, 1⟩,
        .function "f" [.atom (.ident "a") ⟨3, 4⟩] ⟨1, 5⟩] = .error (.nestingTooDeep 0) ∧
      parseTokens ⟨.standard, 1⟩ [.atom .colon ⟨0, 1⟩,
          .function "f" [.atom (.ident "a") ⟨3, 4⟩] ⟨1, 5⟩] =
        parseTokens ⟨.standard, 1000⟩ [.atom .colon ⟨0, 1⟩,
          .function "f" [.atom (.ident "a") ⟨3, 4⟩] ⟨1, 5⟩] := by
  let tokens : List Token :=
    [.atom .colon ⟨0, 1⟩, .function "f" [.atom (.ident "a") ⟨3, 4⟩] ⟨1, 5⟩]
  have hone : parseTokens ⟨.standard, 1⟩ tokens ≠ .error (.nestingTooDeep 1) :=
    parseTokens_ne_tooDeep (by decide) 1
  refine ⟨by with_unfolding_all rfl, ?_⟩
  exact ((parse_limit_only_cuts .standard tokens).1 1 1000 (by decide)).resolve_left hone

/-- No limit cuts tokens that it allows for, and no function with arguments has as many around it
as the limit allows. -/
theorem parse_limit_bounds_nesting (options : Options) (tokens : List Token) :
    (Token.nestingOfList tokens ≤ options.maxDepth →
      ∀ limit, parseTokens options tokens ≠ .error (.nestingTooDeep limit)) ∧
    ∀ list, parseTokens options tokens = .ok list → ∀ depth function arguments,
      CallAt list depth function arguments → arguments ≠ .empty → depth < options.maxDepth := by
  refine ⟨parseTokens_ne_tooDeep, fun list hok depth function arguments hcall hsome => ?_⟩
  have haccepts := (parseTokens_eq_ok_iff.1 hok).1
  obtain ⟨-, deeper, hlevels, hyields⟩ := haccepts.yields_of_callAt hcall
  -- without a level left, only empty arguments are read
  suffices hdeeper : deeper ≠ 0 by omega
  rintro rfl
  by_cases hnil : Grammar.argumentTokens function = []
  · exact hsome ((Grammar.yields_empty_iff hnil).1 hyields)
  · exact Grammar.not_yields_zero hnil hyields

theorem parse_limit_bounds_nesting_ident :
    (∀ limit, parseTokens ⟨.standard, 1⟩ [.atom .colon ⟨0, 1⟩,
        .function "f" [.atom (.ident "a") ⟨3, 4⟩] ⟨1, 5⟩] ≠ .error (.nestingTooDeep limit)) ∧
      ∃ list, parseTokens ⟨.standard, 1⟩ [.atom .colon ⟨0, 1⟩,
          .function "f" [.atom (.ident "a") ⟨3, 4⟩] ⟨1, 5⟩] = .ok list ∧
        ∃ depth function arguments, CallAt list depth function arguments ∧
          arguments ≠ .empty ∧ depth < 1 := by
  let f : Token := .function "f" [.atom (.ident "a") ⟨3, 4⟩] ⟨1, 5⟩
  let a : Selector := .complex (.last ⟨some (.name ⟨none, .atom (.ident "a") ⟨3, 4⟩⟩), [], []⟩)
  have hok : parseTokens ⟨.standard, 1⟩ [.atom .colon ⟨0, 1⟩, f] = .ok [.complex (.last
      ⟨none, [.pseudoClass (.function f (.selectors [a]))], []⟩)] := by
    with_unfolding_all rfl
  have hcall : CallAt [.complex (.last ⟨none, [.pseudoClass (.function f (.selectors [a]))], []⟩)]
      0 f (.selectors [a]) := .here (List.mem_singleton_self _)
  have hbounds := parse_limit_bounds_nesting ⟨.standard, 1⟩ [.atom .colon ⟨0, 1⟩, f]
  refine ⟨hbounds.1 (by decide), _, hok, 0, f, _, hcall, by simp, ?_⟩
  exact hbounds.2 _ hok 0 f _ hcall (by simp)

end CssSelectors

import CssSelectors.Cli.Report
import CssSelectors.Proofs.Blame
import CssSelectors.Proofs.Tokens.Tiling

/-!
# Where errors point

An error points at the token with one index, or at the end of the input if no token has
it. The tokens of a text stand within the text, and the end behind them is one of them,
so the characters that an error points at can be marked below the text.
-/

namespace CssSelectors

open Production

/-! ## The index of the blamed token -/

namespace Token

/-- The token with an index, or the end of the input behind all tokens. -/
def getOrEnd (tokens : List Token) (k : Nat) : Token :=
  tokens[k]?.getD (endOf tokens)

/-- The index of the token to blame where no production matches before `stuck`. -/
def culpritIndex (whole stuck : List Token) : Option Nat → Nat
  | some n => max (whole.length - stuck.length) (whole.length - n - 1)
  | none => whole.length - stuck.length

variable {whole stuck : List Token}

theorem headOrEnd_drop (tokens : List Token) (k : Nat) :
    headOrEnd tokens (tokens.drop k) = getOrEnd tokens k := by
  rw [headOrEnd, List.head?_drop, getOrEnd]

theorem headOrEnd_of_suffix (h : stuck <:+ whole) :
    headOrEnd whole stuck = getOrEnd whole (whole.length - stuck.length) := by
  rw [← headOrEnd_drop, ← List.suffix_iff_eq_drop.1 h]

theorem culprit_eq_getOrEnd (h : stuck <:+ whole) (unread : Option Nat) :
    culprit whole stuck unread = getOrEnd whole (culpritIndex whole stuck unread) := by
  have hle := h.length_le
  cases unread with
  | none => exact headOrEnd_of_suffix h
  | some n =>
      simp only [culprit, culpritIndex]
      split
      · rw [headOrEnd_drop, Nat.max_eq_right (by omega)]
      · rw [headOrEnd_of_suffix h, Nat.max_eq_left (by omega)]

end Token

variable {options : Options} {tokens : List Token}

/-- The index of the token that is blamed if tokens are malformed. -/
def blamedIndex? (options : Options) (tokens : List Token) : Option Nat :=
  let reading := (Grammar.ofLevels options.dialect options.maxDepth).wholeList tokens
  match reading.outcome with
  | .matched _ rest =>
    if Token.atEnd rest then none
    else some (tokens.length - (rest.dropWhile Token.isInsignificant).length)
  | .noMatch stuck => some (Token.culpritIndex tokens stuck reading.unread)
  | .tooDeep => none

theorem parseTokens_of_blamedIndex? {k : Nat} (h : blamedIndex? options tokens = some k) :
    parseTokens options tokens = .error (.ofToken (Token.getOrEnd tokens k)) := by
  have hadvances : (Grammar.ofLevels options.dialect options.maxDepth).wholeList.Advances :=
    (Grammar.heeds_wholeList_ofLevels options.maxDepth).advances
  cases houtcome :
      ((Grammar.ofLevels options.dialect options.maxDepth).wholeList tokens).outcome with
  | matched list rest =>
      by_cases hend : Token.atEnd rest = true
      · simp [blamedIndex?, houtcome, hend] at h
      · simp only [blamedIndex?, houtcome, hend] at h
        cases h
        have hrest := (hadvances.passes_of_matches houtcome).suffix
        rw [← Token.headOrEnd_of_suffix ((List.dropWhile_suffix _).trans hrest)]
        simp [parseTokens, readTokens, houtcome, hend]
  | noMatch stuck =>
      simp only [blamedIndex?, houtcome] at h
      cases h
      have hstuck := (hadvances.passes_of_noMatch houtcome).suffix
      rw [parseTokens_of_noMatch houtcome, Token.culprit_eq_getOrEnd hstuck]
  | tooDeep =>
      simp only [blamedIndex?, houtcome] at h
      cases h

theorem parseTokens_cases (options : Options) (tokens : List Token) :
    (∃ list, parseTokens options tokens = .ok list) ∨
      parseTokens options tokens = .error (.nestingTooDeep options.maxDepth) ∨
        ∃ k, blamedIndex? options tokens = some k := by
  unfold parseTokens readTokens blamedIndex?
  cases houtcome :
      ((Grammar.ofLevels options.dialect options.maxDepth).wholeList tokens).outcome with
  | matched list rest => by_cases hend : Token.atEnd rest = true <;> simp [houtcome, hend]
  | noMatch stuck => simp [houtcome]
  | tooDeep => simp [houtcome]

/-! ## Tokens within their text -/

theorem tokenize_eq_append (text : String) :
    tokenize text = Token.nest text.toList.length (placedLexemes 0 text.toList) ++
      [.atom .eof ⟨text.length, text.length⟩] := by
  rw [tokenize, tokensFrom, Nat.zero_add, String.length_toList]

/-- Every token of a text, and the end of the text itself, stands within the text. -/
theorem span_le_of_mem_tokenize {text : String} {t : Token} (h : t ∈ tokenize text) :
    t.span.start ≤ text.length ∧ t.span.stop ≤ text.length := by
  have hlexed := lexed_placedLexemes (Nat.zero_le text.toList.length)
  obtain ⟨cut, hforms⟩ := exists_forms_nest text.toList.length (placedLexemes 0 text.toList)
  have htiles := hforms.tiles hlexed rfl fun _ => rfl
  rw [tokenize_eq_append, List.mem_append, List.mem_singleton] at h
  rcases h with h | rfl
  · rw [← String.length_toList]
    exact htiles.span_le t h
  · exact ⟨Nat.le_refl _, Nat.le_refl _⟩

theorem getOrEnd_mem_tokenize (text : String) (k : Nat) :
    Token.getOrEnd (tokenize text) k ∈ tokenize text := by
  unfold Token.getOrEnd
  cases h : (tokenize text)[k]? with
  | some t => exact List.mem_of_getElem? h
  | none =>
      have hend : Token.endOf (tokenize text) = .atom .eof ⟨text.length, text.length⟩ := by
        rw [tokenize_eq_append, Token.endOf, List.getLast?_concat]
        rfl
      rw [Option.getD_none, hend, tokenize_eq_append]
      exact List.mem_append_right _ (List.mem_singleton_self _)

/-! ## Ranges and markers -/

theorem Span.displayRange_snd_le {span : Span} {n : Nat} (hstart : span.start ≤ n)
    (hstop : span.stop ≤ n) : span.displayRange.2 ≤ max 1 n := by
  unfold displayRange
  split
  · exact Nat.le_trans hstop (Nat.le_max_right 1 n)
  · split
    · exact Nat.le_max_left 1 n
    · exact Nat.le_trans hstart (Nat.le_max_right 1 n)

theorem Report.length_marker {first last : Nat} (hfirst : 1 ≤ first) (hlast : first ≤ last) :
    (marker first last).length = last := by
  rw [marker, String.length_ofList, List.length_append, List.length_replicate,
    List.length_replicate]
  omega

/-- Whatever tokens are read, the range of an error counts from one and is not empty. -/
theorem range_of_parseTokens {found : String} {first last : Nat}
    (h : parseTokens options tokens = .error (.unexpected found first last)) :
    1 ≤ first ∧ first ≤ last := by
  rcases parseTokens_cases options tokens with ⟨list, hok⟩ | hdeep | ⟨k, hk⟩
  · rw [hok] at h
    cases h
  · rw [hdeep] at h
    cases h
  · rw [parseTokens_of_blamedIndex? hk] at h
    cases h
    exact ⟨Span.one_le_displayRange_fst _, Span.displayRange_fst_le_snd _⟩

/-- An error names the limit, or describes one token of the text and points at its characters,
which stand within the text and so does the marker below them. -/
theorem parse_error_within_text (options : Options) (text : String) :
    (∀ e, parse options text = .error e →
      e = .nestingTooDeep options.maxDepth ∨
        ∃ t ∈ tokenize text, ∃ first last,
          e = .unexpected t.describe first last ∧ (first, last) = t.span.displayRange ∧
          1 ≤ first ∧ first ≤ last ∧ last ≤ max 1 text.length ∧
          (Report.marker first last).length ≤ max 1 text.length) ∧
      ∀ tokens found first last,
        parseTokens options tokens = .error (.unexpected found first last) →
          1 ≤ first ∧ first ≤ last := by
  refine ⟨fun e h => ?_, fun tokens found first last h => range_of_parseTokens h⟩
  unfold parse at h
  rcases parseTokens_cases options (tokenize text) with ⟨list, hok⟩ | hdeep | ⟨k, hk⟩
  · rw [hok] at h
    cases h
  · rw [hdeep] at h
    cases h
    exact .inl rfl
  · right
    have herror := parseTokens_of_blamedIndex? hk
    have hrange := range_of_parseTokens herror
    rw [herror] at h
    cases h
    have hmem := getOrEnd_mem_tokenize text k
    obtain ⟨hstart, hstop⟩ := span_le_of_mem_tokenize hmem
    have hlast := Span.displayRange_snd_le hstart hstop
    refine ⟨_, hmem, _, _, rfl, rfl, hrange.1, hrange.2, hlast, ?_⟩
    rw [Report.length_marker hrange.1 hrange.2]
    exact hlast

theorem parse_error_within_text_comma :
    parse {} "a," = .error (.unexpected "end of input" 2 2) ∧
      (∃ t ∈ tokenize "a,", t.describe = "end of input") ∧ (Report.marker 2 2).length ≤ 2 := by
  have h : parse {} "a," = .error (.unexpected "end of input" 2 2) := by with_unfolding_all rfl
  rcases (parse_error_within_text {} "a,").1 _ h with
    hdeep | ⟨t, ht, first, last, he, -, -, -, -, hmarker⟩
  · cases hdeep
  · obtain ⟨hfound, rfl, rfl⟩ := SelectorError.unexpected.inj he
    exact ⟨h, ⟨t, ht, hfound.symm⟩, hmarker⟩

end CssSelectors

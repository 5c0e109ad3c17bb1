import CssSelectors.Proofs.Acceptance
import CssSelectors.Proofs.AnPlusB
import Mathlib.Data.List.TakeWhile

/-!
# No token is lost

A selector list written back from its tree has, apart from whitespace and comments, the
tokens it was read from: in the same order, of the same kinds, and the very tokens
wherever the tree holds one. So do the arguments of every function in it.
-/

namespace CssSelectors

open Production

variable {tokens rest : List Token}

/-! ## Significant tokens -/

namespace Token

/-- The tokens before the end of the input without whitespace and comments. -/
def significant (tokens : List Token) : List Token :=
  (beforeEof tokens).filter fun t => !t.isInsignificant

theorem isEof_of_isInsignificant {t : Token} (h : t.isInsignificant = true) : t.isEof = false :=
  isEof_eq_false (fun _ => rfl) h

theorem significant_cons_of_isInsignificant {t : Token} (h : t.isInsignificant = true) :
    significant (t :: tokens) = significant tokens := by
  simp [significant, beforeEof, isEof_of_isInsignificant h, h]

theorem significant_cons {t : Token} (heof : t.isEof = false) (h : t.isInsignificant = false) :
    significant (t :: tokens) = t :: significant tokens := by
  simp [significant, beforeEof, heof, h]

theorem significant_append_of_blank {blank : List Token}
    (h : ∀ t ∈ blank, t.isInsignificant = true) :
    significant (blank ++ tokens) = significant tokens := by
  induction blank with
  | nil => rfl
  | cons t ts ih =>
      obtain ⟨ht, hts⟩ := List.forall_mem_cons.1 h
      rw [List.cons_append, significant_cons_of_isInsignificant ht, ih hts]

theorem significant_append_blank {blank : List Token}
    (h : ∀ t ∈ blank, t.isInsignificant = true) :
    significant (tokens ++ blank) = significant tokens := by
  induction tokens with
  | nil =>
      have hnil : significant (blank ++ []) = significant [] := significant_append_of_blank h
      simpa using hnil
  | cons t ts ih =>
      rw [List.cons_append]
      cases hblank : t.isInsignificant with
      | true =>
          rw [significant_cons_of_isInsignificant hblank,
            significant_cons_of_isInsignificant hblank, ih]
      | false =>
          cases heof : t.isEof with
          | true => simp [significant, beforeEof, heof]
          | false => rw [significant_cons heof hblank, significant_cons heof hblank, ih]

theorem significant_dropWhile (tokens : List Token) :
    significant (tokens.dropWhile isInsignificant) = significant tokens := by
  have h : tokens.takeWhile isInsignificant ++ tokens.dropWhile isInsignificant = tokens :=
    List.takeWhile_append_dropWhile
  conv_rhs => rw [← h]
  exact (significant_append_of_blank all_insignificant_takeWhile).symm

theorem exists_eq_append_trim (tokens : List Token) :
    ∃ front back, tokens = front ++ (trim tokens ++ back) ∧
      (∀ t ∈ front, t.isInsignificant = true) ∧ ∀ t ∈ back, t.isInsignificant = true := by
  let backward := (tokens.dropWhile isInsignificant).reverse
  have hsplit : trim tokens ++ (backward.takeWhile isInsignificant).reverse =
      tokens.dropWhile isInsignificant := by
    rw [trim, ← List.reverse_append, List.takeWhile_append_dropWhile, List.reverse_reverse]
  refine ⟨tokens.takeWhile isInsignificant, (backward.takeWhile isInsignificant).reverse, ?_,
    all_insignificant_takeWhile, fun t ht => all_insignificant_takeWhile t (List.mem_reverse.1 ht)⟩
  rw [hsplit, List.takeWhile_append_dropWhile]

theorem significant_trim (tokens : List Token) :
    significant (trim tokens) = significant tokens := by
  obtain ⟨front, back, htokens, hfront, hback⟩ := exists_eq_append_trim tokens
  calc significant (trim tokens)
      = significant (trim tokens ++ back) := (significant_append_blank hback).symm
    _ = significant (front ++ (trim tokens ++ back)) := (significant_append_of_blank hfront).symm
    _ = significant tokens := by rw [← htokens]

theorem beforeEof_sublist_append (tokens back : List Token) :
    (beforeEof tokens).Sublist (beforeEof (tokens ++ back)) := by
  unfold beforeEof
  rw [List.takeWhile_append]
  split
  · exact (List.takeWhile_sublist _).trans (List.sublist_append_left ..)
  · exact List.Sublist.refl _

theorem beforeEof_trim_sublist (tokens : List Token) :
    (beforeEof (trim tokens)).Sublist (beforeEof tokens) := by
  obtain ⟨front, back, htokens, hfront, -⟩ := exists_eq_append_trim tokens
  have hbefore : beforeEof (front ++ (trim tokens ++ back)) =
      front ++ beforeEof (trim tokens ++ back) :=
    beforeEof_append_of_forall fun t ht => isEof_of_isInsignificant (hfront t ht)
  rw [← htokens] at hbefore
  rw [hbefore]
  exact (beforeEof_sublist_append _ _).trans (List.sublist_append_right ..)

theorem significant_eq_nil_of_atEnd (h : atEnd tokens = true) : significant tokens = [] := by
  obtain ⟨blank, _, hblank, hall, -, rfl⟩ := spells_gap_of_atEnd h
  rw [significant, hblank, List.append_nil, List.filter_eq_nil_iff]
  intro t ht
  simp [hall t ht]

end Token

/-! ## Writing without gaps -/

/-- Whatever spells `left` spells `right` once some of its blank text is left out. -/
def Thins (left right : List Piece) : Prop :=
  ∀ tokens, Spells left tokens [] → ∃ kept, Spells right kept [] ∧ kept.Sublist tokens ∧
    kept.filter (fun t => !t.isInsignificant) = tokens.filter fun t => !t.isInsignificant

namespace Thins

theorem compatible : Compatible Thins where
  refl := fun _ tokens h => ⟨tokens, h, List.Sublist.refl _, rfl⟩
  append := by
    intro left right left' right' h h' tokens hspells
    obtain ⟨middle, hleft, hleft'⟩ := spells_append_iff.1 hspells
    obtain ⟨taken, rfl, htaken⟩ := spells_iff_exists_taken.1 hleft
    obtain ⟨kept, hkept, hsub, hfilter⟩ := h taken htaken
    obtain ⟨kept', hkept', hsub', hfilter'⟩ := h' middle hleft'
    refine ⟨kept ++ kept', (hkept.append_tokens kept').append hkept', hsub.append hsub', ?_⟩
    rw [List.filter_append, List.filter_append, hfilter, hfilter']

theorem nil_of_gap (needed : Bool) : Thins [.gap needed] [] := by
  rintro tokens ⟨blank, _, rfl, hblank, -, rfl⟩
  refine ⟨[], rfl, List.nil_sublist _, ?_⟩
  have hnil : blank.filter (fun t => !t.isInsignificant) = [] := by
    rw [List.filter_eq_nil_iff]
    intro t ht
    simp [hblank t ht]
  rw [List.append_nil, hnil]
  rfl

end Thins

theorem Layout.free_within_bare : Layout.Within Thins .free .bare where
  compatible := Thins.compatible
  bracket := Thins.nil_of_gap false
  operator := Thins.nil_of_gap false
  column := Thins.nil_of_gap true
  comma := Thins.nil_of_gap false
  outer := Thins.nil_of_gap false

/-- The list written back, with nothing where blank text may stand, is the given tokens before
their end without some of the whitespace and comments. -/
def WrittenAs (list : List Selector) (tokens : List Token) : Prop :=
  ∃ kept, Spells (Selector.piecesOfList .bare list) kept [] ∧
    kept.Sublist (Token.beforeEof tokens) ∧
      kept.filter (fun t => !t.isInsignificant) = Token.significant tokens

theorem writtenAs_of_spells {list : List Selector}
    (h : Spells (Selector.piecesOfList .free list) (Token.beforeEof tokens) []) :
    WrittenAs list tokens :=
  Layout.free_within_bare.list list _ h

theorem WrittenAs.of_trim {list : List Selector} (h : WrittenAs list (Token.trim tokens)) :
    WrittenAs list tokens := by
  obtain ⟨kept, hkept, hsub, hfilter⟩ := h
  refine ⟨kept, hkept, hsub.trans (Token.beforeEof_trim_sublist tokens), ?_⟩
  rw [hfilter, Token.significant_trim]

/-! ## An+B -/

namespace Grammar

/-- What the production yields are the significant tokens that it takes. -/
def Gathers (p : Production (List Token)) : Prop :=
  ∀ tokens values rest, p.Matches tokens values rest →
    Token.significant tokens = values ++ Token.significant rest

theorem significant_of_matches_token {accept : Token → Bool} (haccept : Proper accept) {t : Token}
    (h : (token accept).Matches tokens t rest) :
    Token.significant tokens = t :: Token.significant rest := by
  obtain ⟨rfl, ht⟩ := matches_token_iff.1 h
  obtain ⟨hblank, heof⟩ := haccept t ht
  exact Token.significant_cons heof hblank

theorem significant_of_matches_skip {u : Unit} (h : skip.Matches tokens u rest) :
    Token.significant tokens = Token.significant rest := by
  rw [matches_skip_iff.1 h, Token.significant_dropWhile]

theorem gathers_oneToken {accept : Token → Bool} (haccept : Proper accept) :
    Gathers (oneToken (token accept)) := by
  intro tokens values rest h
  simp only [oneToken, matches_bind_iff, matches_pure_iff] at h
  obtain ⟨t, middle, ht, rfl, rfl⟩ := h
  exact significant_of_matches_token haccept ht

theorem gathers_plusThenIdent (accept : String → Bool) : Gathers (plusThenIdent accept) := by
  intro tokens values rest h
  simp only [plusThenIdent, identToken, matches_bind_iff, matches_optional_iff,
    matches_pure_iff] at h
  obtain ⟨plus, middle, hplus, name, _, hname, rfl, rfl⟩ := h
  have hrest := significant_of_matches_token (proper_ident accept) hname
  rcases hplus with ⟨t, rfl, ht⟩ | ⟨-, rfl, rfl⟩
  · rw [significant_of_matches_token (proper_isDelim '+') ht, hrest]
    rfl
  · exact hrest

theorem significant_of_matches_integer {signed : Option Bool} {t : Token}
    (h : (integerToken signed).Matches tokens t rest) :
    Token.significant tokens = t :: Token.significant rest := by
  exact significant_of_matches_token (proper_of_apply fun _ => ⟨rfl, fun _ => rfl, rfl⟩) h

theorem gathers_integer (signed : Option Bool) : Gathers (oneToken (integerToken signed)) := by
  intro tokens values rest h
  simp only [oneToken, matches_bind_iff, matches_pure_iff] at h
  obtain ⟨t, middle, ht, rfl, rfl⟩ := h
  exact significant_of_matches_integer ht

theorem gathers_dimension (accept : String → Bool) :
    Gathers (oneToken (dimensionToken accept)) :=
  gathers_oneToken (proper_of_apply fun _ => ⟨rfl, fun _ => rfl, rfl⟩)

theorem gathers_ident (accept : String → Bool) : Gathers (oneToken (identToken accept)) :=
  gathers_oneToken (proper_ident accept)

theorem gathers_firstOf {ps : List (Production (List Token))} (h : ∀ p ∈ ps, Gathers p) :
    Gathers (firstOf ps) := by
  intro tokens values rest hmatches
  obtain ⟨p, hp, hmatches⟩ := hmatches.exists_mem_firstOf
  exact h p hp tokens values rest hmatches

theorem gathers_nStep : Gathers nStep := by
  apply gathers_firstOf
  simp only [List.forall_mem_cons, List.not_mem_nil, false_implies, implies_true, and_true]
  exact ⟨gathers_dimension _, gathers_plusThenIdent _, gathers_ident _⟩

theorem gathers_nDashStep : Gathers nDashStep := by
  apply gathers_firstOf
  simp only [List.forall_mem_cons, List.not_mem_nil, false_implies, implies_true, and_true]
  exact ⟨gathers_dimension _, gathers_plusThenIdent _, gathers_ident _⟩

theorem gathers_offset {step : Production (List Token)} (hstep : Gathers step)
    (signed : Option Bool) :
    Gathers (do
      let values ← step
      skip
      let offset ← integerToken signed
      return values ++ [offset]) := by
  intro tokens values rest h
  simp only [matches_bind_iff, matches_pure_iff] at h
  obtain ⟨values, _, hvalues, _, _, hskip, offset, _, hoffset, rfl, rfl⟩ := h
  rw [hstep _ _ _ hvalues, significant_of_matches_skip hskip,
    significant_of_matches_integer hoffset, List.append_assoc]
  rfl

theorem gathers_nSignSignless (sign : Char) : Gathers (nSignSignless sign) := by
  intro tokens values rest h
  simp only [nSignSignless, matches_bind_iff, matches_pure_iff] at h
  obtain ⟨values, _, hvalues, _, _, hskip, delim, _, hdelim, _, _, hskip', offset, _, hoffset,
    rfl, rfl⟩ := h
  rw [gathers_nStep _ _ _ hvalues, significant_of_matches_skip hskip,
    significant_of_matches_token (proper_isDelim sign) hdelim, significant_of_matches_skip hskip',
    significant_of_matches_integer hoffset, List.append_assoc]
  rfl

theorem gathers_anPlusBProductions : ∀ p ∈ anPlusBProductions, Gathers p := by
  simp only [anPlusBProductions, List.forall_mem_cons, List.not_mem_nil, false_implies,
    implies_true, and_true]
  exact ⟨gathers_ident _, gathers_ident _, gathers_integer _, gathers_dimension _,
    gathers_plusThenIdent _, gathers_ident _, gathers_dimension _, gathers_plusThenIdent _,
    gathers_ident _, gathers_offset gathers_nStep _, gathers_offset gathers_nDashStep _,
    gathers_nSignSignless _, gathers_nSignSignless _⟩

theorem values_of_matches_anPlusB {value : AnPlusB} (h : anPlusB.Matches tokens value rest) :
    value.values = Token.significant tokens := by
  obtain ⟨p, hp, values, middle, hmatches, hend, hvalue⟩ := matches_anPlusB h
  have hgathers := gathers_anPlusBProductions p hp tokens values middle hmatches
  rw [Token.significant_eq_nil_of_atEnd hend, List.append_nil] at hgathers
  rw [(AnPlusB.derive_of_ofTokens? hvalue).1, hgathers]

end Grammar

/-! ## The arguments of functions -/

def Arguments.Keeps (tokens : List Token) : Arguments → Prop
  | .empty => ∀ t ∈ tokens, t.isInsignificant = true
  | .anPlusB value => value.values = Token.significant tokens
  | .selectors list => WrittenAs list tokens
  | .raw kept => kept = Token.trim tokens

namespace Grammar

theorem Says.keeps {inner : Grammar} (hg : inner.Sealed) {arguments : Arguments}
    (h : Says inner (Token.trim tokens) arguments) : arguments.Keeps tokens := by
  cases h with
  | anPlusB h =>
      have hvalues := values_of_matches_anPlusB h
      rwa [Token.significant_trim] at hvalues
  | selectors _ h hend =>
      obtain ⟨-, hspells⟩ := (exists_matches_wholeList_iff hg).1 ⟨_, h, hend⟩
      exact (writtenAs_of_spells hspells).of_trim
  | raw _ _ _ => rfl

theorem isInsignificant_of_trim_eq_nil (h : Token.trim tokens = []) :
    ∀ t ∈ tokens, t.isInsignificant = true := by
  unfold Token.trim at h
  rw [List.reverse_eq_nil_iff, List.dropWhile_eq_nil_iff] at h
  have hdrop : tokens.dropWhile Token.isInsignificant = [] := by
    cases hdrop : tokens.dropWhile Token.isInsignificant with
    | nil => rfl
    | cons t ts =>
        have hsolid : Solid (tokens.dropWhile Token.isInsignificant) := solid_dropWhile
        have ht := h t (by simp [hdrop])
        rw [hdrop, solid_cons_iff, ht] at hsolid
        cases hsolid
  exact List.dropWhile_eq_nil_iff.1 hdrop

theorem keeps_of_yields {dialect : Dialect} {levels : Nat} {function : Token}
    {arguments : Arguments} (h : (ofLevels dialect levels).Yields function arguments) :
    arguments.Keeps (function.arguments?.getD []) := by
  by_cases hnil : argumentTokens function = []
  · obtain rfl := (yields_empty_iff hnil).1 h
    exact isInsignificant_of_trim_eq_nil hnil
  · cases levels with
    | zero => exact absurd h (not_yields_zero hnil)
    | succ levels =>
        have hsays := (yields_succ_iff hnil).1 h
        exact hsays.keeps (sealed_ofLevels dialect levels)

theorem Accepts.keeps {dialect : Dialect} {levels depth : Nat} {list : List Selector}
    {function : Token} {arguments : Arguments} (h : (ofLevels dialect levels).Accepts list)
    (hcall : CallAt list depth function arguments) :
    ∃ tokens, function.arguments? = some tokens ∧ arguments.Keeps tokens := by
  obtain ⟨hfunction, deeper, -, hyields⟩ := h.yields_of_callAt hcall
  have hkeeps := keeps_of_yields hyields
  obtain ⟨name, tokens, span, rfl⟩ := Token.isFunction_iff.1 hfunction
  exact ⟨tokens, rfl, hkeeps⟩

end Grammar

/-- No token is lost, invented or moved: a list that was read, written back, has the
significant tokens it was read from, and so have the arguments of all functions in it. -/
theorem parse_conserves_tokens {options : Options} {list : List Selector}
    (h : parseTokens options tokens = .ok list) :
    WrittenAs list tokens ∧
      ∀ depth function arguments, CallAt list depth function arguments →
        ∃ inner, function.arguments? = some inner ∧ arguments.Keeps inner := by
  obtain ⟨hlist, hspells⟩ := parseTokens_eq_ok_iff.1 h
  refine ⟨writtenAs_of_spells hspells, ?_⟩
  intro depth function arguments hcall
  exact hlist.keeps hcall

theorem parse_conserves_tokens_nested :
    ∃ list, parseTokens {} [.atom (.ident "a") ⟨0, 1⟩, .atom .colon ⟨1, 2⟩,
        .function "is" [.atom (.delim '.') ⟨5, 6⟩, .atom (.ident "b") ⟨6, 7⟩] ⟨2, 8⟩,
        .atom .eof ⟨8, 8⟩] = .ok list ∧
      WrittenAs list [.atom (.ident "a") ⟨0, 1⟩, .atom .colon ⟨1, 2⟩,
        .function "is" [.atom (.delim '.') ⟨5, 6⟩, .atom (.ident "b") ⟨6, 7⟩] ⟨2, 8⟩,
        .atom .eof ⟨8, 8⟩] ∧
      ∀ depth function arguments, CallAt list depth function arguments →
        ∃ inner, function.arguments? = some inner ∧ arguments.Keeps inner := by
  let b : Token := .atom (.ident "b") ⟨6, 7⟩
  let call : PseudoClass := .function (.function "is" [.atom (.delim '.') ⟨5, 6⟩, b] ⟨2, 8⟩)
    (.selectors [.complex (.last ⟨none, [.className b], []⟩)])
  have h : parseTokens {} [.atom (.ident "a") ⟨0, 1⟩, .atom .colon ⟨1, 2⟩,
      .function "is" [.atom (.delim '.') ⟨5, 6⟩, .atom (.ident "b") ⟨6, 7⟩] ⟨2, 8⟩,
      .atom .eof ⟨8, 8⟩] = .ok [.complex (.last
        ⟨some (.name ⟨none, .atom (.ident "a") ⟨0, 1⟩⟩), [.pseudoClass call], []⟩)] := by
    with_unfolding_all rfl
  exact ⟨_, h, parse_conserves_tokens h⟩

end CssSelectors

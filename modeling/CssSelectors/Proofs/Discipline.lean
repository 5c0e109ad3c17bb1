import CssSelectors.Proofs.Blame
import CssSelectors.Proofs.Cursor

/-!
# The discipline of the cursor

Whatever a production does to a parser, the tokens and the limits stay as they are, the place stays
within the tokens, and the furthest place never goes back. A production that matches has gone
forward, and not past the end of the text. It is for this that the loops of the grammar end: each of
their rounds gives an item only behind at least one further token.
-/

namespace CssSelectors

variable {α β : Type} {dialect : Dialect} {levels : Nat} {tokens rest : List Token}

namespace Production

variable {p q : Production α} {f : α → Production β}

/-- A parser can carry the production out, and nothing is read past the end of the text. -/
structure Steady (dialect : Dialect) (levels : Nat) (p : Production α) : Prop where
  acts : ∃ m, Acts dialect levels p m
  advances : p.Advances

structure Forward (dialect : Dialect) (levels : Nat) (p : Production α) : Prop
    extends Steady dialect levels p where
  consumes : p.Consumes

/-! ## Steady productions -/

theorem Advances.length_le (hp : p.Advances) {a : α} (h : p.Matches tokens a rest) :
    rest.length ≤ tokens.length :=
  (hp.passes_of_matches h).suffix.length_le

theorem steady_pure (a : α) : (pure a : Production α).Steady dialect levels where
  acts := ⟨_, .pure a⟩
  advances := advances_pure a

theorem steady_fail : (fail : Production α).Steady dialect levels where
  acts := ⟨_, .fail⟩
  advances := advances_fail

theorem steady_insignificant : insignificant.Steady dialect levels where
  acts := ⟨_, .insignificant⟩
  advances := advances_insignificant

theorem steady_endOfInput : endOfInput.Steady dialect levels where
  acts := ⟨_, .endOfInput⟩
  advances := by
    rw [Grammar.endOfInput_eq]
    refine (advances_insignificant.bind fun _ => advances_pure _).bind fun _ => ?_
    intro tokens rest h
    obtain rfl : tokens = rest := by
      unfold Grammar.endHere at h
      split at h <;> exact Option.some.inj h
    exact .refl tokens

theorem Steady.bind (hp : p.Steady dialect levels) (hf : ∀ a, (f a).Steady dialect levels) :
    (p >>= f).Steady dialect levels := by
  obtain ⟨m, hm⟩ := hp.acts
  choose k hk using fun a => (hf a).acts
  exact ⟨⟨_, .bind hm hk⟩, hp.advances.bind fun a => (hf a).advances⟩

theorem Steady.map (hp : p.Steady dialect levels) (f : α → β) :
    (f <$> p).Steady dialect levels := by
  obtain ⟨m, hm⟩ := hp.acts
  exact ⟨⟨_, .map f hm⟩, hp.advances.map f⟩

theorem Steady.orElse (hp : p.Steady dialect levels) (hq : q.Steady dialect levels) :
    (orElse p q).Steady dialect levels := by
  obtain ⟨m, hm⟩ := hp.acts
  obtain ⟨m', hm'⟩ := hq.acts
  exact ⟨⟨_, .orElse hm hm'⟩, hp.advances.orElse hq.advances⟩

theorem Steady.optional (hp : p.Steady dialect levels) : (optional p).Steady dialect levels :=
  (hp.map some).orElse (steady_pure none)

theorem steady_skip : skip.Steady dialect levels :=
  steady_insignificant.bind fun _ => steady_pure ()

/-- A loop can be carried out if all of its rounds take tokens, since it ends then. -/
theorem Steady.iterate {step : Production (Option α)} (hp : step.Steady dialect levels)
    (hstep : Shortens step) : (iterate step).Steady dialect levels := by
  obtain ⟨round, hround⟩ := hp.acts
  have hends (s : Parser) : ∃ r, s.Fits dialect levels → Loop round s r := by
    by_cases hs : s.Fits dialect levels
    · obtain ⟨r, hr⟩ := Agrees.exists_loop hround.follows hstep hs
      exact ⟨r, fun _ => hr⟩
    · exact ⟨Action.fail s, fun hs' => absurd hs' hs⟩
  choose m hm using hends
  exact ⟨⟨m, .iterate hround hm⟩, hp.advances.iterate⟩

/-! ## Productions that go forward -/

theorem forward_fail : (fail : Production α).Forward dialect levels where
  toSteady := steady_fail
  consumes := fun _ _ _ h => absurd h not_matches_fail

theorem forward_token {accept : Token → Bool}
    (haccept : ∀ span, accept (.atom .eof span) = false) :
    (token accept).Forward dialect levels where
  acts := ⟨_, .token accept⟩
  advances := advances_token haccept
  consumes := by
    intro tokens t rest h
    obtain ⟨rfl, -⟩ := matches_token_iff.1 h
    exact Nat.lt_succ_self _

theorem Forward.bind (hp : p.Forward dialect levels) (hf : ∀ a, (f a).Steady dialect levels) :
    (p >>= f).Forward dialect levels where
  toSteady := hp.toSteady.bind hf
  consumes := by
    intro tokens b rest h
    obtain ⟨a, middle, ha, hb⟩ := matches_bind_iff.1 h
    exact Nat.lt_of_le_of_lt ((hf a).advances.length_le hb) (hp.consumes _ _ _ ha)

theorem Steady.bind_forward (hp : p.Steady dialect levels)
    (hf : ∀ a, (f a).Forward dialect levels) : (p >>= f).Forward dialect levels where
  toSteady := hp.bind fun a => (hf a).toSteady
  consumes := by
    intro tokens b rest h
    obtain ⟨a, middle, ha, hb⟩ := matches_bind_iff.1 h
    exact Nat.lt_of_lt_of_le ((hf a).consumes _ _ _ hb) (hp.advances.length_le ha)

theorem Forward.map (hp : p.Forward dialect levels) (f : α → β) :
    (f <$> p).Forward dialect levels where
  toSteady := hp.toSteady.map f
  consumes := by
    intro tokens b rest h
    obtain ⟨a, -, ha⟩ := matches_map_iff.1 h
    exact hp.consumes _ _ _ ha

theorem Forward.orElse (hp : p.Forward dialect levels) (hq : q.Forward dialect levels) :
    (orElse p q).Forward dialect levels where
  toSteady := hp.toSteady.orElse hq.toSteady
  consumes := by
    intro tokens a rest h
    rcases matches_orElse_iff.1 h with h | ⟨-, h⟩
    · exact hp.consumes _ _ _ h
    · exact hq.consumes _ _ _ h

theorem forward_firstOf_nil : (firstOf ([] : List (Production α))).Forward dialect levels :=
  forward_fail

theorem Forward.firstOf_cons {ps : List (Production α)} (hp : p.Forward dialect levels)
    (hps : (firstOf ps).Forward dialect levels) : (firstOf (p :: ps)).Forward dialect levels :=
  hp.orElse hps

theorem forward_firstOf {ps : List (Production α)} (h : ∀ p ∈ ps, p.Forward dialect levels) :
    (firstOf ps).Forward dialect levels := by
  induction ps with
  | nil => exact forward_firstOf_nil
  | cons p ps ih =>
      obtain ⟨hp, hps⟩ := List.forall_mem_cons.1 h
      exact hp.firstOf_cons (ih hps)

theorem Forward.many (hp : p.Forward dialect levels) : (many p).Steady dialect levels :=
  hp.toSteady.optional.iterate hp.consumes.shortens_optional

theorem Forward.lt_of_matches_many (hp : p.Forward dialect levels) {as : List α}
    (h : (Production.many p).Matches tokens as rest) (hne : as ≠ []) :
    rest.length < tokens.length := by
  rcases hp.consumes.cases_many h with ⟨rfl, -⟩ | ⟨a, others, middle, -, ha, hothers⟩
  · exact absurd rfl hne
  · exact Nat.lt_of_le_of_lt (hp.many.advances.length_le hothers) (hp.consumes _ _ _ ha)

theorem Forward.lt_of_matches_optional (hp : p.Forward dialect levels) {a : Option α}
    (h : (Production.optional p).Matches tokens a rest) (hne : a ≠ none) :
    rest.length < tokens.length := by
  obtain ⟨a, rfl⟩ := Option.ne_none_iff_exists'.1 hne
  exact hp.consumes.shortens_optional _ _ _ h

/-- Where the first production may be missing, the next one has to take tokens in its place. -/
theorem Forward.optional_bind (hp : p.Forward dialect levels) {f : Option α → Production β}
    (hnone : (f none).Forward dialect levels) (hsome : ∀ a, (f (some a)).Steady dialect levels) :
    (Production.optional p >>= f).Forward dialect levels := by
  have hf (a : Option α) : (f a).Steady dialect levels := by
    cases a with
    | none => exact hnone.toSteady
    | some a => exact hsome a
  refine ⟨hp.optional.bind hf, ?_⟩
  intro tokens b rest h
  obtain ⟨a, middle, ha, hb⟩ := matches_bind_iff.1 h
  cases a with
  | none =>
      exact Nat.lt_of_lt_of_le (hnone.consumes _ _ _ hb) (hp.optional.advances.length_le ha)
  | some a =>
      have hlt := hp.lt_of_matches_optional ha (Option.some_ne_none a)
      exact Nat.lt_of_le_of_lt ((hsome a).advances.length_le hb) hlt

theorem steady_spelled (symbol : List Char) : (spelled symbol).Steady dialect levels := by
  induction symbol with
  | nil => exact steady_pure []
  | cons c cs ih =>
      exact (forward_token fun _ => rfl).toSteady.bind fun _ => ih.bind fun _ => steady_pure _

theorem forward_spelled {symbol : List Char} (hne : symbol ≠ []) :
    (spelled symbol).Forward dialect levels := by
  obtain ⟨c, cs, rfl⟩ := List.exists_cons_of_ne_nil hne
  exact (forward_token fun _ => rfl).bind fun _ => (steady_spelled cs).bind fun _ => steady_pure _

end Production

namespace Grammar

open Production

variable {d : Dialect} {g : Grammar}

/-! ## Names and attributes -/

theorem forward_word (text : String) : (word text).Forward dialect levels :=
  forward_token fun _ => rfl

theorem forward_nsPrefix : nsPrefix.Forward dialect levels := by
  have hvalue : nsValue.Forward dialect levels :=
    (forward_token fun _ => rfl).firstOf_cons <|
      (forward_token fun _ => rfl).firstOf_cons forward_firstOf_nil
  exact hvalue.optional.bind_forward fun _ =>
    (forward_token fun _ => rfl).bind fun _ => steady_pure _

theorem forward_qualifiedName : qualifiedName.Forward dialect levels := by
  have hprefixed : prefixedName.Forward dialect levels :=
    forward_nsPrefix.bind fun _ =>
      (forward_token fun _ => rfl).toSteady.bind fun _ => steady_pure _
  have hplain : plainName.Forward dialect levels :=
    (forward_token fun _ => rfl).bind fun _ => steady_pure _
  exact hprefixed.firstOf_cons (hplain.firstOf_cons forward_firstOf_nil)

theorem forward_standardType : standardType.Forward dialect levels := by
  have huniversal : universal.Forward dialect levels :=
    forward_nsPrefix.optional.bind_forward fun _ =>
      (forward_token fun _ => rfl).bind fun _ => steady_pure _
  exact huniversal.firstOf_cons ((forward_qualifiedName.map _).firstOf_cons forward_firstOf_nil)

theorem forward_typeSelector : (typeSelector d).Forward dialect levels := by
  cases d with
  | standard => exact forward_standardType
  | extended =>
      exact ((forward_token fun _ => rfl).map _).firstOf_cons <|
        ((forward_token fun _ => rfl).map _).firstOf_cons <|
          forward_standardType.firstOf_cons forward_firstOf_nil

theorem forward_matcher (kind : MatcherKind) : (matcher kind).Forward dialect levels := by
  have hne : kind.symbol ≠ [] := by cases kind <;> decide
  exact (forward_spelled hne).bind fun _ => steady_pure _

theorem forward_standardMatcher : standardMatcher.Forward dialect levels := by
  rw [standardMatcher_eq]
  apply forward_firstOf
  intro p hp
  obtain ⟨kind, -, rfl⟩ := List.mem_map.1 hp
  exact forward_matcher kind

theorem forward_attributeMatcher : (attributeMatcher d).Forward dialect levels := by
  cases d with
  | standard => exact forward_standardMatcher
  | extended =>
      exact (forward_matcher _).firstOf_cons <|
        forward_standardMatcher.firstOf_cons forward_firstOf_nil

theorem forward_attributeModifier : attributeModifier.Forward dialect levels :=
  ((forward_word _).bind fun _ => steady_pure _).firstOf_cons <|
    ((forward_word _).bind fun _ => steady_pure _).firstOf_cons forward_firstOf_nil

theorem forward_attributeTest : (attributeTest d).Forward dialect levels := by
  have hvalue : attributeValue.Forward dialect levels :=
    (forward_token fun _ => rfl).firstOf_cons <| (forward_token fun _ => rfl).firstOf_cons <|
      (forward_token fun _ => rfl).firstOf_cons forward_firstOf_nil
  have htail (f : Option AttributeModifier → AttributeTest) :
      (modifierTail f).Steady dialect levels :=
    steady_skip.bind fun _ => forward_attributeModifier.optional.bind fun _ =>
      steady_skip.bind fun _ => (forward_token fun _ => rfl).toSteady.bind fun _ => steady_pure _
  rw [attributeTest_eq]
  exact forward_attributeMatcher.bind fun _ => steady_skip.bind fun _ =>
    hvalue.toSteady.bind fun _ => htail _

theorem forward_attributeTail : (attributeTail d).Forward dialect levels :=
  (forward_token fun _ => rfl).optional_bind (forward_attributeTest.map some) fun _ =>
    steady_pure none

theorem forward_standardAttribute : (standardAttribute d).Forward dialect levels :=
  (forward_token fun _ => rfl).bind fun _ => steady_skip.bind fun _ =>
    forward_qualifiedName.toSteady.bind fun _ => steady_skip.bind fun _ =>
      forward_attributeTail.toSteady.bind fun _ => steady_pure _

theorem forward_bracketedSubject {accept : Token → Bool}
    (haccept : ∀ span, accept (.atom .eof span) = false) :
    (bracketedSubject accept).Forward dialect levels :=
  (forward_token fun _ => rfl).bind fun _ => steady_skip.bind fun _ =>
    (forward_token haccept).toSteady.bind fun _ => steady_skip.bind fun _ => steady_pure _

theorem forward_attributeSelector : (attributeSelector d).Forward dialect levels := by
  have hsubject (accept : Token → Bool) (name : Token → AttributeName)
      (haccept : ∀ span, accept (.atom .eof span) = false) :
      (subjectSelector accept name).Forward dialect levels :=
    (forward_bracketedSubject haccept).bind fun _ =>
      forward_attributeTail.toSteady.bind fun _ => steady_pure _
  have hposition : positionSelector.Forward dialect levels :=
    (forward_bracketedSubject fun _ => rfl).bind fun _ =>
      (forward_token fun _ => rfl).toSteady.bind fun _ => steady_pure _
  cases d with
  | standard => exact forward_standardAttribute
  | extended =>
      exact forward_standardAttribute.firstOf_cons <|
        (hsubject _ .atKeyword fun _ => rfl).firstOf_cons <| hposition.firstOf_cons <|
          (hsubject _ .xpath fun _ => rfl).firstOf_cons forward_firstOf_nil

/-! ## Combinators -/

theorem forward_operator {kind : CombinatorKind} {symbol : List Char} (hne : symbol ≠ []) :
    (operator kind symbol).Forward dialect levels :=
  steady_skip.bind_forward fun _ => (forward_spelled hne).bind fun _ =>
    steady_skip.bind fun _ => steady_pure _

theorem forward_descendantCombinator : descendantCombinator.Forward dialect levels := by
  refine ⟨?_, ?_⟩
  · refine steady_insignificant.bind fun blank => ?_
    split
    · exact steady_pure _
    · exact steady_fail
  · intro tokens c rest h
    obtain ⟨⟨-, -, t, ht, -⟩, rfl, -⟩ := matches_descendantCombinator_iff.1 h
    have hpos := List.length_pos_of_mem ht
    rw [List.length_append]
    omega

theorem forward_standardCombinator : standardCombinator.Forward dialect levels :=
  (forward_operator (by decide)).firstOf_cons <| (forward_operator (by decide)).firstOf_cons <|
    (forward_operator (by decide)).firstOf_cons <| (forward_operator (by decide)).firstOf_cons <|
      forward_descendantCombinator.firstOf_cons forward_firstOf_nil

theorem forward_combinator : (combinator d).Forward dialect levels := by
  cases d with
  | standard => exact forward_standardCombinator
  | extended =>
      exact (forward_operator (by decide)).firstOf_cons <|
        (forward_operator (by decide)).firstOf_cons <|
          forward_standardCombinator.firstOf_cons forward_firstOf_nil

/-! ## Compounds, chains and lists -/

theorem forward_comma : comma.Forward dialect levels :=
  steady_skip.bind_forward fun _ => forward_token fun _ => rfl

section Lists

variable {item : Production α} (hitem : item.Forward dialect levels)
include hitem

theorem steady_nextItem : (nextItem item).Steady dialect levels := by
  refine forward_comma.optional.bind fun t => ?_
  cases t with
  | none => exact steady_pure none
  | some _ => exact steady_skip.bind fun _ => hitem.toSteady.map some

theorem shortens_nextItem_of_forward : Shortens (nextItem item) := by
  have hcomma : comma.Forward dialect levels := forward_comma
  intro tokens a rest h
  obtain ⟨t, middle, ht, hnext⟩ := matches_bind_iff.1 h
  cases t with
  | none =>
      obtain ⟨hnone, -⟩ := matches_pure_iff.1 hnext
      cases hnone
  | some t =>
      have hrest := (steady_skip.bind fun _ => hitem.toSteady.map some).advances.length_le hnext
      exact Nat.lt_of_le_of_lt hrest (hcomma.lt_of_matches_optional ht (Option.some_ne_none t))

end Lists

section Arguments

variable (hg : ∀ function, (g.arguments function).Steady dialect levels)
include hg

theorem forward_functionCall : (functionCall g).Forward dialect levels :=
  (forward_token fun _ => rfl).bind fun function => (hg function).bind fun _ => steady_pure _

theorem forward_pseudoClass : (pseudoClass g).Forward dialect levels := by
  have hselector : (firstOf [.plain <$> token Token.isIdent, functionCall g]).Forward
      dialect levels :=
    ((forward_token fun _ => rfl).map _).firstOf_cons <|
      (forward_functionCall hg).firstOf_cons forward_firstOf_nil
  exact (forward_token fun _ => rfl).bind fun _ => hselector.toSteady

theorem forward_pseudoElement : (pseudoElement g).Forward dialect levels :=
  (forward_token fun _ => rfl).bind fun _ => (forward_pseudoClass hg).toSteady.bind fun _ =>
    (forward_pseudoClass hg).many.bind fun _ => steady_pure _

omit hg in
theorem forward_classSelector : classSelector.Forward dialect levels :=
  (forward_token fun _ => rfl).bind fun _ => (forward_token fun _ => rfl).toSteady

theorem forward_subclass : (subclass g).Forward dialect levels :=
  ((forward_token fun _ => rfl).map _).firstOf_cons <|
    (forward_classSelector.map _).firstOf_cons <|
      (forward_attributeSelector.map _).firstOf_cons <|
        ((forward_pseudoClass hg).map _).firstOf_cons forward_firstOf_nil

theorem forward_compound : (compound g).Forward dialect levels := by
  have htype : (typeSelector g.dialect).Forward dialect levels := forward_typeSelector
  have hsubclass := forward_subclass hg
  have helement := forward_pseudoElement hg
  rw [compound_eq]
  refine ⟨?_, ?_⟩
  · refine htype.optional.bind fun _ => hsubclass.many.bind fun _ => helement.many.bind fun _ => ?_
    unfold ofParts
    split
    · exact steady_pure _
    · exact steady_fail
  · intro tokens c rest h
    simp only [matches_bind_iff, matches_ofParts_iff] at h
    obtain ⟨selector, m₁, hselector, parts, m₂, hparts, elements, m₃, helements, -, rfl, hsome⟩ := h
    have hle₁ := htype.optional.advances.length_le hselector
    have hle₂ := hsubclass.many.advances.length_le hparts
    have hle₃ := helement.many.advances.length_le helements
    rcases hsome with hsome | hsome | hsome
    · have := htype.lt_of_matches_optional hselector hsome
      omega
    · have := hsubclass.lt_of_matches_many hparts hsome
      omega
    · have := helement.lt_of_matches_many helements hsome
      omega

theorem forward_link : (link g).Forward dialect levels :=
  forward_combinator.bind fun _ => (forward_compound hg).toSteady.bind fun _ => steady_pure _

theorem forward_complexSelector : (complexSelector g).Forward dialect levels :=
  (forward_compound hg).bind fun _ => (forward_link hg).many.bind fun _ => steady_pure _

theorem forward_relativeSelector : (relativeSelector g).Forward dialect levels :=
  forward_combinator.optional.bind_forward fun _ =>
    (forward_complexSelector hg).bind fun _ => steady_pure _

theorem forward_selector : (selector g).Forward dialect levels :=
  ((forward_complexSelector hg).map _).firstOf_cons <|
    (forward_relativeSelector hg).firstOf_cons forward_firstOf_nil

theorem forward_selectorList : (selectorList g).Forward dialect levels :=
  (forward_selector hg).bind fun _ =>
    ((steady_nextItem (forward_selector hg)).iterate
      (shortens_nextItem_of_forward (forward_selector hg))).bind fun _ => steady_pure _

theorem forward_wholeList : (wholeList g).Forward dialect levels :=
  steady_skip.bind_forward fun _ => forward_selectorList hg

end Arguments

/-! ## An+B -/

theorem forward_oneToken {p : Production Token} (hp : p.Forward dialect levels) :
    (oneToken p).Forward dialect levels :=
  hp.bind fun _ => steady_pure _

theorem forward_dimensionToken (accept : String → Bool) :
    (dimensionToken accept).Forward dialect levels :=
  forward_token fun _ => rfl

theorem forward_integerToken (signed : Option Bool) :
    (integerToken signed).Forward dialect levels :=
  forward_token fun _ => rfl

theorem forward_identToken (accept : String → Bool) : (identToken accept).Forward dialect levels :=
  forward_token fun _ => rfl

theorem forward_plusThenIdent (accept : String → Bool) :
    (plusThenIdent accept).Forward dialect levels :=
  (forward_token fun _ => rfl).optional.bind_forward fun _ =>
    (forward_identToken accept).bind fun _ => steady_pure _

theorem forward_nStep : nStep.Forward dialect levels :=
  (forward_oneToken (forward_dimensionToken _)).firstOf_cons <|
    (forward_plusThenIdent _).firstOf_cons <|
      (forward_oneToken (forward_identToken _)).firstOf_cons forward_firstOf_nil

theorem forward_nDashStep : nDashStep.Forward dialect levels :=
  (forward_oneToken (forward_dimensionToken _)).firstOf_cons <|
    (forward_plusThenIdent _).firstOf_cons <|
      (forward_oneToken (forward_identToken _)).firstOf_cons forward_firstOf_nil

theorem forward_nSigned : nSigned.Forward dialect levels :=
  forward_nStep.bind fun _ => steady_skip.bind fun _ =>
    (forward_integerToken _).toSteady.bind fun _ => steady_pure _

theorem forward_nDashSignless : nDashSignless.Forward dialect levels :=
  forward_nDashStep.bind fun _ => steady_skip.bind fun _ =>
    (forward_integerToken _).toSteady.bind fun _ => steady_pure _

theorem forward_nSignSignless (sign : Char) : (nSignSignless sign).Forward dialect levels :=
  forward_nStep.bind fun _ => steady_skip.bind fun _ =>
    (forward_token fun _ => rfl).toSteady.bind fun _ => steady_skip.bind fun _ =>
      (forward_integerToken _).toSteady.bind fun _ => steady_pure _

theorem forward_anPlusBProductions : ∀ p ∈ anPlusBProductions, p.Forward dialect levels := by
  simp only [anPlusBProductions, List.forall_mem_cons, List.not_mem_nil, false_implies,
    implies_true, and_true]
  exact ⟨forward_oneToken (forward_word _), forward_oneToken (forward_word _),
    forward_oneToken (forward_integerToken _), forward_oneToken (forward_dimensionToken _),
    forward_plusThenIdent _, forward_oneToken (forward_identToken _),
    forward_oneToken (forward_dimensionToken _), forward_plusThenIdent _,
    forward_oneToken (forward_identToken _), forward_nSigned, forward_nDashSignless,
    forward_nSignSignless _, forward_nSignSignless _⟩

theorem forward_toEnd {p : Production (List Token)} (hp : p.Forward dialect levels) :
    (toEnd p).Forward dialect levels :=
  hp.bind fun _ => steady_endOfInput.bind fun _ => steady_pure _

theorem forward_anPlusB : anPlusB.Forward dialect levels := by
  have hvalues : (firstOf (anPlusBProductions.map toEnd)).Forward dialect levels := by
    apply forward_firstOf
    intro q hq
    obtain ⟨p, hp, rfl⟩ := List.mem_map.1 hq
    exact forward_toEnd (forward_anPlusBProductions p hp)
  refine hvalues.bind fun values => ?_
  split
  · exact steady_pure _
  · exact steady_fail

/-! ## Arguments -/

theorem steady_readArguments (function : Token) :
    (readArguments dialect levels function).Steady dialect levels := by
  refine ⟨?_, (heeds_readArguments levels function).advances⟩
  induction levels generalizing function with
  | zero => exact ⟨.functionArguments .fail .fail function, .tooDeep function⟩
  | succ levels ih =>
      have hg (function : Token) : ((ofLevels dialect levels).arguments function).Steady
          dialect levels :=
        ⟨ih function, (heeds_readArguments levels function).advances⟩
      have hplus : anPlusB.Forward dialect levels := forward_anPlusB
      obtain ⟨value, hvalue⟩ := hplus.acts
      obtain ⟨list, hlist⟩ := (forward_selectorList hg).acts
      exact ⟨_, .arguments function hvalue hlist⟩

/-! ## All of the productions -/

/-- The productions of the grammar, of both dialects and of An+B. Single tokens are told by what is
accepted, which is never the end of the text. -/
inductive IsRule (g : Grammar) : {α : Type} → Production α → Prop
  | token {accept : Token → Bool} (h : ∀ span, accept (.atom .eof span) = false) :
      IsRule g (token accept)
  | nsPrefix : IsRule g nsPrefix
  | qualifiedName : IsRule g qualifiedName
  | standardType : IsRule g standardType
  | typeSelector (d : Dialect) : IsRule g (typeSelector d)
  | matcher (kind : MatcherKind) : IsRule g (matcher kind)
  | standardMatcher : IsRule g standardMatcher
  | attributeMatcher (d : Dialect) : IsRule g (attributeMatcher d)
  | attributeModifier : IsRule g attributeModifier
  | attributeTest (d : Dialect) : IsRule g (attributeTest d)
  | attributeTail (d : Dialect) : IsRule g (attributeTail d)
  | standardAttribute (d : Dialect) : IsRule g (standardAttribute d)
  | bracketedSubject {accept : Token → Bool} (h : ∀ span, accept (.atom .eof span) = false) :
      IsRule g (bracketedSubject accept)
  | attributeSelector (d : Dialect) : IsRule g (attributeSelector d)
  | operator (kind : CombinatorKind) {symbol : List Char} (h : symbol ≠ []) :
      IsRule g (operator kind symbol)
  | descendantCombinator : IsRule g descendantCombinator
  | standardCombinator : IsRule g standardCombinator
  | combinator (d : Dialect) : IsRule g (combinator d)
  | functionCall : IsRule g (functionCall g)
  | pseudoClass : IsRule g (pseudoClass g)
  | doubleColon : IsRule g (do
      let _ ← Production.token Token.isColon
      pseudoClass g)
  | pseudoElement : IsRule g (pseudoElement g)
  | classSelector : IsRule g classSelector
  | subclass : IsRule g (subclass g)
  | compound : IsRule g (compound g)
  | link : IsRule g (link g)
  | complexSelector : IsRule g (complexSelector g)
  | relativeSelector : IsRule g (relativeSelector g)
  | selector : IsRule g (selector g)
  | selectorList : IsRule g (selectorList g)
  | wholeList : IsRule g (wholeList g)
  | plusThenIdent (accept : String → Bool) : IsRule g (plusThenIdent accept)
  | nStep : IsRule g nStep
  | nDashStep : IsRule g nDashStep
  | anPlusBProduction {p : Production (List Token)} (h : p ∈ anPlusBProductions) : IsRule g p
  | toEnd {p : Production (List Token)} (h : p ∈ anPlusBProductions) : IsRule g (toEnd p)
  | anPlusB : IsRule g anPlusB

/-- The rounds of the loops of the grammar. -/
inductive IsRound (g : Grammar) : {α : Type} → Production (Option α) → Prop
  | subclass : IsRound g (optional (subclass g))
  | pseudoElement : IsRound g (optional (pseudoElement g))
  | pseudoClass : IsRound g (optional (pseudoClass g))
  | link : IsRound g (optional (link g))
  | nextItem : IsRound g (nextItem (selector g))

section Rules

variable (hg : ∀ function, (g.arguments function).Steady dialect levels)
include hg

theorem forward_of_isRule {p : Production α} (h : g.IsRule p) : p.Forward dialect levels := by
  cases h with
  | token h => exact forward_token h
  | nsPrefix => exact forward_nsPrefix
  | qualifiedName => exact forward_qualifiedName
  | standardType => exact forward_standardType
  | typeSelector => exact forward_typeSelector
  | matcher kind => exact forward_matcher kind
  | standardMatcher => exact forward_standardMatcher
  | attributeMatcher => exact forward_attributeMatcher
  | attributeModifier => exact forward_attributeModifier
  | attributeTest => exact forward_attributeTest
  | attributeTail => exact forward_attributeTail
  | standardAttribute => exact forward_standardAttribute
  | bracketedSubject h => exact forward_bracketedSubject h
  | attributeSelector => exact forward_attributeSelector
  | operator kind h => exact forward_operator h
  | descendantCombinator => exact forward_descendantCombinator
  | standardCombinator => exact forward_standardCombinator
  | combinator => exact forward_combinator
  | functionCall => exact forward_functionCall hg
  | pseudoClass => exact forward_pseudoClass hg
  | doubleColon =>
      exact (forward_token fun _ => rfl).bind fun _ => (forward_pseudoClass hg).toSteady
  | pseudoElement => exact forward_pseudoElement hg
  | classSelector => exact forward_classSelector
  | subclass => exact forward_subclass hg
  | compound => exact forward_compound hg
  | link => exact forward_link hg
  | complexSelector => exact forward_complexSelector hg
  | relativeSelector => exact forward_relativeSelector hg
  | selector => exact forward_selector hg
  | selectorList => exact forward_selectorList hg
  | wholeList => exact forward_wholeList hg
  | plusThenIdent accept => exact forward_plusThenIdent accept
  | nStep => exact forward_nStep
  | nDashStep => exact forward_nDashStep
  | anPlusBProduction h => exact forward_anPlusBProductions _ h
  | toEnd h => exact forward_toEnd (forward_anPlusBProductions _ h)
  | anPlusB => exact forward_anPlusB

theorem steady_of_isRound {step : Production (Option α)} (h : g.IsRound step) :
    step.Steady dialect levels ∧ Shortens step := by
  have hoptional {p : Production α} (hp : p.Forward dialect levels) :
      (optional p).Steady dialect levels ∧ Shortens (optional p) :=
    ⟨hp.optional, hp.consumes.shortens_optional⟩
  cases h with
  | subclass => exact hoptional (forward_subclass hg)
  | pseudoElement => exact hoptional (forward_pseudoElement hg)
  | pseudoClass => exact hoptional (forward_pseudoClass hg)
  | link => exact hoptional (forward_link hg)
  | nextItem =>
      exact ⟨steady_nextItem (forward_selector hg),
        shortens_nextItem_of_forward (forward_selector hg)⟩

end Rules

end Grammar

/-! ## The discipline -/

/-- What the action does to the parser, and what it leaves as it is. -/
structure Disciplined (p : Production α) (m : Action α) (s : Parser) : Prop where
  /-- The action comes to what the production reads. -/
  agrees : Agrees (p s.rest) s (m s)
  tokens : (m s).2.tokens = s.tokens
  dialect : (m s).2.dialect = s.dialect
  options : (m s).2.options = s.options
  depth : (m s).2.depth = s.depth
  inside : (m s).2.position ≤ s.tokens.length
  furthest : ∀ place ∈ s.furthest, ∃ place' ∈ (m s).2.furthest, place ≤ place'
  grows : ∀ a, (m s).1 = .ok a → s.position < (m s).2.position
  passes : ∀ a, (m s).1 = .ok a →
    ∀ t ∈ s.tokens.extract s.position (m s).2.position, t.isEof = false
  back : (m s).1 = .error .noMatch →
    m.maybe s = (.ok none, { s with furthest := (m s).2.furthest })
  fatal : ∀ error, (m s).1 = .error (.fatal error) → error = .nestingTooDeep s.options.maxDepth

namespace Agrees

variable {reading : Reading α} {s : Parser} {r : Except Failure α × Parser}

theorem furthest_le (h : Agrees reading s r) :
    ∀ place ∈ s.furthest, ∃ place' ∈ r.2.furthest, place ≤ place' := by
  intro place hplace
  rw [h.moves]
  unfold Parser.movedTo
  dsimp only
  rw [show s.furthest = some place from hplace]
  cases reading.unread with
  | none => exact ⟨place, rfl, Nat.le_refl _⟩
  | some n => exact ⟨_, rfl, Nat.le_max_left _ _⟩

theorem eq_nestingTooDeep (h : Agrees reading s r) {error : SelectorError}
    (herror : r.1 = .error (.fatal error)) : error = .nestingTooDeep s.options.maxDepth := by
  obtain ⟨answer, s'⟩ := r
  obtain rfl : answer = .error (.fatal error) := herror
  have hanswers := h.answers
  generalize reading.outcome = outcome at hanswers
  cases hanswers
  rfl

theorem rest_eq_extract_append (h : Agrees reading s r) :
    s.rest = s.tokens.extract s.position r.2.position ++ r.2.rest := by
  have hahead := h.ahead
  have hrest : r.2.rest = s.rest.drop (r.2.position - s.position) := by
    rw [Parser.rest, Parser.rest, h.tokens, List.drop_drop]
    congr 1
    omega
  rw [hrest, List.extract_eq_take_drop]
  exact (List.take_append_drop _ _).symm

end Agrees

theorem Action.maybe_of_noMatch {m : Action α} {s : Parser} (h : (m s).1 = .error .noMatch) :
    m.maybe s = (.ok none, { (m s).2 with position := s.position }) := by
  unfold Action.maybe
  rcases hr : m s with ⟨answer, s'⟩
  rw [hr] at h
  obtain rfl : answer = .error .noMatch := h
  rfl

theorem Production.Forward.disciplined {p : Production α} {m : Action α} {s : Parser}
    (hp : p.Forward dialect levels) (hm : Acts dialect levels p m) (hs : s.Fits dialect levels) :
    Disciplined p m s := by
  have h : Agrees (p s.rest) s (m s) := hm.follows s hs
  constructor
  case agrees => exact h
  case tokens => exact h.tokens
  case dialect => exact h.dialect_eq
  case options => exact h.options
  case depth => exact h.depth
  case inside => exact h.inside
  case furthest => exact h.furthest_le
  case grows =>
    intro a ha
    have hlt := hp.consumes _ _ _ (h.matches_of_ok ha)
    have hlength := congrArg List.length h.rest_eq_extract_append
    rw [List.length_append, List.extract_eq_take_drop, List.length_take] at hlength
    omega
  case passes =>
    intro a ha
    obtain ⟨taken, htaken, hnone⟩ := hp.advances.passes_of_matches (h.matches_of_ok ha)
    have heq := List.append_cancel_right (h.rest_eq_extract_append.symm.trans htaken)
    rwa [heq]
  case back =>
    intro hno
    have hmoves := h.moves
    rw [Action.maybe_of_noMatch hno, hmoves]
    rfl
  case fatal => exact fun error => h.eq_nestingTooDeep

/-- Whatever production a parser carries out, it keeps to the discipline, and every loop of the
grammar ends. -/
theorem parser_disciplined (s : Parser) (hs : s.position ≤ s.tokens.length) :
    (∀ (α : Type) (p : Production α), s.grammar.IsRule p →
      (∃ m, Acts s.dialect s.levels p m) ∧
        ∀ m, Acts s.dialect s.levels p m → Disciplined p m s) ∧
    ∀ (α : Type) (step : Production (Option α)), s.grammar.IsRound step →
      (∃ round, Acts s.dialect s.levels step round) ∧
        ∀ round, Acts s.dialect s.levels step round → ∃ r, Loop round s r := by
  have hfits : s.Fits s.dialect s.levels := ⟨rfl, rfl, hs⟩
  have hg (function : Token) : (s.grammar.arguments function).Steady s.dialect s.levels :=
    Grammar.steady_readArguments function
  constructor
  · intro α p hp
    have hforward := Grammar.forward_of_isRule hg hp
    exact ⟨hforward.acts, fun m hm => hforward.disciplined hm hfits⟩
  · intro α step hstep
    obtain ⟨hsteady, hshortens⟩ := Grammar.steady_of_isRound hg hstep
    exact ⟨hsteady.acts, fun round hround => Agrees.exists_loop hround.follows hshortens hfits⟩

theorem parser_disciplined_nested :
    ∃ s : Parser, s.position = 1 ∧ s.position ≤ s.tokens.length ∧
      (∃ m, Acts .standard 1 (Grammar.pseudoClass s.grammar) m ∧
        Disciplined (Grammar.pseudoClass s.grammar) m s ∧ (m s).2.position = 3) ∧
      ∃ round r, Acts .standard 1 (Production.optional (Grammar.subclass s.grammar)) round ∧
        Loop round s r := by
  let f : Token := .function "f" [.atom (.ident "a") ⟨4, 5⟩] ⟨2, 6⟩
  let s : Parser :=
    { tokens := [.atom .whitespace ⟨0, 1⟩, .atom .colon ⟨1, 2⟩, f, .atom .eof ⟨6, 6⟩]
      position := 1
      furthest := none
      dialect := .standard
      options := ⟨.standard, 2⟩
      depth := 1 }
  have hs : s.position ≤ s.tokens.length := by decide
  obtain ⟨hrules, hrounds⟩ := parser_disciplined s hs
  obtain ⟨⟨m, hm⟩, hdisciplined⟩ := hrules _ _ .pseudoClass
  obtain ⟨⟨round, hround⟩, hends⟩ := hrounds _ _ .subclass
  obtain ⟨r, hr⟩ := hends round hround
  refine ⟨s, rfl, hs, ⟨m, hm, hdisciplined m hm, ?_⟩, round, r, hround, hr⟩
  have hmatches : (Grammar.pseudoClass s.grammar).Matches s.rest
      (.function f (.selectors [.complex (.last
        ⟨some (.name ⟨none, .atom (.ident "a") ⟨4, 5⟩⟩), [], []⟩)])) [.atom .eof ⟨6, 6⟩] := by
    unfold Production.Matches
    with_unfolding_all rfl
  obtain ⟨-, hrest⟩ := (hdisciplined m hm).agrees.ok_of_matches hmatches
  have hplace := Parser.position_add_length_rest
    ((hdisciplined m hm).tokens ▸ (hdisciplined m hm).inside)
  rw [hrest, (hdisciplined m hm).tokens] at hplace
  exact Nat.succ.inj hplace

end CssSelectors

import CssSelectors.Proofs.Locality

/-!
# The blamed token

An error blames a token of the input. Either the tokens before it form a list on their
own, or no tokens behind it can help: the grammar has settled on refusing the input by
the time it has looked at that token.
-/

namespace CssSelectors

namespace Grammar

open Production

variable {dialect : Dialect} {g : Grammar} {front back tokens : List Token}

/-! ## Names and attributes -/

theorem heeds_nsPrefix : nsPrefix.Heeds False := by
  have hvalue : nsValue.Heeds False :=
    (heeds_token fun _ => rfl).firstOf_cons <|
      (heeds_token fun _ => rfl).firstOf_cons heeds_firstOf_nil
  exact hvalue.optional.bind fun _ => (heeds_token fun _ => rfl).bind fun _ => heeds_pure _

theorem looksFirst_nsPrefix : LooksFirst nsPrefix := by
  have hvalue : LooksFirst nsValue := (looksFirst_token _).firstOf _
  exact hvalue.optional.bind _

theorem heeds_qualifiedName : qualifiedName.Heeds False := by
  have hplain : plainName.Heeds False := (heeds_token fun _ => rfl).bind fun _ => heeds_pure _
  have hprefixed : prefixedName.Heeds False :=
    heeds_nsPrefix.bind fun _ => (heeds_token fun _ => rfl).bind fun _ => heeds_pure _
  exact hprefixed.firstOf_cons (hplain.firstOf_cons heeds_firstOf_nil)

theorem looksFirst_qualifiedName : LooksFirst qualifiedName :=
  (looksFirst_nsPrefix.bind _).firstOf _

theorem heeds_standardType : standardType.Heeds False := by
  have huniversal : universal.Heeds False :=
    heeds_nsPrefix.optional.bind fun _ => (heeds_token fun _ => rfl).bind fun _ => heeds_pure _
  exact huniversal.firstOf_cons ((heeds_qualifiedName.map _).firstOf_cons heeds_firstOf_nil)

theorem heeds_typeSelector : (typeSelector dialect).Heeds False := by
  cases dialect with
  | standard => exact heeds_standardType
  | extended =>
      exact ((heeds_token fun _ => rfl).map _).firstOf_cons <|
        ((heeds_token fun _ => rfl).map _).firstOf_cons <|
          heeds_standardType.firstOf_cons heeds_firstOf_nil

theorem looksFirst_typeSelector : LooksFirst (typeSelector dialect) := by
  cases dialect with
  | standard => exact (looksFirst_nsPrefix.optional.bind _).firstOf _
  | extended => exact ((looksFirst_token _).map _).firstOf _

theorem heeds_attributeMatcher : (attributeMatcher dialect).Heeds False := by
  have hmatcher (kind : MatcherKind) : (matcher kind).Heeds False :=
    (heeds_spelled _).bind fun _ => heeds_pure _
  have hstandard : standardMatcher.Heeds False :=
    (hmatcher _).firstOf_cons <| (hmatcher _).firstOf_cons <| (hmatcher _).firstOf_cons <|
      (hmatcher _).firstOf_cons <| (hmatcher _).firstOf_cons <| (hmatcher _).firstOf_cons
        heeds_firstOf_nil
  cases dialect with
  | standard => exact hstandard
  | extended => exact (hmatcher _).firstOf_cons (hstandard.firstOf_cons heeds_firstOf_nil)

theorem heeds_attributeModifier : attributeModifier.Heeds False := by
  have hword (text : String) : (word text).Heeds False := heeds_token fun _ => rfl
  exact ((hword _).bind fun _ => heeds_pure _).firstOf_cons <|
    ((hword _).bind fun _ => heeds_pure _).firstOf_cons heeds_firstOf_nil

theorem looksFirst_attributeModifier : LooksFirst attributeModifier :=
  ((looksFirst_token _).bind _).firstOf _

theorem heeds_modifierTail (f : Option AttributeModifier → AttributeTest) :
    (modifierTail f).Heeds False := by
  refine Heeds.skip_bind ?_ (looksFirst_attributeModifier.optional.bind _)
  refine heeds_attributeModifier.optional.bind fun _ => ?_
  refine Heeds.skip_bind ?_ ((looksFirst_token _).bind _)
  exact (heeds_token fun _ => rfl).bind fun _ => heeds_pure _

theorem heeds_attributeTest : (attributeTest dialect).Heeds False := by
  have hvalue : attributeValue.Heeds False :=
    (heeds_token fun _ => rfl).firstOf_cons <| (heeds_token fun _ => rfl).firstOf_cons <|
      (heeds_token fun _ => rfl).firstOf_cons heeds_firstOf_nil
  have hfirst : LooksFirst attributeValue := (looksFirst_token _).firstOf _
  rw [attributeTest_eq]
  refine heeds_attributeMatcher.bind fun _ => Heeds.skip_bind ?_ (hfirst.bind _)
  exact hvalue.bind fun _ => heeds_modifierTail _

theorem heeds_attributeTail : (attributeTail dialect).Heeds False := by
  refine (heeds_token fun _ => rfl).optional.bind fun bracket => ?_
  cases bracket with
  | some _ => exact heeds_pure none
  | none => exact heeds_attributeTest.map some

theorem looksFirst_attributeTail : LooksFirst (attributeTail dialect) :=
  (looksFirst_token _).optional.bind _

theorem heeds_standardAttribute : (standardAttribute dialect).Heeds False := by
  refine (heeds_token fun _ => rfl).bind fun _ =>
    Heeds.skip_bind ?_ (looksFirst_qualifiedName.bind _)
  refine heeds_qualifiedName.bind fun _ => Heeds.skip_bind ?_ (looksFirst_attributeTail.bind _)
  exact heeds_attributeTail.bind fun _ => heeds_pure _

/-- The blank text behind the subject is not looked behind, which its callers make up for. -/
theorem heeds_bracketedSubject {accept : Token → Bool}
    (haccept : ∀ span, accept (.atom .eof span) = false) :
    (bracketedSubject accept).Heeds True := by
  refine (heeds_token fun _ => rfl).bind fun _ => Heeds.skip_bind ?_ ((looksFirst_token _).bind _)
  refine (heeds_token haccept).bind fun subject => ?_
  rw [bind_pure_eq_map skip fun _ => subject]
  exact heeds_skip.map _

theorem heeds_attributeSelector : (attributeSelector dialect).Heeds False := by
  have hsubject (accept : Token → Bool) (name : Token → AttributeName)
      (haccept : ∀ span, accept (.atom .eof span) = false) :
      (subjectSelector accept name).Heeds False :=
    (heeds_bracketedSubject haccept).bind_of_looksFirst
      (fun _ => heeds_attributeTail.bind fun _ => heeds_pure _)
      fun _ _ => looksFirst_attributeTail.bind _
  have hposition : positionSelector.Heeds False :=
    (heeds_bracketedSubject fun _ => rfl).bind_of_looksFirst
      (fun _ => (heeds_token fun _ => rfl).bind fun _ => heeds_pure _)
      fun _ _ => (looksFirst_token _).bind _
  cases dialect with
  | standard => exact heeds_standardAttribute
  | extended =>
      exact heeds_standardAttribute.firstOf_cons <|
        (hsubject _ .atKeyword fun _ => rfl).firstOf_cons <| hposition.firstOf_cons <|
          (hsubject _ .xpath fun _ => rfl).firstOf_cons heeds_firstOf_nil

/-! ## Combinators -/

theorem heeds_operator {kind : CombinatorKind} {symbol : List Char} (hne : symbol ≠ []) :
    (operator kind symbol).Heeds True := by
  refine Heeds.skip_bind ?_ ((looksFirst_spelled hne).bind _)
  refine (heeds_spelled symbol).bind fun spelling => ?_
  rw [bind_pure_eq_map skip fun _ => (⟨kind, spelling⟩ : Combinator)]
  exact heeds_skip.map _

/-- An operator looks behind the blank text before it, so a front at which it was looked for
without looking further is not blank. -/
theorem dropWhile_ne_nil_of_spares {kind : CombinatorKind} {symbol : List Char}
    (hne : symbol ≠ []) (heof : ∃ t ∈ front ++ back, t.isEof = true)
    (h : (operator kind symbol (front ++ back)).Spares back) :
    front.dropWhile Token.isInsignificant ≠ [] := by
  intro hnil
  have hdrop : (front ++ back).dropWhile Token.isInsignificant =
      back.dropWhile Token.isInsignificant :=
    List.dropWhile_append_of_pos (List.dropWhile_eq_nil_iff.1 hnil)
  have hskip : skip.Matches (front ++ back) () (back.dropWhile Token.isInsignificant) :=
    matches_skip_iff.2 hdrop.symm
  have hsolid : back.dropWhile Token.isInsignificant ≠ [] := by
    obtain ⟨t, ht, -⟩ := (heeds_skip.advances.passes_of_matches hskip).exists_isEof heof
    exact List.ne_nil_of_mem ht
  have hle : (back.dropWhile Token.isInsignificant).length ≤ back.length :=
    (List.dropWhile_suffix _).length_le
  have hspares := (spares_behind_of_bind hskip h).of_length_le hle
  exact (looksFirst_spelled hne).bind _ _ hsolid hspares

/-- Blank text that nothing has looked behind may go on, so only behind an operator that was
looked for in vain is the combinator without a symbol decided. -/
theorem heeds_operatorOrBlank {kind : CombinatorKind} {symbol : List Char} (hne : symbol ≠ []) :
    (firstOf [operator kind symbol, descendantCombinator]).Heeds True := by
  have hblank : descendantCombinator.Advances := by
    refine advances_insignificant.bind fun blank => ?_
    split
    · exact advances_pure _
    · exact advances_fail
  refine ⟨(heeds_operator hne).advances.orElse (hblank.orElse advances_fail), ?_⟩
  intro front back heof hspares
  have hfront := dropWhile_ne_nil_of_spares hne heof (spares_of_orElse hspares)
  have hdecided : descendantCombinator.DecidedBy front := by
    refine (decidedBy_insignificant hfront).bind fun blank rest _ => ?_
    split
    · exact decidedBy_pure _ rest
    · exact decidedBy_fail rest
  have hblank' : descendantCombinator.HeedsAt True front back := fun _ => .inl hdecided
  have hend := hblank'.orElse (heeds_fail.decided front back heof)
  exact ((heeds_operator hne).decided front back heof).orElse hend hspares

theorem heeds_combinator : (combinator dialect).Heeds True := by
  have hstandard : standardCombinator.Heeds True :=
    (heeds_operator (by decide)).firstOf_cons <| (heeds_operator (by decide)).firstOf_cons <|
      (heeds_operator (by decide)).firstOf_cons (heeds_operatorOrBlank (by decide))
  cases dialect with
  | standard => exact hstandard
  | extended =>
      exact (heeds_operator (by decide)).firstOf_cons <|
        (heeds_operator (by decide)).firstOf_cons (hstandard.firstOf_cons heeds_firstOf_nil)

/-! ## Compounds, chains and lists -/

section Arguments

variable (hg : ∀ function, (g.arguments function).Heeds False)
include hg

theorem heeds_pseudoClass : (pseudoClass g).Heeds False := by
  have hcall : (functionCall g).Heeds False :=
    (heeds_token fun _ => rfl).bind fun function => (hg function).bind fun _ => heeds_pure _
  rw [pseudoClass_eq]
  refine (heeds_token fun _ => rfl).bind fun _ => ?_
  exact ((heeds_token fun _ => rfl).map _).firstOf_cons (hcall.firstOf_cons heeds_firstOf_nil)

theorem heeds_pseudoElement : (pseudoElement g).Heeds False := by
  refine (heeds_token fun _ => rfl).bind fun _ => (heeds_pseudoClass hg).bind fun _ => ?_
  exact (heeds_pseudoClass hg).many.bind fun _ => heeds_pure _

theorem heeds_subclass : (subclass g).Heeds False := by
  have hclass : classSelector.Heeds False :=
    (heeds_token fun _ => rfl).bind fun _ => heeds_token fun _ => rfl
  exact ((heeds_token fun _ => rfl).map _).firstOf_cons <| (hclass.map _).firstOf_cons <|
    (heeds_attributeSelector.map _).firstOf_cons <|
      ((heeds_pseudoClass hg).map _).firstOf_cons heeds_firstOf_nil

theorem heeds_compound : (compound g).Heeds False := by
  rw [compound_eq]
  refine heeds_typeSelector.optional.bind fun _ => (heeds_subclass hg).many.bind fun _ =>
    (heeds_pseudoElement hg).many.bind fun _ => ?_
  unfold ofParts
  split
  · exact heeds_pure _
  · exact heeds_fail

omit hg in
theorem looksFirst_compound : LooksFirst (compound g) :=
  looksFirst_typeSelector.optional.bind _

theorem heeds_complexSelector : (complexSelector g).Heeds False := by
  have hlink : (link g).Heeds False :=
    heeds_combinator.bind_of_looksFirst
      (fun _ => (heeds_compound hg).bind fun _ => heeds_pure _)
      fun _ _ => looksFirst_compound.bind _
  exact (heeds_compound hg).bind fun _ => hlink.many.bind fun _ => heeds_pure _

omit hg in
theorem looksFirst_complexSelector : LooksFirst (complexSelector g) :=
  looksFirst_compound.bind _

theorem heeds_selector : (selector g).Heeds False := by
  have hrelative : (relativeSelector g).Heeds False :=
    heeds_combinator.optional.bind_of_looksFirst
      (fun _ => (heeds_complexSelector hg).bind fun _ => heeds_pure _)
      fun _ _ => looksFirst_complexSelector.bind _
  exact ((heeds_complexSelector hg).map _).firstOf_cons (hrelative.firstOf_cons heeds_firstOf_nil)

omit hg in
theorem looksFirst_selector : LooksFirst (selector g) :=
  (looksFirst_complexSelector.map _).firstOf _

omit hg in
theorem heeds_comma : comma.Heeds False :=
  Heeds.skip_bind (heeds_token fun _ => rfl) (looksFirst_token _)

theorem heeds_wholeList : (wholeList g).Heeds False := by
  have hnext : (nextItem (selector g)).Heeds False := by
    refine heeds_comma.optional.bind fun item => ?_
    cases item with
    | none => exact heeds_pure _
    | some _ => exact Heeds.skip_bind ((heeds_selector hg).map _) (looksFirst_selector.map _)
  refine Heeds.skip_bind ?_ (looksFirst_selector.bind _)
  rw [selectorList_eq]
  exact (heeds_selector hg).bind fun _ => hnext.iterate.bind fun _ => heeds_pure _

end Arguments

/-! ## Arguments -/

theorem heeds_readNested (inner : Grammar) (name : String) (ts : List Token) :
    (readNested inner name ts).Heeds False := by
  apply Heeds.of_decided
  · intro tokens rest h
    rcases readNested_cases inner name ts with ⟨arguments, -, hmatches⟩ | ⟨-, hover⟩
    · rw [show (readNested inner name ts tokens).outcome = _ from hmatches tokens] at h
      cases h
      exact .refl _
    · rw [show (readNested inner name ts tokens).outcome = _ from hover tokens] at h
      cases h
  · intro front
    refine ⟨readNested inner name ts front, fun back => ?_⟩
    unfold readNested
    rcases (anPlusB ts).outcome with ⟨value, leftover⟩ | stuck | _
    · rfl
    all_goals
      cases hlist : (wholeList inner ts).outcome with
      | matched list leftover =>
          by_cases hend : Token.atEnd leftover = true <;> simp only [hlist, hend] <;> rfl
      | noMatch stuck =>
          simp only [hlist]
          rfl
      | tooDeep =>
          simp only [hlist]
          rfl

theorem heeds_readArguments (levels : Nat) (function : Token) :
    (readArguments dialect levels function).Heeds False := by
  by_cases hnil : argumentTokens function = []
  · rw [readArguments_of_nil hnil]
    exact heeds_pure _
  · cases levels with
    | zero =>
        rw [readArguments_zero hnil]
        exact .of_decided (fun _ _ h => nomatch h) fun _ => ⟨⟨.tooDeep, none, []⟩, fun _ => rfl⟩
    | succ levels =>
        rw [readArguments_succ hnil]
        exact heeds_readNested _ _ _

theorem heeds_wholeList_ofLevels (levels : Nat) : (ofLevels dialect levels).wholeList.Heeds False :=
  heeds_wholeList fun function => heeds_readArguments levels function

end Grammar

/-! ## Blame -/

open Production

variable {options : Options} {tokens rest stuck front back : List Token} {t : Token}

namespace Token

theorem culprit_of_looked (h : back.length < stuck.length) :
    culprit (front ++ [t] ++ back) stuck (some back.length) = t := by
  have hlength : (front ++ [t] ++ back).length - back.length - 1 = front.length := by
    simp only [List.length_append, List.length_singleton]
    omega
  rw [culprit, if_pos h, hlength, List.append_assoc, List.drop_left]
  rfl

theorem culprit_of_stuck {whole : List Token} {unread : Option Nat}
    (h : ∀ n ∈ unread, back.length < n) : culprit whole (t :: back) unread = t := by
  cases unread with
  | none => rfl
  | some n =>
      have hlt : back.length < n := h n rfl
      rw [culprit, if_neg (by rw [List.length_cons]; omega)]
      rfl

end Token

theorem exists_split_of_lt {n : Nat} (h : n < tokens.length) :
    ∃ front t back, tokens = front ++ [t] ++ back ∧ back.length = n := by
  have hlt : tokens.length - n - 1 < tokens.length := by omega
  refine ⟨tokens.take (tokens.length - n - 1), tokens[tokens.length - n - 1],
    tokens.drop (tokens.length - n - 1 + 1), ?_, ?_⟩
  · rw [List.take_append_getElem hlt, List.take_append_drop]
  · rw [List.length_drop]
    omega

theorem exists_noMatch_of_decidedBy {α : Type} {p : Production α} (hp : p.DecidedBy front)
    (h : (p (front ++ back)).outcome = .noMatch stuck) :
    ∃ (middle : List Token) (unread : Option Nat), stuck = middle ++ back ∧ ∀ back',
      (p (front ++ back')).outcome = .noMatch (middle ++ back') ∧
        (p (front ++ back')).unread = unread.map (· + back'.length) := by
  obtain ⟨reading, hp⟩ := hp
  rw [hp, Reading.append] at h
  cases houtcome : reading.outcome with
  | matched a rest => simp [houtcome, Outcome.append] at h
  | tooDeep => simp [houtcome, Outcome.append] at h
  | noMatch middle =>
      simp only [houtcome, Outcome.append, Outcome.noMatch.injEq] at h
      refine ⟨middle, reading.unread, h.symm, fun back' => ?_⟩
      rw [hp, Reading.append, houtcome]
      exact ⟨rfl, rfl⟩

/-- What stands up to the blamed token settles that a production refuses the tokens, and that
this token is blamed. -/
theorem exists_refused_front {α : Type} {p : Production α} (hp : p.Heeds False)
    (heof : ∃ t ∈ tokens, t.isEof = true) (h : (p tokens).outcome = .noMatch stuck) :
    ∃ front t back, tokens = front ++ [t] ++ back ∧
      ∀ back', ∃ stuck', (p (front ++ [t] ++ back')).outcome = .noMatch stuck' ∧
        Token.culprit (front ++ [t] ++ back') stuck' (p (front ++ [t] ++ back')).unread = t := by
  have hpasses := hp.advances.passes_of_noMatch h
  by_cases hfar : ∃ n ∈ (p tokens).unread, n < stuck.length
  · -- the blamed token is the last one that was looked at
    obtain ⟨n, hunread, hn⟩ := hfar
    have hlt : n < tokens.length := by
      obtain ⟨taken, rfl, -⟩ := hpasses
      rw [List.length_append]
      omega
    obtain ⟨front, t, back, rfl, rfl⟩ := exists_split_of_lt hlt
    refine ⟨front, t, back, rfl, fun back' => ?_⟩
    have hspares : (p (front ++ [t] ++ back)).Spares back := by
      intro m hm
      rw [Option.mem_unique hm hunread]
    have hdecided : p.DecidedBy (front ++ [t]) :=
      (hp.decided _ back heof hspares).resolve_right fun hstops => hstops.1
    obtain ⟨middle, unread, rfl, hrefused⟩ := exists_noMatch_of_decidedBy hdecided h
    have hzero : unread = some 0 := by
      rw [(hrefused back).2] at hunread
      obtain ⟨m, hm, hsum⟩ := Option.map_eq_some_iff.1 hunread
      have hm0 : m = 0 := by omega
      rw [← hm0]
      exact hm
    refine ⟨middle ++ back', (hrefused back').1, ?_⟩
    rw [(hrefused back').2, hzero, Option.map_some, Nat.zero_add]
    apply Token.culprit_of_looked
    rw [List.length_append] at hn ⊢
    omega
  · -- the blamed token is the one that the last step stood before
    obtain ⟨t, back, rfl⟩ : ∃ t back, stuck = t :: back := by
      obtain ⟨t, ht, -⟩ := hpasses.exists_isEof heof
      exact List.exists_cons_of_ne_nil (List.ne_nil_of_mem ht)
    obtain ⟨front, rfl, -⟩ := hpasses
    rw [List.append_cons] at heof h hfar ⊢
    refine ⟨front, t, back, rfl, fun back' => ?_⟩
    have hlt : ∀ n ∈ (p (front ++ [t] ++ back)).unread, back.length < n := by
      intro n hn
      by_contra hle
      exact hfar ⟨n, hn, by rw [List.length_cons]; omega⟩
    have hspares : (p (front ++ [t] ++ back)).Spares back :=
      fun n hn => Nat.le_of_lt (hlt n hn)
    have hdecided : p.DecidedBy (front ++ [t]) :=
      (hp.decided _ back heof hspares).resolve_right fun hstops => hstops.1
    obtain ⟨middle, unread, hmiddle, hrefused⟩ := exists_noMatch_of_decidedBy hdecided h
    have hmiddle : [t] = middle := List.append_cancel_right hmiddle
    subst hmiddle
    refine ⟨t :: back', (hrefused back').1, ?_⟩
    apply Token.culprit_of_stuck
    intro n hn
    rw [(hrefused back').2] at hn
    obtain ⟨m, hm, rfl⟩ := Option.map_eq_some_iff.1 hn
    have hback : back.length < m + back.length := by
      apply hlt
      rw [(hrefused back).2]
      exact Option.map_eq_some_iff.2 ⟨m, hm, rfl⟩
    omega

theorem parseTokens_of_noMatch
    (h : ((Grammar.ofLevels options.dialect options.maxDepth).wholeList tokens).outcome =
      .noMatch stuck) :
    parseTokens options tokens = .error (.ofToken (Token.culprit tokens stuck
      ((Grammar.ofLevels options.dialect options.maxDepth).wholeList tokens).unread)) := by
  simp only [parseTokens, readTokens, h]

/-- A list that was read but does not reach the end is what the tokens before the blamed one
form. -/
theorem exists_complete_front {list : List Selector}
    (h : (Grammar.ofLevels options.dialect options.maxDepth).wholeList.Matches tokens list rest)
    (hend : Token.atEnd rest = false) :
    ∃ front t back, tokens = front ++ [t] ++ back ∧
      rest.dropWhile Token.isInsignificant = t :: back ∧ parseTokens options front = .ok list := by
  obtain ⟨haccepts, hspells⟩ :=
    Grammar.spells_of_matches_wholeList (Grammar.sealed_ofLevels _ _) h
  obtain ⟨taken, rfl, htaken⟩ := spells_iff_exists_taken.1 hspells
  obtain ⟨t, back, hdrop⟩ : ∃ t back, rest.dropWhile Token.isInsignificant = t :: back := by
    apply List.exists_cons_of_ne_nil
    intro hnil
    simp [Token.atEnd, hnil] at hend
  let blank := rest.takeWhile Token.isInsignificant
  have hsplit : rest = blank ++ t :: back := by
    rw [← hdrop, List.takeWhile_append_dropWhile]
  have hlist : Spells (Selector.piecesOfList .free list) (taken ++ blank) [] := by
    refine spells_piecesOfList_iff.2 ⟨blank, htaken.append_tokens blank, ?_⟩
    exact ⟨blank, [], (List.append_nil _).symm, all_insignificant_takeWhile, by simp, rfl⟩
  refine ⟨taken ++ blank, t, back, ?_, hdrop, ?_⟩
  · rw [hsplit]
    simp
  · rw [parseTokens_eq_ok_iff, Token.beforeEof_of_spells haccepts.wellFormed hlist]
    exact ⟨haccepts, hlist⟩

theorem exists_blamed (heof : ∃ t ∈ tokens, t.isEof = true) {e : SelectorError}
    (h : parseTokens options tokens = .error e) (hlimit : ∀ limit, e ≠ .nestingTooDeep limit) :
    ∃ front t back, tokens = front ++ [t] ++ back ∧ e = .ofToken t ∧
      ((∃ list, parseTokens options front = .ok list) ∨
        ∀ more, parseTokens options (front ++ [t] ++ more) = .error e) := by
  cases houtcome :
      ((Grammar.ofLevels options.dialect options.maxDepth).wholeList tokens).outcome with
  | matched list rest =>
      by_cases hend : Token.atEnd rest = true
      · rw [parseTokens_eq_ok_iff_matches.2 ⟨rest, houtcome, hend⟩] at h
        cases h
      · obtain ⟨front, t, back, htokens, hdrop, hfront⟩ :=
          exists_complete_front houtcome (by simpa using hend)
        refine ⟨front, t, back, htokens, ?_, .inl ⟨list, hfront⟩⟩
        simp only [parseTokens, readTokens, houtcome, hend, hdrop] at h
        cases h
        rfl
  | noMatch stuck =>
      obtain ⟨front, t, back, rfl, hrefused⟩ :=
        exists_refused_front (Grammar.heeds_wholeList_ofLevels options.maxDepth) heof houtcome
      have herror (more : List Token) :
          parseTokens options (front ++ [t] ++ more) = .error (.ofToken t) := by
        obtain ⟨stuck', hstuck, hculprit⟩ := hrefused more
        rw [parseTokens_of_noMatch hstuck, hculprit]
      rw [herror back] at h
      cases h
      exact ⟨front, t, back, rfl, rfl, .inr herror⟩
  | tooDeep =>
      simp only [parseTokens, readTokens, houtcome] at h
      cases h
      exact absurd rfl (hlimit options.maxDepth)

/-- A syntax error blames a token of the input such that the tokens before it form a list, or
no tokens behind it lead to another result. -/
theorem parse_error_blames (heof : ∃ t ∈ tokens, t.isEof = true) {found : String}
    {first last : Nat} (h : parseTokens options tokens = .error (.unexpected found first last)) :
    ∃ (k : Nat) (hk : k < tokens.length),
      .unexpected found first last = SelectorError.ofToken (tokens.get ⟨k, hk⟩) ∧
        ((∃ list, parseTokens options (tokens.take k) = .ok list) ∨
          ∀ more, parseTokens options (tokens.take (k + 1) ++ more) =
            .error (.unexpected found first last)) := by
  obtain ⟨front, t, back, rfl, hfound, hfront⟩ := exists_blamed heof h (by simp)
  have hk : front.length < (front ++ [t] ++ back).length := by
    simp only [List.length_append, List.length_singleton]
    omega
  have htake : (front ++ [t] ++ back).take (front.length + 1) = front ++ [t] :=
    List.take_left' (by simp)
  refine ⟨front.length, hk, ?_, ?_⟩
  · simpa using hfound
  · rw [htake, List.append_assoc, List.take_left]
    exact hfront

theorem parse_error_blames_comma :
    ∃ (k : Nat) (hk : k < 3),
      .unexpected "\",\"" 2 2 = SelectorError.ofToken (List.get
        [.atom (.delim '.') ⟨0, 1⟩, .atom .comma ⟨1, 2⟩, .atom .eof ⟨2, 2⟩] ⟨k, hk⟩) ∧
      ((∃ list, parseTokens {} (List.take k
          [.atom (.delim '.') ⟨0, 1⟩, .atom .comma ⟨1, 2⟩, .atom .eof ⟨2, 2⟩]) = .ok list) ∨
        ∀ more, parseTokens {} (List.take (k + 1)
          [.atom (.delim '.') ⟨0, 1⟩, .atom .comma ⟨1, 2⟩, .atom .eof ⟨2, 2⟩] ++ more) =
            .error (.unexpected "\",\"" 2 2)) := by
  let tokens : List Token :=
    [.atom (.delim '.') ⟨0, 1⟩, .atom .comma ⟨1, 2⟩, .atom .eof ⟨2, 2⟩]
  have heof : ∃ t ∈ tokens, t.isEof = true := ⟨.atom .eof ⟨2, 2⟩, by simp [tokens], rfl⟩
  exact parse_error_blames heof (by with_unfolding_all rfl)

end CssSelectors
